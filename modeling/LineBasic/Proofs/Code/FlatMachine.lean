import LineBasic.Code.CodeUnit
import LineBasic.Machine.State
import LineBasic.Machine.Run
import Mathlib.Tactic.Lemma

/-!
# A machine for flat code

What the instructions of a code unit mean, read off their texts alone. The machine has a counter, a
value for every name, the indices to return to, the input not yet read and the output. It knows
nothing of the program that the code was made from.

* `FlatMachine.value`: an operand is a text in quotes, a name of the unit, or else a number;
* `FlatMachine.step`: one instruction;
* `FlatMachine.run`: a run of bounded length from the first instruction;
* `FlatMachine.Steps`: a number of steps that do not end the run.
-/

namespace LineBasic

namespace Text

/-- A text without its escapes: a backslash stands for the character after it. -/
def unescape : List Char → List Char
  | [] => []
  | '\\' :: c :: cs => c :: unescape cs
  | c :: cs => c :: unescape cs

/-- The text between the quotes that a text starts and ends with, without escapes. -/
def unquoted? (text : String) : Option String :=
  match text.toList with
  | '"' :: cs =>
    if cs.getLast? = some '"' then some (String.ofList (unescape cs.dropLast)) else none
  | _ => none

end Text

/-- The operator that an opcode computes. -/
def Opcode.operator? : Opcode → Option BinaryOp
  | .addition => some (.arith .add)
  | .subtraction => some (.arith .sub)
  | .multiplication => some (.arith .mul)
  | .division => some (.arith .div)
  | .eq => some (.rel .eq)
  | .ne => some (.rel .ne)
  | .lt => some (.rel .lt)
  | .le => some (.rel .le)
  | .gt => some (.rel .gt)
  | .ge => some (.rel .ge)
  | _ => none

/-- The text of the label that an instruction defines. -/
def Instruction.defines? (i : Instruction) : Option String :=
  if i.opcode = .label then i.operand1.map Operand.text else none

/-- Why a run of flat code fails. -/
inductive FlatFault where
  | operator (cause : ValueError)
  | targetNotNumber (found : String)
  | lineNotMapped (line : Int)
  | labelNotDefined
  | nothingToReturnTo
  | input (cause : InputFault)
deriving DecidableEq

/-- The fault of flat code that corresponds to a fault of a program. The others need a name that is
not known, or output that is refused. -/
def Fault.flat? : Fault → Option FlatFault
  | .operator cause => some (.operator cause)
  | .targetNotNumber found => some (.targetNotNumber found)
  | .lineNotFound line => some (.lineNotMapped line)
  | .noStatement line => some (.lineNotMapped line)
  | .returnOutsideSub => some .nothingToReturnTo
  | .input cause => some (.input cause)
  | _ => none

/-- What a run of flat code can see and change. -/
structure FlatState where
  counter : Nat
  values : String → Value
  returns : List Nat
  input : Input
  output : ByteArray

/-- What one step of a run of flat code leads to. -/
inductive FlatTransition where
  | next (state : FlatState)
  | done (state : FlatState)
  | failed (fault : FlatFault) (state : FlatState)

/-- How a run of flat code ends, if it ends within its bound. -/
inductive FlatResult where
  | ended (result : Except FlatFault Unit) (state : FlatState)
  | unfinished (state : FlatState)

namespace FlatState

/-- All values are unset and nothing is written. -/
def start (input : Input) : FlatState := ⟨0, fun _ => .unset, [], input, .empty⟩

/-- The state at another instruction. -/
def goto (s : FlatState) (index : Nat) : FlatState := { s with counter := index }

/-- The state at the next instruction. -/
def advance (s : FlatState) : FlatState := s.goto (s.counter + 1)

/-- The state with a value stored under a name, if there is one. -/
def store (s : FlatState) (result : Option Symbol) (v : Value) : FlatState :=
  match result with
  | some r => { s with values := fun name => if name = r.text then v else s.values name }
  | none => s

/-- The state with text written. -/
def write (s : FlatState) (text : String) : FlatState :=
  { s with output := s.output ++ text.toUTF8 }

end FlatState

/-- Flat code, how a number is read from its text, and the prompt for input. -/
structure FlatMachine where
  unit : CodeUnit
  readNumber? : String → Option Number
  prompt : String

namespace FlatMachine

/-- What the text of an operand stands for. -/
def valueOf (f : FlatMachine) (s : FlatState) (text : String) : Value :=
  match Text.unquoted? text with
  | some content => .string content
  | none =>
    if f.unit.symbols.contains text then s.values text
    else
      match f.readNumber? text with
      | some x => .number x
      | none => .unset

/-- The value of an operand, which is unset if there is none. -/
def value (f : FlatMachine) (s : FlatState) (operand : Option Operand) : Value :=
  match operand with
  | some o => f.valueOf s o.text
  | none => .unset

/-- The index of the instruction that defines a label. -/
def labelIndex? (f : FlatMachine) (label : Symbol) : Option Nat :=
  f.unit.code.toList.findIdx? fun i => i.defines? == some label.text

/-- Jumps to a label. -/
def jump (f : FlatMachine) (s : FlatState) (label : Symbol) : FlatTransition :=
  match f.labelIndex? label with
  | some index => .next (s.goto index)
  | none => .failed .labelNotDefined s

/-- Goes to where a line starts, with the given indices to return to. -/
def enterLine (f : FlatMachine) (s : FlatState) (line : Int) (returns : List Nat) :
    FlatTransition :=
  match (lineIndex? line).bind f.unit.lineMap.get? with
  | some index => .next { s with counter := index, returns := returns }
  | none => .failed (.lineNotMapped line) s

/-- Goes to the line that a value names. -/
def jumpToLine (f : FlatMachine) (s : FlatState) (target : Value) (returns : List Nat) :
    FlatTransition :=
  match target with
  | .number x => f.enterLine s x.toLine returns
  | v => .failed (.targetNotNumber v.typeName) s

/-- Reads a line of input into a result, after the prompt. -/
def readInput (f : FlatMachine) (s : FlatState) (result : Option Symbol) : FlatTransition :=
  let (input, line) := s.input.read
  let s := { s.write f.prompt with input := input }
  match line with
  | .ok text => .next (s.store result (.ofInputLine text)).advance
  | .error cause => .failed (.input cause) s

/-- Executes an instruction that computes an operator or does nothing. -/
def compute (f : FlatMachine) (s : FlatState) (i : Instruction) : FlatTransition :=
  match i.opcode.operator? with
  | some op =>
    match Value.binary op (f.value s i.operand1) (f.value s i.operand2) with
    | .ok v => .next (s.store i.result v).advance
    | .error cause => .failed (.operator cause) s
  | none => .next s.advance

/-- Executes one instruction. -/
def execute (f : FlatMachine) (s : FlatState) (i : Instruction) : FlatTransition :=
  match i.opcode with
  | .print => .next (s.write ((f.value s i.operand1).text ++ "\n")).advance
  | .assign => .next (s.store i.result (f.value s i.operand1)).advance
  | .input => f.readInput s i.result
  | .halt => .done s
  | .ret =>
    match s.returns with
    | index :: returns => .next { s with counter := index, returns := returns }
    | [] => .failed .nothingToReturnTo s
  | .goto =>
    match i.target with
    | some label => f.jump s label
    | none => f.jumpToLine s (f.value s i.operand1) s.returns
  | .gosub => f.jumpToLine s (f.value s i.operand1) ((s.counter + 1) :: s.returns)
  | .ifTrue | .ifFalse =>
    if (f.value s i.operand1).isTruthy == (i.opcode == .ifTrue) then
      match i.target with
      | some label => f.jump s label
      | none => .failed .labelNotDefined s
    else .next s.advance
  | _ => f.compute s i

/-- Executes the instruction at the counter. The run is over after the last one. -/
def step (f : FlatMachine) (s : FlatState) : FlatTransition :=
  match f.unit.code[s.counter]? with
  | some i => f.execute s i
  | none => .done s

/-- Goes on with a run for at most `fuel` steps. -/
def resume (f : FlatMachine) (fuel : Nat) (s : FlatState) : FlatResult :=
  match fuel with
  | 0 => .unfinished s
  | fuel + 1 =>
    match f.step s with
    | .next s' => f.resume fuel s'
    | .done s' => .ended (.ok ()) s'
    | .failed fault s' => .ended (.error fault) s'

/-- Runs the code from its first instruction for at most `fuel` steps. -/
def run (f : FlatMachine) (input : Input) (fuel : Nat) : FlatResult :=
  f.resume fuel (.start input)

/-! ### Steps -/

/-- The machine comes from one state to another in `n` steps. -/
inductive Steps (f : FlatMachine) : Nat → FlatState → FlatState → Prop
  | refl (s : FlatState) : Steps f 0 s s
  | head {n : Nat} {s s' s'' : FlatState} (h : f.step s = .next s') (rest : Steps f n s' s'') :
      Steps f (n + 1) s s''

variable {f : FlatMachine}

lemma Steps.one {s s' : FlatState} (h : f.step s = .next s') : f.Steps 1 s s' := .head h (.refl s')

lemma Steps.trans {n k : Nat} {s s' s'' : FlatState} (h : f.Steps n s s') (h' : f.Steps k s' s'') :
    f.Steps (n + k) s s'' := by
  induction h with
  | refl s => rwa [Nat.zero_add]
  | @head n s s₁ s₂ hstep _ ih =>
    rw [Nat.succ_add]
    exact .head hstep (ih h')

/-- A run goes on from where its first steps lead. -/
lemma Steps.resume {n : Nat} {s s' : FlatState} (h : f.Steps n s s') (k : Nat) :
    f.resume (n + k) s = f.resume k s' := by
  induction h with
  | refl s => rw [Nat.zero_add]
  | @head n s s₁ s₂ hstep _ ih =>
    rw [Nat.succ_add, FlatMachine.resume, hstep]
    exact ih

lemma Steps.resume_eq {n : Nat} {s s' : FlatState} (h : f.Steps n s s') :
    f.resume n s = .unfinished s' := h.resume 0

/-- A run that ends within a bound ends in the same way within every greater one. -/
lemma resume_mono {n k : Nat} {s s' : FlatState} {result : Except FlatFault Unit}
    (h : f.resume n s = .ended result s') (hle : n ≤ k) : f.resume k s = .ended result s' := by
  induction n generalizing k s with
  | zero => cases h
  | succ n ih =>
    obtain ⟨j, rfl⟩ : ∃ j, k = j + 1 := ⟨k - 1, by omega⟩
    rw [FlatMachine.resume] at h ⊢
    cases hstep : f.step s with
    | next s₁ =>
      rw [hstep] at h
      exact ih h (by omega)
    | done s₁ =>
      rw [hstep] at h
      exact h
    | failed fault s₁ =>
      rw [hstep] at h
      exact h

/-- A run ends in one way only. -/
lemma resume_unique {n k : Nat} {s s₁ s₂ : FlatState} {r₁ r₂ : Except FlatFault Unit}
    (h₁ : f.resume n s = .ended r₁ s₁) (h₂ : f.resume k s = .ended r₂ s₂) : r₁ = r₂ ∧ s₁ = s₂ := by
  have hmax₁ := resume_mono h₁ (Nat.le_max_left n k)
  have hmax₂ := resume_mono h₂ (Nat.le_max_right n k)
  exact FlatResult.ended.inj (hmax₁.symm.trans hmax₂)

/-- After some steps from `s` the machine makes the transition `t`. -/
def Leads (f : FlatMachine) (s : FlatState) (t : FlatTransition) : Prop :=
  ∃ n s', f.Steps n s s' ∧ f.step s' = t

lemma Steps.leads {n : Nat} {s s' : FlatState} {t : FlatTransition} (h : f.Steps n s s')
    (h' : f.Leads s' t) : f.Leads s t := by
  obtain ⟨k, s₁, hsteps, ht⟩ := h'
  exact ⟨n + k, s₁, h.trans hsteps, ht⟩

lemma Leads.of_step {s : FlatState} {t : FlatTransition} (h : f.step s = t) : f.Leads s t :=
  ⟨0, s, .refl s, h⟩

lemma Leads.ended_ok {s s' : FlatState} (h : f.Leads s (.done s')) :
    ∃ n, f.resume n s = .ended (.ok ()) s' := by
  obtain ⟨n, s₁, hsteps, hstep⟩ := h
  refine ⟨n + 1, ?_⟩
  rw [hsteps.resume, FlatMachine.resume, hstep]

lemma Leads.ended_error {s s' : FlatState} {fault : FlatFault} (h : f.Leads s (.failed fault s')) :
    ∃ n, f.resume n s = .ended (.error fault) s' := by
  obtain ⟨n, s₁, hsteps, hstep⟩ := h
  refine ⟨n + 1, ?_⟩
  rw [hsteps.resume, FlatMachine.resume, hstep]

end FlatMachine

end LineBasic
