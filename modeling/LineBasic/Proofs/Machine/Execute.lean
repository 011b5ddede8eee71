import LineBasic.Machine.Execute
import LineBasic.Proofs.Computation
import LineBasic.Proofs.Symbols

/-!
# Executing a statement

Executing a statement, without the computation it is written in:

* `Input.Reads`, `Exec.ReadsValue`: what reading a line and reading a value can come to;
* `Sink.NeverFails`: output that refuses nothing;
* `Statement.execute_assign`, `Statement.execute_print`, …: one equation for each kind of
  statement, as a case split on the values of its expressions;
* `Statement.reached`: the statement that the conditionals around it lead to;
* `Statement.execute_reached_append`, `Statement.execute_reached`: a statement does what the
  statement it comes to does, after remarks on the conditions passed.
-/

namespace LineBasic

/-- The result of executing a statement: a fault or where control goes, and the machine then. -/
abbrev Outcome := EStateM.Result Fault Machine Flow

/-- What reading a line can come to. -/
inductive Input.Reads (i : Input) : Input × Except InputFault String → Prop
  | device {cause : String} (hcause : i.cause? i.lines = some cause) :
      Reads i (i, .error (.device cause))
  | atEnd (hlines : i.lines = []) : Reads i (i, .error .endOfInput)
  | notText {line : List UInt8} {rest : List (List UInt8)} (hlines : i.lines = line :: rest)
      (htext : Text.ofBytes? line = none) : Reads i ({ i with lines := rest }, .error .notText)
  | text {line : List UInt8} {rest : List (List UInt8)} {text : String}
      (hlines : i.lines = line :: rest) (htext : Text.ofBytes? line = some text) :
      Reads i ({ i with lines := rest }, .ok text)

lemma Input.reads_read (i : Input) : i.Reads i.read := by
  rw [read]
  cases hcause : i.cause? i.lines with
  | some cause => exact .device hcause
  | none =>
    cases hlines : i.lines with
    | nil => exact .atEnd hlines
    | cons line rest =>
      dsimp only
      cases htext : Text.ofBytes? line with
      | none => exact .notText hlines htext
      | some text => exact .text hlines htext

namespace Sink

/-- The sink with more bytes written. -/
def add (s : Sink) (bytes : ByteArray) : Sink := { s with written := s.written ++ bytes }

lemma flush_of_granted {s : Sink} (h : s.flushes = .granted) : s.flush = (s, none) := by
  obtain ⟨written, intake, flushes⟩ := s
  obtain rfl : flushes = .granted := h
  rfl

/-- The sink takes all bytes and can be flushed. -/
structure NeverFails (s : Sink) : Prop where
  intake : s.intake = .all
  flushes : s.flushes = .granted

namespace NeverFails

variable {s : Sink}

lemma write_eq (h : s.NeverFails) (bytes : ByteArray) : s.write bytes = (s.add bytes, none) := by
  obtain ⟨written, intake, flushes⟩ := s
  obtain rfl : intake = .all := h.intake
  rfl

lemma flush_eq (h : s.NeverFails) : s.flush = (s, none) := flush_of_granted h.flushes

lemma add (h : s.NeverFails) (bytes : ByteArray) : (s.add bytes).NeverFails :=
  ⟨h.intake, h.flushes⟩

end NeverFails

end Sink

namespace Machine

/-- The machine with a remark recorded, if there is one. -/
def remarked (m : Machine) (remark : Option Remark) (span : Span) : Machine :=
  match remark with
  | some r => { m with warnings := m.warnings.push ⟨r, m.stack.line, span⟩ }
  | none => m

section

variable (m : Machine) (remark : Option Remark) (span : Span)

/-- A remark changes nothing but the warnings. -/
lemma remarked_eq :
    m.remarked remark span = { m with warnings := (m.remarked remark span).warnings } := by
  cases remark <;> rfl

@[simp]
lemma output_remarked : (m.remarked remark span).output = m.output := by rw [m.remarked_eq]

@[simp]
lemma symbols_remarked : (m.remarked remark span).symbols = m.symbols := by rw [m.remarked_eq]

@[simp]
lemma stack_remarked : (m.remarked remark span).stack = m.stack := by rw [m.remarked_eq]

@[simp]
lemma state_remarked : (m.remarked remark span).state = m.state := by rw [m.remarked_eq]

end

/-- A remark is added after the warnings recorded so far. -/
lemma exists_remarked (m : Machine) (remark : Option Remark) (span : Span) :
    ∃ new, m.remarked remark span = { m with warnings := m.warnings ++ new } := by
  cases remark with
  | none => exact ⟨#[], by simp [remarked]⟩
  | some r => exact ⟨#[⟨r, m.stack.line, span⟩], by simp [remarked]⟩

/-- The machine after text was written, and why the output refused it, if it did. -/
def wrote (m : Machine) (text : String) : Machine × Option String :=
  ({ m with output := (m.output.write text.toUTF8).1 }, (m.output.write text.toUTF8).2)

@[simp]
lemma symbols_wrote (m : Machine) (text : String) : (m.wrote text).1.symbols = m.symbols := rfl

@[simp]
lemma state_wrote (m : Machine) (text : String) : (m.wrote text).1.state = m.state := rfl

/-- The machine after its output was flushed, be it refused or not. -/
def flushed (m : Machine) : Machine := { m with output := m.output.flush.1 }

lemma wrote_of_neverFails {m : Machine} (h : m.output.NeverFails) (text : String) :
    m.wrote text = ({ m with output := m.output.add text.toUTF8 }, none) := by
  rw [wrote, h.write_eq]

lemma flushed_of_neverFails {m : Machine} (h : m.output.NeverFails) : m.flushed = m := by
  rw [flushed, h.flush_eq]

end Machine

namespace Exec

lemma warnIf_eq (remark : Option Remark) (span : Span) (m : Machine) :
    warnIf remark span m = .ok () (m.remarked remark span) := by
  cases remark <;> rfl

lemma evaluate_eq (e : Expr) (m : Machine) :
    evaluate e m =
      match e.evaluate m.symbols with
      | .ok v => .ok v m
      | .error f => .error f m := by
  show ofExcept (e.evaluate m.symbols) m = _
  cases e.evaluate m.symbols <;> rfl

/-- The value of a condition is taken for its truth, after a remark on it. -/
lemma condition_eq (e : Expr) (span : Span) (m : Machine) :
    condition e span m =
      match e.evaluate m.symbols with
      | .ok v => .ok v.isTruthy (m.remarked v.conditionRemark? span)
      | .error f => .error f m := by
  rw [condition, bind_eq, evaluate_eq]
  cases e.evaluate m.symbols with
  | error f => rfl
  | ok v =>
    dsimp only
    rw [bind_eq, warnIf_eq]
    rfl

lemma target_eq (e : Expr) (m : Machine) :
    target e m =
      match e.target m.symbols with
      | .ok line => .ok line m
      | .error f => .error f m := by
  show ofExcept (e.target m.symbols) m = _
  cases e.target m.symbols <;> rfl

lemma output_eq (use : Sink → Sink × Option String) (m : Machine) :
    output use m =
      match (use m.output).2 with
      | none => .ok () { m with output := (use m.output).1 }
      | some cause => .error (.output cause) { m with output := (use m.output).1 } := by
  have hget : (get : Exec Machine) m = .ok m m := rfl
  rw [output, bind_eq, hget]
  dsimp only
  rw [bind_eq]
  cases (use m.output).2 <;> rfl

lemma write_eq (text : String) (m : Machine) :
    write text m =
      match (m.wrote text).2 with
      | none => .ok () (m.wrote text).1
      | some cause => .error (.output cause) (m.wrote text).1 := output_eq _ m

lemma flush_eq (m : Machine) :
    flush m =
      match m.output.flush.2 with
      | none => .ok () m.flushed
      | some cause => .error (.output cause) m.flushed := output_eq _ m

/-- Reading a value writes the prompt, makes sure that it has arrived and takes a line. -/
lemma readValue_eq (m : Machine) :
    readValue m =
      let asked := (m.wrote m.prompt).1
      match (m.wrote m.prompt).2 with
      | some cause => .error (.output cause) asked
      | none =>
        match asked.output.flush.2 with
        | some cause => .error (.output cause) asked.flushed
        | none =>
          match m.input.read.2 with
          | .ok text => .ok (.ofInputLine text) { asked.flushed with input := m.input.read.1 }
          | .error cause =>
            .error (.input cause) { asked.flushed with input := m.input.read.1 } := by
  have hget (m : Machine) : (get : Exec Machine) m = .ok m m := rfl
  rw [readValue, bind_eq, hget]
  dsimp only
  rw [bind_eq, write_eq]
  cases (m.wrote m.prompt).2 with
  | some cause => rfl
  | none =>
    dsimp only
    rw [bind_eq, flush_eq]
    cases (m.wrote m.prompt).1.output.flush.2 with
    | some cause => rfl
    | none =>
      have hinput : (m.wrote m.prompt).1.flushed.input = m.input := rfl
      dsimp only
      rw [bind_eq, hget]
      dsimp only
      rw [hinput, bind_eq]
      cases m.input.read.2 <;> rfl

/-- Reading a value on an output that never fails. -/
lemma readValue_of_neverFails {m : Machine} (h : m.output.NeverFails) :
    readValue m =
      let asked := { m with output := m.output.add m.prompt.toUTF8 }
      match m.input.read.2 with
      | .ok text => .ok (.ofInputLine text) { asked with input := m.input.read.1 }
      | .error cause => .error (.input cause) { asked with input := m.input.read.1 } := by
  have hflush := (h.add m.prompt.toUTF8).flush_eq
  rw [readValue_eq, Machine.wrote_of_neverFails h]
  dsimp only [Machine.flushed]
  rw [hflush]

/-- What reading a value can come to: the output refuses the prompt or to be flushed, or the input
is read. -/
inductive ReadsValue (m : Machine) : EStateM.Result Fault Machine Value → Prop
  | refused (cause : String) (output : Sink) :
      ReadsValue m (.error (.output cause) { m with output := output })
  | fails (output : Sink) {input : Input} {cause : InputFault}
      (hread : m.input.Reads (input, .error cause)) :
      ReadsValue m (.error (.input cause) { m with input := input, output := output })
  | reads (output : Sink) {input : Input} {text : String}
      (hread : m.input.Reads (input, .ok text)) :
      ReadsValue m (.ok (.ofInputLine text) { m with input := input, output := output })

lemma readsValue (m : Machine) : ReadsValue m (readValue m) := by
  rw [readValue_eq]
  dsimp only
  cases (m.wrote m.prompt).2 with
  | some cause => exact .refused cause _
  | none =>
    cases (m.wrote m.prompt).1.output.flush.2 with
    | some cause => exact .refused cause _
    | none =>
      have hread := m.input.reads_read
      generalize m.input.read = r at hread ⊢
      obtain ⟨input, line⟩ := r
      cases line with
      | ok text => exact .reads _ hread
      | error cause => exact .fails _ hread

/-- The machine that a computation leaves, whether it failed or not. -/
def machineAfter {α : Type} : EStateM.Result Fault Machine α → Machine
  | .ok _ m => m
  | .error _ m => m

/-- Reading a value changes the input and the output. -/
lemma machine_readValue (m : Machine) :
    ∃ input output, machineAfter (readValue m) = { m with input := input, output := output } := by
  have hreads := readsValue m
  generalize readValue m = result at hreads ⊢
  cases hreads with
  | refused cause output => exact ⟨_, _, rfl⟩
  | fails output hread => exact ⟨_, _, rfl⟩
  | reads output hread => exact ⟨_, _, rfl⟩

/-- Reading values changes the input, the output and the variables named. -/
lemma machine_readInto (names : List String) (m : Machine) :
    ∃ input output symbols, machineAfter (readInto names m) =
        { m with input := input, output := output, symbols := symbols } ∧
      m.symbols.Extends names symbols := by
  induction names generalizing m with
  | nil => exact ⟨_, _, _, rfl, .refl [] _⟩
  | cons name names ih =>
    obtain ⟨input, output, hmachine⟩ := machine_readValue m
    rw [readInto, bind_eq]
    cases hread : readValue m with
    | error f m' =>
      rw [hread] at hmachine
      obtain rfl : m' = { m with input := input, output := output } := hmachine
      exact ⟨_, _, _, rfl, .refl _ _⟩
    | ok v m' =>
      rw [hread] at hmachine
      obtain rfl : m' = { m with input := input, output := output } := hmachine
      obtain ⟨input', output', symbols, hrest, hextends⟩ :=
        ih { m with input := input, output := output, symbols := m.symbols.set name v }
      refine ⟨input', output', symbols, hrest, .trans (.set _ List.mem_cons_self v) ?_⟩
      exact hextends.mono fun other => List.mem_cons_of_mem name

section

variable {names : List String} {m : Machine} {r : EStateM.Result Fault Machine Unit}

lemma stack_of_readInto (h : readInto names m = r) : (machineAfter r).stack = m.stack := by
  obtain ⟨_, _, _, hmachine, -⟩ := machine_readInto names m
  rw [← h, hmachine]

lemma state_of_readInto (h : readInto names m = r) : (machineAfter r).state = m.state := by
  obtain ⟨_, _, _, hmachine, -⟩ := machine_readInto names m
  rw [← h, hmachine]

lemma warnings_of_readInto (h : readInto names m = r) :
    (machineAfter r).warnings = m.warnings := by
  obtain ⟨_, _, _, hmachine, -⟩ := machine_readInto names m
  rw [← h, hmachine]

lemma names_of_readInto (h : readInto names m = r) :
    m.symbols.Extends names (machineAfter r).symbols := by
  obtain ⟨_, _, _, hmachine, hextends⟩ := machine_readInto names m
  rw [← h, hmachine]
  exact hextends

end

end Exec

namespace Statement

/-! ### One equation for each kind of statement -/

variable (m : Machine) (span : Span)

lemma execute_assign (name : String) (e : Expr) :
    (Statement.assign name e span).execute m =
      match e.evaluate m.symbols with
      | .ok v => .ok .next { m with symbols := m.symbols.set name v }
      | .error f => .error f m := by
  refine (bind_eq _ _ m).trans ?_
  rw [Exec.evaluate_eq]
  cases e.evaluate m.symbols <;> rfl

/-- The value that `PRINT` prints. -/
def printed (symbols : Symbols) : Option Expr → Except Fault Value
  | some e => e.evaluate symbols
  | none => .ok (.string "")

lemma execute_print (item : Option Expr) :
    (Statement.print item span).execute m =
      match printed m.symbols item with
      | .ok v =>
        let written := (m.remarked v.printRemark? span).wrote (v.text ++ "\n")
        match written.2 with
        | none => .ok .next written.1
        | some cause => .error (.output cause) written.1
      | .error f => .error f m := by
  have hwrite (v : Value) : (do
      Exec.warnIf v.printRemark? span
      Exec.write (v.text ++ "\n")
      return .next : Exec Flow) m =
      let written := (m.remarked v.printRemark? span).wrote (v.text ++ "\n")
      match written.2 with
      | none => .ok .next written.1
      | some cause => .error (.output cause) written.1 := by
    rw [bind_eq, Exec.warnIf_eq]
    dsimp only
    rw [bind_eq, Exec.write_eq]
    cases ((m.remarked v.printRemark? span).wrote (v.text ++ "\n")).2 <;> rfl
  cases item with
  | none => exact hwrite (.string "")
  | some e =>
    refine (bind_eq _ _ m).trans ?_
    rw [Exec.evaluate_eq, printed]
    cases e.evaluate m.symbols with
    | error f => rfl
    | ok v => exact hwrite v

lemma execute_ifThen (c : Expr) (t : Statement) :
    (Statement.ifThen c t span).execute m =
      match c.evaluate m.symbols with
      | .ok v =>
        if v.isTruthy then t.execute (m.remarked v.conditionRemark? span)
        else .ok .next (m.remarked v.conditionRemark? span)
      | .error f => .error f m := by
  refine (bind_eq _ _ m).trans ?_
  rw [Exec.condition_eq]
  cases c.evaluate m.symbols with
  | error f => rfl
  | ok v =>
    dsimp only
    split <;> rfl

lemma execute_ifThenElse (c : Expr) (t e : Statement) :
    (Statement.ifThenElse c t e span).execute m =
      match c.evaluate m.symbols with
      | .ok v =>
        if v.isTruthy then t.execute (m.remarked v.conditionRemark? span)
        else e.execute (m.remarked v.conditionRemark? span)
      | .error f => .error f m := by
  refine (bind_eq _ _ m).trans ?_
  rw [Exec.condition_eq]
  cases c.evaluate m.symbols with
  | error f => rfl
  | ok v =>
    dsimp only
    split <;> rfl

lemma execute_goto (target : Expr) :
    (Statement.goto target span).execute m =
      match target.target m.symbols with
      | .ok line =>
        if line < 0 then .error (.lineNotFound line) m
        else .ok .jump { m with stack := m.stack.goto line }
      | .error f => .error f m := by
  refine (bind_eq _ _ m).trans ?_
  rw [Exec.target_eq]
  cases target.target m.symbols with
  | error f => rfl
  | ok line =>
    dsimp only
    split <;> rfl

lemma execute_gosub (target : Expr) :
    (Statement.gosub target span).execute m =
      match target.target m.symbols with
      | .ok line =>
        let warned := m.remarked (if line < 0 then some (.negativeLine line) else none) span
        .ok .call { warned with stack := m.stack.call line }
      | .error f => .error f m := by
  refine (bind_eq _ _ m).trans ?_
  rw [Exec.target_eq]
  cases target.target m.symbols with
  | error f => rfl
  | ok line =>
    dsimp only
    split <;> rfl

lemma execute_ret :
    (Statement.ret span).execute m =
      match m.stack.ret with
      | some stack => .ok .ret { m with stack := stack }
      | none => .error .returnOutsideSub m := by
  have hget : (get : Exec Machine) m = .ok m m := rfl
  refine (bind_eq _ _ m).trans ?_
  rw [Exec.ret, bind_eq, hget]
  dsimp only
  cases m.stack.ret <;> rfl

lemma execute_input (names : List String) :
    (Statement.input names span).execute m =
      match Exec.readInto names m with
      | .ok _ m' => .ok .next m'
      | .error f m' => .error f m' := by
  refine (bind_eq _ _ m).trans ?_
  cases Exec.readInto names m <;> rfl

lemma execute_halt : (Statement.halt span).execute m = .ok .next m.exit := rfl

/-! ### The statement that is reached -/

/-- The statement that the conditionals lead to: the branch taken, through all conditionals
inside it. A conditional whose condition fails, or that has no branch to take, leads to itself. -/
def reached (symbols : Symbols) : Statement → Statement
  | .ifThen c t span =>
    match c.evaluate symbols with
    | .ok v => if v.isTruthy then t.reached symbols else .ifThen c t span
    | .error _ => .ifThen c t span
  | .ifThenElse c t e span =>
    match c.evaluate symbols with
    | .ok v => if v.isTruthy then t.reached symbols else e.reached symbols
    | .error _ => .ifThenElse c t e span
  | s => s

/-- A statement does what the statement it comes to does. On the way only remarks are made, which
are added after the warnings recorded so far. -/
lemma execute_reached_append (s : Statement) (m : Machine) :
    ∃ new, s.execute m =
      (s.reached m.symbols).execute { m with warnings := m.warnings ++ new } := by
  induction s generalizing m with
  | ifThen c t span ih =>
    rw [reached]
    cases hc : c.evaluate m.symbols with
    | error f => exact ⟨#[], by simp⟩
    | ok v =>
      dsimp only
      split
      next htrue =>
        obtain ⟨first, hfirst⟩ := m.exists_remarked v.conditionRemark? span
        obtain ⟨later, hlater⟩ := ih { m with warnings := m.warnings ++ first }
        refine ⟨first ++ later, ?_⟩
        rw [execute_ifThen, hc, ← Array.append_assoc]
        dsimp only
        rw [if_pos htrue, hfirst]
        exact hlater
      · exact ⟨#[], by simp⟩
  | ifThenElse c t e span iht ihe =>
    rw [reached]
    cases hc : c.evaluate m.symbols with
    | error f => exact ⟨#[], by simp⟩
    | ok v =>
      obtain ⟨first, hfirst⟩ := m.exists_remarked v.conditionRemark? span
      rw [execute_ifThenElse, hc]
      dsimp only
      rw [hfirst]
      split
      · obtain ⟨later, hlater⟩ := iht { m with warnings := m.warnings ++ first }
        exact ⟨first ++ later, by rw [← Array.append_assoc]; exact hlater⟩
      · obtain ⟨later, hlater⟩ := ihe { m with warnings := m.warnings ++ first }
        exact ⟨first ++ later, by rw [← Array.append_assoc]; exact hlater⟩
  | _ => exact ⟨#[], by simp [reached]⟩

/-- A statement does what the statement it comes to does. On the way only remarks are made. -/
lemma execute_reached (s : Statement) (m : Machine) :
    ∃ warnings, s.execute m =
      (s.reached m.symbols).execute { m with warnings := warnings } := by
  obtain ⟨new, hnew⟩ := s.execute_reached_append m
  exact ⟨m.warnings ++ new, hnew⟩

end Statement

end LineBasic
