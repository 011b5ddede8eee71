import LineBasic.Proofs.Code.Labels
import LineBasic.Proofs.Machine.Execute

/-!
# Flat code does what statements do

* `FlatMachine.CodeAt`: where in a unit some instructions are;
* `FlatState.After`: nothing has changed but the counter and temporaries;
* `Agrees`: a machine for programs and a state of flat code hold the same values, input and output;
* `Expr.computes`: the code of an expression computes its value;
* `FlatMachine.Follows`, `Statement.followed`: the code of a statement does what executing the
  statement does.
-/

namespace LineBasic

namespace FlatMachine

/-! ### Places in a unit -/

/-- The unit has some instructions from an index on. -/
def CodeAt (f : FlatMachine) (index : Nat) (code : List Instruction) : Prop :=
  ∀ k i, code[k]? = some i → f.unit.code[index + k]? = some i

variable {f : FlatMachine}

namespace CodeAt

lemma left {index : Nat} {is js : List Instruction} (h : f.CodeAt index (is ++ js)) :
    f.CodeAt index is := by
  intro k i hk
  have hlt : k < is.length := (List.getElem?_eq_some_iff.mp hk).1
  exact h k i (by rw [List.getElem?_append_left hlt]; exact hk)

lemma right {index : Nat} {is js : List Instruction} (h : f.CodeAt index (is ++ js)) :
    f.CodeAt (index + is.length) js := by
  intro k i hk
  rw [Nat.add_assoc]
  refine h (is.length + k) i ?_
  rw [List.getElem?_append_right (Nat.le_add_right ..), Nat.add_sub_cancel_left]
  exact hk

lemma head {index : Nat} {i : Instruction} {is : List Instruction} (h : f.CodeAt index (i :: is)) :
    f.unit.code[index]? = some i := h 0 i rfl

lemma tail {index : Nat} {i : Instruction} {is : List Instruction} (h : f.CodeAt index (i :: is)) :
    f.CodeAt (index + 1) is := by
  have hsplit : f.CodeAt index ([i] ++ is) := h
  exact hsplit.right

end CodeAt

lemma step_eq {s : FlatState} {i : Instruction} (h : f.unit.code[s.counter]? = some i) :
    f.step s = f.execute s i := by
  rw [step, h]

lemma step_ret {s : FlatState} (h : f.unit.code[s.counter]? = some Statement.retInstruction) :
    f.step s =
      match s.returns with
      | index :: returns => .next { s with counter := index, returns := returns }
      | [] => .failed .nothingToReturnTo s :=
  step_eq h

end FlatMachine

/-! ### Expressions -/

/-- The state `s'` is at `index` and differs from `s` at most in temporaries from number `t` on. -/
structure FlatState.After (s : FlatState) (t index : Nat) (s' : FlatState) : Prop where
  eq : s' = { s with counter := index, values := s'.values }
  values : ∀ name, (∀ i, t ≤ i → name ≠ (Symbol.temp i).text) → s'.values name = s.values name

namespace FlatState.After

lemma refl (s : FlatState) (t : Nat) : s.After t s.counter s := ⟨rfl, fun _ _ => rfl⟩

lemma trans {s s' s'' : FlatState} {t t' index index' : Nat} (h : s.After t index s')
    (h' : s'.After t' index' s'') (ht : t ≤ t') : s.After t index' s'' := by
  refine ⟨?_, fun name hname => ?_⟩
  · rw [h'.eq, h.eq]
  · rw [h'.values name fun i hi => hname i (Nat.le_trans ht hi), h.values name hname]

lemma counter {s s' : FlatState} {t index : Nat} (h : s.After t index s') : s'.counter = index := by
  rw [h.eq]

lemma returns {s s' : FlatState} {t index : Nat} (h : s.After t index s') :
    s'.returns = s.returns := by
  rw [h.eq]

/-- A temporary gets a value, and the machine goes on. -/
lemma store {s s' : FlatState} {t index i : Nat} (h : s.After t index s') (hi : t ≤ i) (v : Value) :
    s.After t (index + 1) (s'.store (some (.temp i)) v).advance := by
  refine ⟨?_, fun name hname => ?_⟩
  · rw [h.eq]
    rfl
  · show (if name = (Symbol.temp i).text then v else s'.values name) = _
    rw [if_neg (hname i hi), h.values name hname]

end FlatState.After

namespace Expr

variable {f : FlatMachine} {known : List String}

/-- The operand of an expression keeps its value when later temporaries change. -/
lemma value_operand_after (hnames : f.Names known) {e : Expr} {t index : Nat} {s s' : FlatState}
    (hreads : e.Reads known) (htemps : t + e.temps ≤ f.unit.temps)
    (hliterals : f.ReadsBack e.literals)
    (h : s.After (t + e.temps) index s') :
    f.value s' (some (e.operand t)) = f.value s (some (e.operand t)) := by
  have htemp {i : Nat} (hi : i < t + e.temps) :
      f.value s' (some (.symbol (.temp i))) = f.value s (some (.symbol (.temp i))) := by
    have hlt : i < f.unit.temps := Nat.lt_of_lt_of_le hi htemps
    rw [FlatMachine.value_temp hnames hlt, FlatMachine.value_temp hnames hlt]
    refine h.values _ fun j hj heq => ?_
    have hij := Symbol.text_temp_injective heq
    omega
  cases e with
  | ident name span =>
    have hname : name ∈ known := hreads (name, span) List.mem_cons_self
    rw [operand, FlatMachine.value_given hnames hname, FlatMachine.value_given hnames hname]
    exact h.values _ fun i _ => (hnames.isName name hname).ne_temp i
  | number x span =>
    have hx := hliterals x List.mem_cons_self
    rw [operand, FlatMachine.value_number hnames hx, FlatMachine.value_number hnames hx]
  | string x span => exact htemp (by simp only [temps]; omega)
  | binary op l r span => exact htemp (by simp only [temps]; omega)

lemma execute_binaryInstruction (f : FlatMachine) (s : FlatState) (t : Nat) (op : BinaryOp)
    (left right : Operand) :
    f.execute s (binaryInstruction t op left right) =
      match Value.binary op (f.value s (some left)) (f.value s (some right)) with
      | .ok v => .next (s.store (some (.temp t)) v).advance
      | .error cause => .failed (.operator cause) s := by
  rcases op with (_ | _ | _ | _) | (_ | _ | _ | _ | _ | _) <;> rfl

/-- The code of an expression computes its value, or fails as it does. -/
theorem computes (hnames : f.Names known) {e : Expr} {t : Nat} {s : FlatState} {symbols : Symbols}
    (hreads : e.Reads known) (htemps : t + e.temps ≤ f.unit.temps)
    (hliterals : f.ReadsBack e.literals)
    (hcode : f.CodeAt s.counter (e.code t))
    (hvalues : ∀ name ∈ known, symbols.get? name = some (s.values name)) :
    match e.evaluate symbols with
    | .ok v =>
      ∃ n s', f.Steps n s s' ∧ s.After t (s.counter + (e.code t).length) s' ∧
        f.value s' (some (e.operand t)) = v
    | .error g =>
      ∃ n index fault s', f.Steps n s s' ∧ s.After t index s' ∧ g.flat? = some fault ∧
        f.step s' = .failed fault s' := by
  induction e generalizing t s with
  | ident name span =>
    have hname : name ∈ known := hreads (name, span) List.mem_cons_self
    rw [evaluate, hvalues name hname]
    exact ⟨0, s, .refl s, .refl s t, FlatMachine.value_given hnames hname⟩
  | number x span =>
    exact ⟨0, s, .refl s, .refl s t,
      FlatMachine.value_number hnames (hliterals x List.mem_cons_self)⟩
  | string x span =>
    have hstep : f.step s = .next (s.store (some (.temp t)) (.string x)).advance := by
      rw [FlatMachine.step_eq hcode.head]
      show FlatTransition.next
        (s.store (some (.temp t)) (f.value s (some (.quoted x)))).advance = _
      rw [FlatMachine.value_quoted]
    refine ⟨1, _, .one hstep, (FlatState.After.refl s t).store (Nat.le_refl t) _, ?_⟩
    have hlt : t < f.unit.temps := by simp only [temps] at htemps; omega
    rw [operand, FlatMachine.value_temp hnames hlt]
    exact if_pos rfl
  | binary op l r span ihl ihr =>
    have hreadsl : l.Reads known := fun x hx => hreads x (List.mem_append_left _ hx)
    have hreadsr : r.Reads known := fun x hx => hreads x (List.mem_append_right _ hx)
    have htotal : t + (l.temps + r.temps + 1) ≤ f.unit.temps := htemps
    have hl := ihl hreadsl (t := t) (by omega) hliterals.left hcode.left.left hvalues
    rw [evaluate]
    cases hevall : l.evaluate symbols with
    | error g =>
      rw [hevall] at hl
      exact hl
    | ok a =>
      rw [hevall] at hl
      obtain ⟨n₁, s₁, hsteps₁, hafter₁, ha⟩ := hl
      have hvalues₁ : ∀ name ∈ known, symbols.get? name = some (s₁.values name) := by
        intro name hname
        rw [hvalues name hname,
          hafter₁.values name fun i _ => (hnames.isName name hname).ne_temp i]
      have hr := ihr hreadsr (t := t + l.temps) (s := s₁) (by omega) hliterals.right
        (hafter₁.counter ▸ hcode.left.right) hvalues₁
      cases hevalr : r.evaluate symbols with
      | error g =>
        rw [hevalr] at hr
        obtain ⟨n₂, index, fault, s₂, hsteps₂, hafter₂, hfault, hstep⟩ := hr
        exact ⟨n₁ + n₂, index, fault, s₂, hsteps₁.trans hsteps₂,
          hafter₁.trans hafter₂ (Nat.le_add_right ..), hfault, hstep⟩
      | ok b =>
        rw [hevalr] at hr
        obtain ⟨n₂, s₂, hsteps₂, hafter₂, hb⟩ := hr
        have hafter : s.After t _ s₂ := hafter₁.trans hafter₂ (Nat.le_add_right ..)
        -- the left operand still has its value after the code of the right one
        have ha₂ : f.value s₂ (some (l.operand t)) = a := by
          rw [value_operand_after hnames hreadsl (by omega) hliterals.left hafter₂, ha]
        have hinstr := hcode.right.head
        have hlength : s.counter + (l.code t ++ r.code (t + l.temps)).length = s₂.counter := by
          rw [hafter₂.counter, hafter₁.counter, List.length_append, Nat.add_assoc]
        rw [hlength] at hinstr
        have hstep := FlatMachine.step_eq hinstr
        rw [execute_binaryInstruction, ha₂, hb] at hstep
        dsimp only
        cases hop : Value.binary op a b with
        | error cause =>
          rw [hop] at hstep
          exact ⟨n₁ + n₂, _, .operator cause, s₂, hsteps₁.trans hsteps₂, hafter, rfl, hstep⟩
        | ok v =>
          rw [hop] at hstep
          refine ⟨n₁ + n₂ + 1, _, (hsteps₁.trans hsteps₂).trans (.one hstep), ?_, ?_⟩
          · have hindex : s.counter + ((Expr.binary op l r span).code t).length =
                s₁.counter + (r.code (t + l.temps)).length + 1 := by
              simp only [code, List.length_append, List.length_singleton, hafter₁.counter]
              omega
            rw [hindex]
            exact hafter.store (by omega) v
          · have hlt : t + l.temps + r.temps < f.unit.temps := by omega
            rw [operand, FlatMachine.value_temp hnames hlt]
            exact if_pos rfl

end Expr

/-! ### Agreement -/

/-- A machine for programs and a state of flat code hold the same values, input and output. The
output never fails. -/
structure Agrees (known : List String) (prompt : String) (m : Machine) (s : FlatState) : Prop where
  values : ∀ name ∈ known, m.symbols.get? name = some (s.values name)
  input : s.input = m.input
  output : s.output = m.output.written
  never : m.output.NeverFails
  prompt : m.prompt = prompt

namespace Agrees

variable {known : List String} {prompt : String} {m : Machine} {s s' : FlatState}

/-- Temporaries, the counter and the indices to return to do not matter. -/
lemma after (h : Agrees known prompt m s) (hnames : ∀ name ∈ known, IsName name) {t index : Nat}
    (hafter : s.After t index s') : Agrees known prompt m s' := by
  refine ⟨fun name hname => ?_, ?_, ?_, h.never, h.prompt⟩
  · rw [h.values name hname, hafter.values name fun i _ => (hnames name hname).ne_temp i]
  · rw [hafter.eq]
    exact h.input
  · rw [hafter.eq]
    exact h.output

/-- The counter and the indices to return to do not matter. -/
lemma entered (h : Agrees known prompt m s) (index : Nat) (returns : List Nat) :
    Agrees known prompt m { s with counter := index, returns := returns } :=
  ⟨h.values, h.input, h.output, h.never, h.prompt⟩

lemma goto (h : Agrees known prompt m s) (index : Nat) : Agrees known prompt m (s.goto index) :=
  h.entered index s.returns

/-- The call stack, the state of the run and the warnings do not matter. -/
lemma moved (h : Agrees known prompt m s) (stack : CallStack) (state : RunState)
    (warnings : Array Warning) :
    Agrees known prompt { m with stack := stack, state := state, warnings := warnings } s :=
  ⟨h.values, h.input, h.output, h.never, h.prompt⟩

/-- Remarks do not matter. -/
lemma remarked (h : Agrees known prompt m s) (remark : Option Remark) (span : Span) :
    Agrees known prompt (m.remarked remark span) s := by
  rw [m.remarked_eq]
  exact h.moved m.stack m.state _

/-- The same value is stored in both. -/
lemma store (h : Agrees known prompt m s) (name : String) (v : Value) :
    Agrees known prompt { m with symbols := m.symbols.set name v }
      (s.store (some (.given name)) v).advance := by
  refine ⟨fun other hother => ?_, h.input, h.output, h.never, h.prompt⟩
  show (m.symbols.set name v).get? other = some (if other = name then v else s.values other)
  rw [Symbols.get?_set]
  split
  · rfl
  · exact h.values other hother

/-- The same text is written to both. -/
lemma write (h : Agrees known prompt m s) (text : String) :
    (m.wrote text).2 = none ∧ Agrees known prompt (m.wrote text).1 (s.write text) := by
  rw [Machine.wrote_of_neverFails h.never]
  refine ⟨rfl, h.values, h.input, ?_, h.never.add _, h.prompt⟩
  show s.output ++ text.toUTF8 = m.output.written ++ text.toUTF8
  rw [h.output]

/-- The same line is taken from both. -/
lemma taken (h : Agrees known prompt m s) (input : Input) :
    Agrees known prompt { m with input := input } { s with input := input } :=
  ⟨h.values, rfl, h.output, h.never, h.prompt⟩

end Agrees

namespace FlatMachine

/-! ### Quiet code -/

/-- From index `a` the machine comes to index `b` and changes nothing on the way. -/
def Quiet (f : FlatMachine) (a b : Nat) : Prop :=
  ∀ s : FlatState, s.counter = a → ∃ n, f.Steps n s (s.goto b)

variable {f : FlatMachine}

lemma Quiet.refl (f : FlatMachine) (a : Nat) : f.Quiet a a := by
  rintro s rfl
  exact ⟨0, .refl s⟩

lemma Quiet.trans {a b c : Nat} (h : f.Quiet a b) (h' : f.Quiet b c) : f.Quiet a c := by
  intro s hs
  obtain ⟨n, hn⟩ := h s hs
  obtain ⟨k, hk⟩ := h' (s.goto b) rfl
  exact ⟨n + k, hn.trans hk⟩

lemma quiet_label {a label : Nat} {remark : String}
    (h : f.unit.code[a]? = some (Statement.labelInstruction label remark)) : f.Quiet a (a + 1) := by
  rintro s rfl
  exact ⟨1, .one (step_eq h)⟩

/-- A jump over an alternative is quiet. -/
lemma quiet_skip {a b label : Nat} {remark : String}
    (hnodup : (f.unit.code.toList.filterMap Instruction.defines?).Nodup)
    (hskip : f.unit.code[a]? = some (Statement.skipInstruction label))
    (hlabel : f.unit.code[b]? = some (Statement.labelInstruction label remark)) : f.Quiet a b := by
  rintro s rfl
  have hstep : f.step s = f.jump s (.label label) := step_eq hskip
  rw [jump_eq hnodup hlabel] at hstep
  exact ⟨1, .one hstep⟩

/-! ### Statements -/

/-- How flat code, from a state `s`, follows the execution of a statement whose line ends at index
`stop`:  it fails, stops or comes to the end of the line as the statement does, or it comes to an
instruction that jumps, calls or returns. What is called returns to where nothing is left to do
but to go to the end of the line. -/
inductive Follows (f : FlatMachine) (known : List String) (s : FlatState) (stop : Nat) :
    Outcome → Prop
  | fails {g : Fault} {m : Machine} {fault : FlatFault} {s' : FlatState}
      (hfault : g.flat? = some fault) (hleads : f.Leads s (.failed fault s'))
      (hagrees : Agrees known f.prompt m s') : Follows f known s stop (.error g m)
  | goesOn {m : Machine} {n : Nat} {s' : FlatState} (hpos : 0 < n) (hsteps : f.Steps n s s')
      (hcounter : s'.counter = stop) (hreturns : s'.returns = s.returns)
      (hagrees : Agrees known f.prompt m s') (hstate : m.state = .running) :
      Follows f known s stop (.ok .next m)
  | halts {m : Machine} {s' : FlatState} (hleads : f.Leads s (.done s'))
      (hagrees : Agrees known f.prompt m s') (hstate : m.state = .exited) :
      Follows f known s stop (.ok .next m)
  | jumps {m : Machine} {n : Nat} {s' : FlatState} (hsteps : f.Steps n s s')
      (hreturns : s'.returns = s.returns) (hagrees : Agrees known f.prompt m s')
      (hstate : m.state = .running)
      (hstep : f.step s' = f.enterLine s' m.stack.line s'.returns) :
      Follows f known s stop (.ok .jump m)
  | calls {m : Machine} {n : Nat} {s' : FlatState} (hsteps : f.Steps n s s')
      (hreturns : s'.returns = s.returns) (hagrees : Agrees known f.prompt m s')
      (hstate : m.state = .running) (hquiet : f.Quiet (s'.counter + 1) stop)
      (hstep : f.step s' = f.enterLine s' m.stack.line ((s'.counter + 1) :: s'.returns)) :
      Follows f known s stop (.ok .call m)
  | returns {m : Machine} {n : Nat} {s' : FlatState} (hsteps : f.Steps n s s')
      (hreturns : s'.returns = s.returns) (hagrees : Agrees known f.prompt m s')
      (hstate : m.state = .running)
      (hret : f.unit.code[s'.counter]? = some Statement.retInstruction) :
      Follows f known s stop (.ok .ret m)

/-- Steps before do not matter, if they keep the indices to return to. -/
lemma Follows.of_steps {known : List String} {s s' : FlatState} {stop n : Nat} {outcome : Outcome}
    (h : f.Follows known s' stop outcome) (hsteps : f.Steps n s s')
    (hreturns : s'.returns = s.returns) : f.Follows known s stop outcome := by
  cases h with
  | fails hfault hleads hagrees => exact .fails hfault (hsteps.leads hleads) hagrees
  | goesOn hpos hsteps' hcounter hreturns' hagrees hstate =>
    exact .goesOn (Nat.add_pos_right n hpos) (hsteps.trans hsteps') hcounter
      (hreturns'.trans hreturns) hagrees hstate
  | halts hleads hagrees hstate => exact .halts (hsteps.leads hleads) hagrees hstate
  | jumps hsteps' hreturns' hagrees hstate hstep =>
    exact .jumps (hsteps.trans hsteps') (hreturns'.trans hreturns) hagrees hstate hstep
  | calls hsteps' hreturns' hagrees hstate hquiet hstep =>
    exact .calls (hsteps.trans hsteps') (hreturns'.trans hreturns) hagrees hstate hquiet hstep
  | returns hsteps' hreturns' hagrees hstate hret =>
    exact .returns (hsteps.trans hsteps') (hreturns'.trans hreturns) hagrees hstate hret

/-- One more instruction, and then nothing is left to do on the line. -/
lemma Follows.of_step {known : List String} {s s' : FlatState} {stop : Nat} {m : Machine}
    (hstep : f.step s = .next s') (hquiet : f.Quiet s'.counter stop)
    (hreturns : s'.returns = s.returns) (hagrees : Agrees known f.prompt m s')
    (hstate : m.state = .running) : f.Follows known s stop (.ok .next m) := by
  obtain ⟨n, hn⟩ := hquiet s' rfl
  exact .goesOn (Nat.succ_pos _) (.head hstep hn) rfl hreturns (hagrees.goto stop) hstate

/-- The code of an expression comes first: it fails as the expression does, or what follows goes on
with its value. -/
lemma Follows.of_computes {known : List String} (hnames : f.Names known) {e : Expr} {t stop : Nat}
    {m : Machine} {s : FlatState} {outcome : Outcome} (hreads : e.Reads known)
    (htemps : t + e.temps ≤ f.unit.temps)
    (hliterals : f.ReadsBack e.literals)
    (hcode : f.CodeAt s.counter (e.code t)) (hagrees : Agrees known f.prompt m s)
    (herror : ∀ g, e.evaluate m.symbols = .error g → outcome = .error g m)
    (hok : ∀ v s', e.evaluate m.symbols = .ok v → s'.counter = s.counter + (e.code t).length →
      s'.returns = s.returns → Agrees known f.prompt m s' →
      f.value s' (some (e.operand t)) = v → f.Follows known s' stop outcome) :
    f.Follows known s stop outcome := by
  have hcomputes := Expr.computes hnames hreads htemps hliterals hcode hagrees.values
  cases he : e.evaluate m.symbols with
  | error g =>
    rw [he] at hcomputes
    obtain ⟨n, index, fault, s', hsteps, hafter, hfault, hstep⟩ := hcomputes
    rw [herror g he]
    exact .fails hfault (hsteps.leads (.of_step hstep)) (hagrees.after hnames.isName hafter)
  | ok v =>
    rw [he] at hcomputes
    obtain ⟨n, s', hsteps, hafter, hvalue⟩ := hcomputes
    exact (hok v s' he hafter.counter hafter.returns (hagrees.after hnames.isName hafter)
      hvalue).of_steps hsteps hafter.returns

/-- The same for the target of a jump or call, after which the machine enters the line. -/
lemma Follows.of_target {known : List String} (hnames : f.Names known) {e : Expr} {t stop : Nat}
    {m : Machine} {s : FlatState} {outcome : Outcome} {i : Instruction}
    {returns : FlatState → List Nat} (hreads : e.Reads known)
    (htemps : t + e.temps ≤ f.unit.temps) (hliterals : f.ReadsBack e.literals)
    (hcode : f.CodeAt s.counter (e.code t ++ [i])) (hagrees : Agrees known f.prompt m s)
    (hjump : ∀ s', f.execute s' i =
      f.jumpToLine s' (f.value s' (some (e.operand t))) (returns s'))
    (herror : ∀ g, e.target m.symbols = .error g → outcome = .error g m)
    (hok : ∀ line s', e.target m.symbols = .ok line →
      s'.counter = s.counter + (e.code t).length → s'.returns = s.returns →
      Agrees known f.prompt m s' → f.step s' = f.enterLine s' line (returns s') →
      f.Follows known s' stop outcome) :
    f.Follows known s stop outcome := by
  refine .of_computes hnames hreads htemps hliterals hcode.left hagrees
    (fun g hg => herror g (by rw [Expr.target, hg])) fun v s' hv hcounter hret hagrees' hvalue => ?_
  have hinstr := hcode.right.head
  rw [← hcounter] at hinstr
  have hstep : f.step s' = f.jumpToLine s' v (returns s') := by
    rw [step_eq hinstr, hjump, hvalue]
  -- everything but a number is refused as a target
  have hrefused (found : String) (htarget : e.target m.symbols = .error (.targetNotNumber found))
      (hfailed : f.step s' = .failed (.targetNotNumber found) s') :
      f.Follows known s' stop outcome := by
    rw [herror _ htarget]
    exact .fails rfl (.of_step hfailed) hagrees'
  cases v with
  | number x => exact hok x.toLine s' (by rw [Expr.target, hv]) hcounter hret hagrees' hstep
  | string x => exact hrefused _ (by rw [Expr.target, hv]) hstep
  | boolean b => exact hrefused _ (by rw [Expr.target, hv]) hstep
  | unset => exact hrefused _ (by rw [Expr.target, hv]) hstep

/-- One line of input is read as by the machine for programs. -/
lemma step_input {known : List String} {name : String} {m : Machine} {s : FlatState}
    (hcode : f.unit.code[s.counter]? = some (Statement.inputInstruction name))
    (hagrees : Agrees known f.prompt m s) :
    match Exec.readValue m with
    | .ok v m' =>
      m'.state = m.state ∧ ∃ s', f.step s = .next s' ∧ s'.counter = s.counter + 1 ∧
        s'.returns = s.returns ∧
        Agrees known f.prompt { m' with symbols := m'.symbols.set name v } s'
    | .error g m' =>
      ∃ fault s', g.flat? = some fault ∧ f.step s = .failed fault s' ∧
        Agrees known f.prompt m' s' := by
  have hwritten := (hagrees.write m.prompt).2
  have hstep : f.step s = f.readInput s (some (.given name)) := step_eq hcode
  rw [readInput, hagrees.input] at hstep
  rw [Machine.wrote_of_neverFails hagrees.never, hagrees.prompt] at hwritten
  rw [Exec.readValue_of_neverFails hagrees.never, hstep, hagrees.prompt]
  generalize m.input.read = result
  obtain ⟨input, line⟩ := result
  cases line with
  | error cause => exact ⟨_, _, rfl, rfl, hwritten.taken input⟩
  | ok text => exact ⟨rfl, _, rfl, rfl, rfl, (hwritten.taken input).store name _⟩

/-- The code of an `INPUT` reads its lines as the statement does. -/
lemma follows_readInto {known : List String} {names : List String} {stop : Nat} {m : Machine}
    {s : FlatState} (hcode : f.CodeAt s.counter (names.map Statement.inputInstruction))
    (hquiet : f.Quiet (s.counter + names.length) stop) (hne : names ≠ [])
    (hagrees : Agrees known f.prompt m s) (hstate : m.state = .running) :
    f.Follows known s stop
      (match Exec.readInto names m with
      | .ok _ m' => .ok .next m'
      | .error g m' => .error g m') := by
  induction names generalizing m s with
  | nil => exact absurd rfl hne
  | cons name names ih =>
    have hfirst := step_input hcode.head hagrees
    rw [Exec.readInto, bind_eq]
    cases hread : Exec.readValue m with
    | error g m' =>
      rw [hread] at hfirst
      obtain ⟨fault, s', hfault, hstep, hagrees'⟩ := hfirst
      exact .fails hfault (.of_step hstep) hagrees'
    | ok v m' =>
      rw [hread] at hfirst
      obtain ⟨hstate', s', hstep, hcounter, hreturns, hagrees'⟩ := hfirst
      have hend : s.counter + (name :: names).length = s'.counter + names.length := by
        rw [hcounter, List.length_cons]
        omega
      rw [hend] at hquiet
      cases hnames : names with
      | nil =>
        subst hnames
        exact .of_step hstep hquiet hreturns hagrees' (hstate'.trans hstate)
      | cons other others =>
        rw [← hnames]
        have hne' : names ≠ [] := by simp [hnames]
        exact (ih (hcounter ▸ hcode.tail) hquiet hne' hagrees'
          (hstate'.trans hstate)).of_steps (.one hstep) hreturns

/-- A value is printed as by the machine for programs. -/
lemma follows_print {known : List String} {v : Value} {span : Span} {stop : Nat} {m : Machine}
    {s : FlatState} (hstep : f.step s = .next (s.write (v.text ++ "\n")).advance)
    (hquiet : f.Quiet (s.counter + 1) stop) (hagrees : Agrees known f.prompt m s)
    (hstate : m.state = .running) :
    f.Follows known s stop
      (let written := (m.remarked v.printRemark? span).wrote (v.text ++ "\n")
      match written.2 with
      | none => .ok .next written.1
      | some cause => .error (.output cause) written.1) := by
  obtain ⟨hcomplete, hwritten⟩ := (hagrees.remarked v.printRemark? span).write (v.text ++ "\n")
  dsimp only
  rw [hcomplete]
  refine .of_step hstep hquiet rfl (hwritten.goto _) ?_
  rw [m.remarked_eq]
  exact hstate

/-- A branch goes on if its condition counts as true, and else jumps to its label. -/
lemma step_branch {s : FlatState} {condition : Operand} {v : Value} {label : Nat} {remark : String}
    (hcode : f.unit.code[s.counter]? = some (Statement.branchInstruction condition label remark))
    (hvalue : f.value s (some condition) = v) :
    f.step s = if v.isTruthy then .next s.advance else f.jump s (.label label) := by
  rw [step_eq hcode, ← hvalue]
  show (if (f.value s (some condition)).isTruthy == false then f.jump s (.label label)
    else .next s.advance) = _
  cases (f.value s (some condition)).isTruthy <;> rfl

/-- A line below zero is in no line map. -/
lemma enterLine_of_neg {line : Int} (h : line < 0) (s : FlatState) (returns : List Nat) :
    f.enterLine s line returns = .failed (.lineNotMapped line) s := by
  have hindex : lineIndex? line = none := by
    rw [lineIndex?, if_neg]
    omega
  rw [enterLine, hindex]
  rfl

end FlatMachine

namespace Statement

/-- A machine and a state of flat code before a statement: its code is there, the two agree, and
after its code nothing is left to do on its line, which ends at `stop`. -/
structure Ready (f : FlatMachine) (known : List String) (st : Statement) (t l stop : Nat)
    (m : Machine) (s : FlatState) : Prop where
  lowerable : st.Lowerable known
  temps : t + st.temps ≤ f.unit.temps
  literals : f.ReadsBack st.literals
  code : f.CodeAt s.counter (st.code t l)
  quiet : f.Quiet (s.counter + (st.code t l).length) stop
  agrees : Agrees known f.prompt m s
  running : m.state = .running
  returns : m.stack.ret = none → s.returns = []

/-- The code of a statement does what executing the statement does, wherever it is. -/
def Followed (f : FlatMachine) (known : List String) (st : Statement) : Prop :=
  ∀ t l stop m s, Ready f known st t l stop m s → f.Follows known s stop (st.execute m)

variable {f : FlatMachine} {known : List String}

lemma followed_assign (hnames : f.Names known) (name : String) (e : Expr) (span : Span) :
    Followed f known (.assign name e span) := by
  intro t l stop m s h
  refine .of_computes hnames h.lowerable.1 h.temps h.literals h.code.left h.agrees
    (fun g hg => by rw [execute_assign, hg]) fun v s' hv hcounter hret hagrees hvalue => ?_
  have hinstr := h.code.right.head
  have hquiet := h.quiet
  rw [code, List.length_append, ← Nat.add_assoc, ← hcounter] at hquiet
  rw [← hcounter] at hinstr
  have hstep : f.step s' = .next (s'.store (some (.given name)) v).advance := by
    rw [FlatMachine.step_eq hinstr, ← hvalue]
    rfl
  rw [execute_assign, hv]
  exact .of_step hstep hquiet rfl (hagrees.store name v) h.running

lemma followed_print (hnames : f.Names known) (item : Option Expr) (span : Span) :
    Followed f known (.print item span) := by
  intro t l stop m s h
  cases item with
  | none =>
    have hstep : f.step s = .next (s.write ((Value.string "").text ++ "\n")).advance :=
      FlatMachine.step_eq h.code.head
    rw [execute_print]
    exact FlatMachine.follows_print hstep h.quiet h.agrees h.running
  | some e =>
    have hliterals : f.ReadsBack e.literals := by simpa [literals] using h.literals
    refine .of_computes hnames (h.lowerable e rfl) h.temps hliterals h.code.left h.agrees
      (fun g hg => by rw [execute_print, printed, hg])
      fun v s' hv hcounter hret hagrees hvalue => ?_
    have hinstr := h.code.right.head
    have hquiet := h.quiet
    rw [code, List.length_append, ← Nat.add_assoc, ← hcounter] at hquiet
    rw [← hcounter] at hinstr
    have hstep : f.step s' = .next (s'.write (v.text ++ "\n")).advance := by
      rw [FlatMachine.step_eq hinstr, ← hvalue]
      rfl
    rw [execute_print, printed, hv]
    exact FlatMachine.follows_print hstep hquiet hagrees h.running

lemma followed_ifThen (hnames : f.Names known)
    (hnodup : (f.unit.code.toList.filterMap Instruction.defines?).Nodup) {c : Expr}
    {b : Statement} (span : Span) (ih : Followed f known b) :
    Followed f known (.ifThen c b span) := by
  intro t l stop m s h
  have htotal : t + (c.temps + b.temps) ≤ f.unit.temps := h.temps
  refine .of_computes hnames h.lowerable.1 (by omega) h.literals.left h.code.left.left h.agrees
    (fun g hg => by rw [execute_ifThen, hg]) fun v s' hv hcounter hret hagrees hvalue => ?_
  have hbranch := h.code.left.right.head
  have hbody := h.code.left.right.tail
  have hlabel := h.code.right.head
  have hquiet := h.quiet
  rw [← hcounter] at hbranch hbody
  have hdone : s.counter + (c.code t ++ branchInstruction (c.operand t) (l + 1)
      "skip the THEN branch when false" :: b.code (t + c.temps) (l + 2)).length =
      s'.counter + 1 + (b.code (t + c.temps) (l + 2)).length := by
    rw [hcounter, List.length_append, List.length_cons]
    omega
  rw [hdone] at hlabel
  rw [code, List.length_append, ← Nat.add_assoc, hdone] at hquiet
  have hquiet' := (FlatMachine.quiet_label hlabel).trans hquiet
  have hagrees' := hagrees.remarked v.conditionRemark? span
  have hstate' : (m.remarked v.conditionRemark? span).state = .running := by
    rw [m.remarked_eq]
    exact h.running
  have hreturns' : (m.remarked v.conditionRemark? span).stack.ret = none → s'.returns = [] := by
    rw [m.remarked_eq]
    exact fun hnone => hret.trans (h.returns hnone)
  have hstep := FlatMachine.step_branch hbranch hvalue
  rw [execute_ifThen, hv]
  dsimp only
  split
  next htrue =>
    rw [if_pos htrue] at hstep
    have hready : Ready f known b (t + c.temps) (l + 2) stop
        (m.remarked v.conditionRemark? span) s'.advance :=
      ⟨h.lowerable.2, by omega, h.literals.right, hbody, hquiet', hagrees'.goto _, hstate',
        hreturns'⟩
    exact (ih _ _ _ _ _ hready).of_steps (.one hstep) rfl
  next hfalse =>
    rw [if_neg hfalse, FlatMachine.jump_eq hnodup hlabel] at hstep
    exact .of_step hstep hquiet' rfl (hagrees'.goto _) hstate'

lemma followed_ifThenElse (hnames : f.Names known)
    (hnodup : (f.unit.code.toList.filterMap Instruction.defines?).Nodup) {c : Expr}
    {a b : Statement} (span : Span) (iha : Followed f known a) (ihb : Followed f known b) :
    Followed f known (.ifThenElse c a b span) := by
  intro t l stop m s h
  have htotal : t + (c.temps + a.temps + b.temps) ≤ f.unit.temps := h.temps
  refine .of_computes hnames h.lowerable.1 (by omega) h.literals.left.left h.code.left.left.left
    h.agrees (fun g hg => by rw [execute_ifThenElse, hg])
    fun v s' hv hcounter hret hagrees hvalue => ?_
  have hbranch := h.code.left.left.right.head
  have hfirst := h.code.left.left.right.tail
  have hskip := h.code.left.right.head
  have helse := h.code.left.right.tail.head
  have hsecond := h.code.left.right.tail.tail
  have hlabel := h.code.right.head
  have hquiet := h.quiet
  rw [← hcounter] at hbranch hfirst
  have hmiddle : s.counter + (c.code t ++ branchInstruction (c.operand t) (l + 2)
      "skip to ELSE when false" :: a.code (t + c.temps) (l + 3)).length =
      s'.counter + 1 + (a.code (t + c.temps) (l + 3)).length := by
    rw [hcounter, List.length_append, List.length_cons]
    omega
  rw [hmiddle] at hskip helse hsecond
  rw [List.length_append, List.length_cons, List.length_cons, ← Nat.add_assoc, hmiddle] at hlabel
  rw [code, List.length_append, List.length_append, List.length_cons, List.length_cons,
    ← Nat.add_assoc, ← Nat.add_assoc, hmiddle] at hquiet
  have hdone (k n : Nat) : k + (n + 1 + 1) = k + 1 + 1 + n := by omega
  rw [hdone] at hlabel hquiet
  have hquiet' := (FlatMachine.quiet_label hlabel).trans hquiet
  have hagrees' := hagrees.remarked v.conditionRemark? span
  have hstate' : (m.remarked v.conditionRemark? span).state = .running := by
    rw [m.remarked_eq]
    exact h.running
  have hreturns' : (m.remarked v.conditionRemark? span).stack.ret = none → s'.returns = [] := by
    rw [m.remarked_eq]
    exact fun hnone => hret.trans (h.returns hnone)
  have hstep := FlatMachine.step_branch hbranch hvalue
  rw [execute_ifThenElse, hv]
  dsimp only
  split
  next htrue =>
    -- after the first branch, the second one is jumped over
    rw [if_pos htrue] at hstep
    have hover := (FlatMachine.quiet_skip hnodup hskip hlabel).trans hquiet'
    have hready : Ready f known a (t + c.temps) (l + 3) stop
        (m.remarked v.conditionRemark? span) s'.advance :=
      ⟨h.lowerable.2.1, by omega, h.literals.left.right, hfirst, hover, hagrees'.goto _, hstate',
        hreturns'⟩
    exact (iha _ _ _ _ _ hready).of_steps (.one hstep) rfl
  next hfalse =>
    rw [if_neg hfalse, FlatMachine.jump_eq hnodup helse] at hstep
    have hafter := FlatMachine.step_eq (s := s'.goto _) helse
    have hready : Ready f known b (t + c.temps + a.temps) (l + 3 + a.labels) stop
        (m.remarked v.conditionRemark? span) (s'.goto _).advance :=
      ⟨h.lowerable.2.2, by omega, h.literals.right, hsecond, hquiet', (hagrees'.goto _).goto _,
        hstate', hreturns'⟩
    exact (ihb _ _ _ _ _ hready).of_steps ((FlatMachine.Steps.one hstep).trans (.one hafter)) rfl

lemma followed_goto (hnames : f.Names known) (e : Expr) (span : Span) :
    Followed f known (.goto e span) := by
  intro t l stop m s h
  refine .of_target hnames h.lowerable h.temps h.literals h.code h.agrees (fun s' => rfl)
    (fun g hg => by rw [execute_goto, hg]) fun line s' hline hcounter hret hagrees hstep => ?_
  rw [execute_goto, hline]
  dsimp only
  split
  next hnegative =>
    rw [FlatMachine.enterLine_of_neg hnegative] at hstep
    exact .fails rfl (.of_step hstep) hagrees
  next => exact .jumps (.refl s') rfl (hagrees.moved _ _ _) h.running hstep

lemma followed_gosub (hnames : f.Names known) (e : Expr) (span : Span) :
    Followed f known (.gosub e span) := by
  intro t l stop m s h
  refine .of_target hnames h.lowerable h.temps h.literals h.code h.agrees (fun s' => rfl)
    (fun g hg => by rw [execute_gosub, hg]) fun line s' hline hcounter hret hagrees hstep => ?_
  have hquiet := h.quiet
  rw [code, List.length_append, ← Nat.add_assoc, ← hcounter] at hquiet
  rw [execute_gosub, hline]
  dsimp only
  rw [m.remarked_eq]
  exact .calls (.refl s') rfl (hagrees.moved _ _ _) h.running hquiet hstep

lemma followed_ret (span : Span) : Followed f known (.ret span) := by
  intro t l stop m s h
  rw [execute_ret]
  cases hret : m.stack.ret with
  | some stack => exact .returns (.refl s) rfl (h.agrees.moved _ _ _) h.running h.code.head
  | none =>
    have hstep : f.step s = .failed .nothingToReturnTo s := by
      rw [FlatMachine.step_ret h.code.head, h.returns hret]
    exact .fails rfl (.of_step hstep) h.agrees

lemma followed_input (names : List String) (span : Span) :
    Followed f known (.input names span) := by
  intro t l stop m s h
  have hquiet := h.quiet
  rw [code, List.length_map] at hquiet
  rw [execute_input]
  exact FlatMachine.follows_readInto h.code hquiet h.lowerable.1 h.agrees h.running

lemma followed_halt (span : Span) : Followed f known (.halt span) := by
  intro t l stop m s h
  have hstep : f.step s = .done s := FlatMachine.step_eq h.code.head
  rw [execute_halt]
  exact .halts (.of_step hstep) (h.agrees.moved _ _ _) rfl

/-- The code of every statement does what executing the statement does. -/
theorem followed (hnames : f.Names known)
    (hnodup : (f.unit.code.toList.filterMap Instruction.defines?).Nodup) (st : Statement) :
    Followed f known st := by
  induction st with
  | assign name e span => exact followed_assign hnames name e span
  | print item span => exact followed_print hnames item span
  | ifThen c b span ih => exact followed_ifThen hnames hnodup span ih
  | ifThenElse c a b span iha ihb => exact followed_ifThenElse hnames hnodup span iha ihb
  | goto e span => exact followed_goto hnames e span
  | gosub e span => exact followed_gosub hnames e span
  | ret span => exact followed_ret span
  | input names span => exact followed_input names span
  | halt span => exact followed_halt span

end Statement

end LineBasic
