import LineBasic.Check
import LineBasic.Proofs.Machine.Effects
import LineBasic.Proofs.Machine.Stages
import LineBasic.Proofs.Reading.Source

/-!
# Checked programs

A program in which the check finds no error reads no unknown name and jumps to no missing line,
except by a jump whose target it computes.

* `Expr.fault_of_checked`: a checked expression can only fail in an operator;
* `Statement.fault_of_checked`, `Machine.lineAt?_of_checked`: what a checked statement can fail
  with, and the line that it leaves the machine at;
* `Machine.trace`: the statements that a run executes;
* `Program.check_sound`: what a run of a checked program cannot fail with.
-/

namespace LineBasic

/-- The faults that a check is about: unknown names and missing lines. -/
def Fault.isCheckable : Fault → Bool
  | .undefinedIdentifier _ => true
  | .lineNotFound _ => true
  | .noStatement _ => true
  | _ => false

/-- A jump or call whose target is not a number in the text of the program. -/
def Statement.IsComputedJump (s : Statement) : Prop :=
  ∃ target span, (s = .goto target span ∨ s = .gosub target span) ∧ target.constant? = none

/-! ### Expressions -/

namespace Expr

lemma problems_binary {known : List String} {op : BinaryOp} {l r : Expr} {span : Span} :
    (Expr.binary op l r span).problems known = l.problems known ++ r.problems known := by
  simp [problems, reads]

/-- A checked expression can only fail in an operator. -/
lemma fault_of_checked {known : List String} {symbols : Symbols} {e : Expr} {f : Fault}
    (hknown : ∀ name ∈ known, name ∈ symbols.names) (hchecked : e.problems known = [])
    (h : e.evaluate symbols = .error f) : ∃ cause, f = .operator cause := by
  induction e generalizing f with
  | ident name span =>
    have hname : name ∈ known := by simpa [problems, reads] using hchecked
    rw [evaluate] at h
    cases hget : symbols.get? name with
    | none => exact absurd (hknown name hname) ((symbols.get?_eq_none_iff name).mp hget)
    | some v =>
      rw [hget] at h
      cases h
  | number x span => cases h
  | string s span => cases h
  | binary op l r span ihl ihr =>
    rw [problems_binary, List.append_eq_nil_iff] at hchecked
    rw [evaluate] at h
    cases hl : l.evaluate symbols with
    | error g =>
      rw [hl] at h
      cases h
      exact ihl hchecked.1 hl
    | ok a =>
      cases hr : r.evaluate symbols with
      | error g =>
        rw [hl, hr] at h
        cases h
        exact ihr hchecked.2 hr
      | ok b =>
        rw [hl, hr] at h
        dsimp only at h
        cases hop : Value.binary op a b with
        | error cause =>
          rw [hop] at h
          cases h
          exact ⟨cause, rfl⟩
        | ok v =>
          rw [hop] at h
          cases h

lemma isCheckable_of_target {known : List String} {symbols : Symbols} {e : Expr} {f : Fault}
    (hknown : ∀ name ∈ known, name ∈ symbols.names) (hchecked : e.problems known = [])
    (h : e.target symbols = .error f) : f.isCheckable = false := by
  rw [target] at h
  cases he : e.evaluate symbols with
  | error g =>
    rw [he] at h
    cases h
    obtain ⟨cause, rfl⟩ := fault_of_checked hknown hchecked he
    rfl
  | ok v =>
    rw [he] at h
    cases v with
    | number x => cases h
    | string s => cases h; rfl
    | boolean b => cases h; rfl
    | unset => cases h; rfl

end Expr

lemma Exec.isCheckable_of_readInto {names : List String} {m m' : Machine} {f : Fault}
    (h : Exec.readInto names m = .error f m') : f.isCheckable = false := by
  induction names generalizing m with
  | nil => cases h
  | cons name names ih =>
    rw [readInto, bind_eq] at h
    cases hread : readValue m with
    | ok v m₁ =>
      rw [hread] at h
      exact ih h
    | error g m₁ =>
      rw [hread] at h
      cases h
      have hreads := readsValue m
      rw [hread] at hreads
      cases hreads with
      | refused => rfl
      | fails => rfl

/-! ### Jump targets -/

lemma Expr.target_of_constant? {e : Expr} {x : Number} (h : e.constant? = some x)
    (symbols : Symbols) : e.target symbols = .ok x.toLine := by
  cases e with
  | number y span =>
    cases h
    rfl
  | ident name span => cases h
  | string s span => cases h
  | binary op l r span => cases h

namespace Program

/-- A number in range that names a line leads to it. -/
lemma lineAt?_of_hasTarget {p : Program} {x : Number} (h : p.hasTarget x = true) :
    0 ≤ x.toLine ∧ ∃ l, p.lineAt? x.toLine = some l := by
  rw [hasTarget, Bool.and_eq_true, Bool.and_eq_true] at h
  obtain ⟨⟨hzero, hmax⟩, hsome⟩ := h
  obtain ⟨hline, hnonneg, hle⟩ := Number.toLine_of_inRange hzero hmax
  obtain ⟨l, hl⟩ := Option.isSome_iff_exists.mp hsome
  refine ⟨hline ▸ hnonneg, l, ?_⟩
  rw [lineAt?, hline, lineIndex?, if_pos ⟨hnonneg, hle⟩]
  exact hl

/-- A target without problems reads known names, and a fixed one is there. -/
lemma targetProblems_eq_nil {p : Program} {known : List String} {target : Expr}
    (h : p.targetProblems known target = []) :
    target.problems known = [] ∧ ∀ x, target.constant? = some x → p.hasTarget x = true := by
  rw [targetProblems, List.append_eq_nil_iff] at h
  refine ⟨h.1, fun x hx => ?_⟩
  have hproblem := h.2
  rw [hx] at hproblem
  simpa using hproblem

/-- A target without problems leads to a line that is there, unless it is computed. -/
lemma lineAt?_of_target {p : Program} {known : List String} {target : Expr} {symbols : Symbols}
    {line : Int} (h : p.targetProblems known target = [])
    (hline : target.target symbols = .ok line) :
    (0 ≤ line ∧ ∃ l, p.lineAt? line = some l) ∨ target.constant? = none := by
  cases hconst : target.constant? with
  | none => exact .inr rfl
  | some x =>
    rw [Expr.target_of_constant? hconst] at hline
    cases hline
    exact .inl (lineAt?_of_hasTarget ((targetProblems_eq_nil h).2 x hconst))

/-- A line of a program is found at its number, if that is in range. -/
lemma lineAt?_of_le {p : Program} {l : Line} (hle : l.number ≤ maxLineNumber)
    (hl : l ∈ p.lines) : ∃ l', p.lineAt? (l.number : Int) = some l' := by
  rw [lineAt?, lineIndex?_natCast hle]
  cases hget : p.get? l.number with
  | none => exact absurd (List.mem_map_of_mem hl) (get?_eq_none_iff.mp hget)
  | some l' => exact ⟨l', hget⟩

/-- A line of a program whose numbers are in range is found at its number. -/
lemma lineAt?_of_mem {p : Program} (hp : p.FromText) {l : Line} (hl : l ∈ p.lines) :
    ∃ l', p.lineAt? (l.number : Int) = some l' :=
  lineAt?_of_le (hp l hl).le_max hl

lemma mem_of_next? {p : Program} {n k : Nat} (h : p.next? n = some k) :
    ∃ l ∈ p.lines, l.number = k := by
  obtain ⟨l, hl, rfl⟩ := Option.map_eq_some_iff.mp h
  exact ⟨l, List.mem_of_find?_eq_some hl, rfl⟩

lemma mem_of_first? {p : Program} {k : Nat} (h : p.first? = some k) :
    ∃ l ∈ p.lines, l.number = k := by
  obtain ⟨l, hl, rfl⟩ := Option.map_eq_some_iff.mp h
  exact ⟨l, List.mem_of_head? hl, rfl⟩

end Program

/-! ### Statements -/

namespace Statement

variable {p : Program} {known : List String} {s : Statement} {m m' : Machine} {f : Fault}

/-- A branch of a checked conditional is checked. -/
lemma Takes.problems {symbols : Symbols} {v : Value} {t : Statement}
    (h : s.Takes symbols v t) (hs : s.problems p known = []) : t.problems p known = [] := by
  cases h with
  | only =>
    rw [Statement.problems, List.append_eq_nil_iff] at hs
    exact hs.2
  | first =>
    rw [Statement.problems, List.append_eq_nil_iff, List.append_eq_nil_iff] at hs
    exact hs.1.2
  | second =>
    rw [Statement.problems, List.append_eq_nil_iff] at hs
    exact hs.2

/-- What is reached in a checked statement is checked. -/
lemma problems_reached (h : s.problems p known = []) (symbols : Symbols) :
    (s.reached symbols).problems p known = [] :=
  reached_of_takes (fun htakes hs => htakes.problems hs) h

/-- How a checked statement can fail before it does anything. -/
lemma Fails.fault_of_checked (h : s.Fails m f) (hknown : ∀ name ∈ known, name ∈ m.symbols.names)
    (hchecked : s.problems p known = []) :
    f.isCheckable = false ∨
      (∃ n, f = .lineNotFound n) ∧ (s.reached m.symbols).IsComputedJump := by
  have hexpr {e : Expr} {g : Fault} (he : e.problems known = [])
      (hg : e.evaluate m.symbols = .error g) : g.isCheckable = false := by
    obtain ⟨cause, rfl⟩ := Expr.fault_of_checked hknown he hg
    rfl
  cases h with
  | assign he => exact .inl (hexpr hchecked he)
  | print he => exact .inl (hexpr (by simpa [problems] using hchecked) he)
  | ifThen hc =>
    rw [problems, List.append_eq_nil_iff] at hchecked
    exact .inl (hexpr hchecked.1 hc)
  | ifThenElse hc =>
    rw [problems, List.append_eq_nil_iff, List.append_eq_nil_iff] at hchecked
    exact .inl (hexpr hchecked.1.1 hc)
  | goto htarget =>
    have hnames := (Program.targetProblems_eq_nil hchecked).1
    exact .inl (Expr.isCheckable_of_target hknown hnames htarget)
  | gosub htarget =>
    have hnames := (Program.targetProblems_eq_nil hchecked).1
    exact .inl (Expr.isCheckable_of_target hknown hnames htarget)
  | @below target span line htarget hneg =>
    -- a fixed target is not below zero
    rcases Program.lineAt?_of_target hchecked htarget with ⟨hnonneg, -⟩ | hcomputed
    · omega
    · exact .inr ⟨⟨line, rfl⟩, target, span, .inl rfl, hcomputed⟩
  | ret => exact .inl rfl

lemma Executes.fault_of_checked {ws : List Write} {es : List Entry} {r : Outcome}
    (h : Executes s m ws es r) (hr : r = .error f m')
    (hknown : ∀ name ∈ known, name ∈ m.symbols.names) (hchecked : s.problems p known = []) :
    f.isCheckable = false ∨
      (∃ n, f = .lineNotFound n) ∧ (s.reached m.symbols).IsComputedJump := by
  induction h with
  | fails hfails =>
    cases hr
    exact hfails.fault_of_checked hknown hchecked
  | refused =>
    cases hr
    exact .inl rfl
  | branches htakes _ ih =>
    simpa [htakes.reached] using ih hr (by simpa using hknown) (htakes.problems hchecked)
  | readFails hread =>
    cases hr
    exact .inl (Exec.isCheckable_of_readInto hread)
  | _ => cases hr

/-- A checked statement fails with no fault that the check is about, except that a computed jump
may miss its line. -/
lemma fault_of_checked (hknown : ∀ name ∈ known, name ∈ m.symbols.names)
    (hchecked : s.problems p known = []) (h : s.execute m = .error f m') :
    f.isCheckable = false ∨
      (∃ n, f = .lineNotFound n) ∧ (s.reached m.symbols).IsComputedJump :=
  (s.executes m).fault_of_checked h hknown hchecked

end Statement

/-! ### Runs -/

/-- A program from a text in which the check finds no error. -/
structure Program.Checked (p : Program) : Prop where
  fromText : p.FromText
  problems : ∀ l ∈ p.lines, l.statement.problems p p.assigned = []

namespace Machine

variable {p : Program}

/-- Every variable that the program assigns is declared. -/
def Declares (p : Program) (m : Machine) : Prop := ∀ name ∈ p.assigned, name ∈ m.symbols.names

/-- The statement that the next step executes, through all conditionals, if its line is there. -/
def reached? (p : Program) (m : Machine) : Option Statement :=
  (p.lineAt? m.stack.line).map fun l => l.statement.reached m.symbols

/-- A step keeps every variable of the program declared. -/
lemma declares_step {m : Machine} (h : m.Declares p) : (m.step p).machine.Declares p := by
  intro name hname
  cases hl : p.lineAt? m.stack.line with
  | none =>
    rw [step, hl]
    exact h name hname
  | some l =>
    obtain ⟨line, state, hm⟩ := machine_step hl
    rw [hm]
    exact (l.statement.names_execute m).mem (h name hname)

/-- Advancing leads to a line that is there. -/
lemma lineAt?_of_advance (hp : p.FromText) {n : Nat} {m m' : Machine}
    (h : m.advance p n = .next m') : ∃ l, p.lineAt? m'.stack.line = some l := by
  obtain ⟨k, hnext, rfl⟩ := advance_eq_next h
  obtain ⟨l, hl, rfl⟩ := Program.mem_of_next? hnext
  exact Program.lineAt?_of_mem hp hl

/-- A step of a checked program that does not end the run leads to a line that is there, unless it
is a computed jump. -/
lemma lineAt?_of_checked (hp : p.Checked) {m m' : Machine} {l : Line}
    (hl : p.lineAt? m.stack.line = some l) (hstep : m.step p = .next m') :
    (∃ l', p.lineAt? m'.stack.line = some l') ∨
      (l.statement.reached m.symbols).IsComputedJump := by
  have hchecked := Statement.problems_reached
    (hp.problems l (Program.lineAt?_eq_some hl).1) m.symbols
  have hmoves := l.statement.moves m
  rw [step_of_lineAt? hl] at hstep
  generalize l.statement.execute m = outcome at hmoves hstep
  cases hmoves with
  | fails f m₁ hstack => cases hstep
  | goesOn m₁ hstack =>
    obtain ⟨-, ⟨hflow, -⟩ | ⟨-, k, hadvance⟩⟩ := follow_eq_next hstep
    · simp at hflow
    · exact .inl (lineAt?_of_advance hp.fromText hadvance)
  | jumps target span line m₁ hgoto hline hstack =>
    obtain ⟨-, ⟨-, rfl⟩ | ⟨hflow, -⟩⟩ := follow_eq_next hstep
    · rw [hgoto] at hchecked
      rcases Program.lineAt?_of_target hchecked hline with ⟨-, l', hl'⟩ | hcomputed
      · exact .inl ⟨l', by rw [hstack]; exact hl'⟩
      · exact .inr ⟨target, span, .inl hgoto, hcomputed⟩
    · simp at hflow
  | calls target span line m₁ hgosub hline hstack =>
    obtain ⟨-, ⟨-, rfl⟩ | ⟨hflow, -⟩⟩ := follow_eq_next hstep
    · rw [hgosub] at hchecked
      rcases Program.lineAt?_of_target hchecked hline with ⟨-, l', hl'⟩ | hcomputed
      · exact .inl ⟨l', by rw [hstack]; exact hl'⟩
      · exact .inr ⟨target, span, .inr hgosub, hcomputed⟩
    · simp at hflow
  | returns span m₁ hret hstack hstate =>
    obtain ⟨-, ⟨hflow, -⟩ | ⟨-, k, hadvance⟩⟩ := follow_eq_next hstep
    · simp at hflow
    · exact .inl (lineAt?_of_advance hp.fromText hadvance)

/-- The statements that a run from the first line executes within `fuel` steps, in order. -/
def trace (p : Program) (fuel : Nat) (m : Machine) : List Statement :=
  (m.stages p fuel).filterMap (reached? p)

/-- What a run of a checked program can fail with. Here `before` has the statements executed so far:
either the machine is at a line that is there, or the last of them is a computed jump. -/
lemma resume_checked (hp : p.Checked) {fuel : Nat} {m m' : Machine} {f : Failure}
    (before : List Statement) (hdeclares : m.Declares p)
    (hline : (∃ l, p.lineAt? m.stack.line = some l) ∨
      ∃ s, before.getLast? = some s ∧ s.IsComputedJump)
    (hrun : m.resume p fuel = .ended (.error f) m') :
    f.fault.isCheckable = false ∨
      (∃ n, f.fault = .lineNotFound n ∨ f.fault = .noStatement n) ∧
        ∃ s, (before ++ (m.resumeStages p fuel).filterMap (reached? p)).getLast? = some s ∧
          s.IsComputedJump := by
  induction fuel generalizing m before with
  | zero => cases hrun
  | succ fuel ih =>
    rw [resume] at hrun
    cases hl : p.lineAt? m.stack.line with
    | none =>
      -- the fault of a missing line: what led there was executed before
      have hstep : m.step p = .failed ⟨.noStatement m.stack.line, some m.stack.line, none⟩ m := by
        rw [step, hl]
      have hnothing : m.reached? p = none := by rw [reached?, hl]; rfl
      rw [hstep] at hrun
      cases hrun
      rw [resumeStages_of_end (by simp [hstep]), List.filterMap_cons_none hnothing]
      obtain ⟨s, hs, hjump⟩ := hline.resolve_left (by simp [hl])
      exact .inr ⟨⟨_, .inr rfl⟩, s, by simpa using hs, hjump⟩
    | some l =>
      have hreached : m.reached? p = some (l.statement.reached m.symbols) := by
        rw [reached?, hl]
        rfl
      have hchecked := hp.problems l (Program.lineAt?_eq_some hl).1
      have hnames := declares_step hdeclares
      cases hstep : m.step p with
      | next m₁ =>
        rw [hstep] at hrun hnames
        have hline₁ : (∃ l, p.lineAt? m₁.stack.line = some l) ∨
            ∃ s, (before ++ [l.statement.reached m.symbols]).getLast? = some s ∧
              s.IsComputedJump := by
          rcases lineAt?_of_checked hp hl hstep with hthere | hjump
          · exact .inl hthere
          · exact .inr ⟨_, by simp, hjump⟩
        rw [resumeStages_of_next hstep, List.filterMap_cons_some hreached]
        simpa using ih (m := m₁) _ hnames hline₁ hrun
      | done m₁ =>
        rw [hstep] at hrun
        obtain ⟨cause, -, rfl⟩ := exists_of_finish hrun
        exact .inl rfl
      | failed g m₁ =>
        rw [hstep] at hrun
        cases hrun
        obtain ⟨fault, hexecute, rfl⟩ := step_eq_failed hl hstep
        rw [resumeStages_of_end (by simp [hstep]), List.filterMap_cons_some hreached]
        rcases Statement.fault_of_checked hdeclares hchecked hexecute with
          hfault | ⟨⟨n, hn⟩, hjump⟩
        · exact .inl hfault
        · exact .inr ⟨⟨n, .inl hn⟩, _, by simp, hjump⟩

end Machine

namespace Program

lemma checked_of_hasErrors {source : String} {p : Program} (hp : ofText source = .ok p)
    (h : p.check.hasErrors = false) : p.Checked := by
  refine ⟨fromText_of_ofText hp, ?_⟩
  have hproblems : p.problems = [] := by simpa [check, Report.hasErrors] using h
  exact List.flatMap_eq_nil_iff.mp hproblems

/-- The check is sound for runs. Take a program that was read from a text and in which the check
finds no error, and a run of it of any length that fails. It did not read an unknown name. If it
missed a line, then the last statement that it executed is a jump or call whose target is not a
literal. -/
theorem check_sound (source : String) (p : Program) (hp : ofText source = .ok p)
    (hcheck : p.check.hasErrors = false) (m₀ m : Machine) (fuel : Nat) (f : Failure)
    (hrun : m₀.run p fuel = .ended (.error f) m) :
    (∀ name, f.fault ≠ .undefinedIdentifier name) ∧
      ((∃ n, f.fault = .lineNotFound n ∨ f.fault = .noStatement n) →
        ∃ s, (m₀.trace p fuel).getLast? = some s ∧ s.IsComputedJump) := by
  have hchecked := checked_of_hasErrors hp hcheck
  rw [Machine.run] at hrun
  rw [Machine.trace, Machine.stages]
  cases hfirst : p.first? with
  | none =>
    rw [hfirst] at hrun
    cases hrun
    simp
  | some first =>
    rw [hfirst] at hrun
    obtain ⟨l, hl, rfl⟩ := mem_of_first? hfirst
    have hdeclares : (m₀.reset p l.number).Declares p := fun name hname =>
      Symbols.mem_names_ofNames.mpr hname
    rcases Machine.resume_checked hchecked [] hdeclares
      (.inl (lineAt?_of_mem hchecked.fromText hl)) hrun with hfault | ⟨⟨n, hmissing⟩, hjump⟩
    · refine ⟨fun name hname => ?_, ?_⟩
      · rw [hname] at hfault
        cases hfault
      · rintro ⟨n, hn | hn⟩
        · rw [hn] at hfault
          cases hfault
        · rw [hn] at hfault
          cases hfault
    · refine ⟨fun name hname => ?_, fun _ => hjump⟩
      rcases hmissing with hn | hn
      · cases hn.symm.trans hname
      · cases hn.symm.trans hname

/-- A program that jumps to a line that it computes and that is not there. -/
def jumpingProgram : Program where
  lines :=
    [⟨1, .assign "A" (.number 2 ⟨4, 5⟩) ⟨2, 5⟩, ⟨0, 5⟩⟩,
     ⟨2, .ifThen (.ident "A" ⟨11, 12⟩)
        (.goto (.binary (.arith .add) (.ident "A" ⟨23, 24⟩) (.number 1 ⟨25, 26⟩) ⟨23, 26⟩) ⟨18, 26⟩)
        ⟨8, 26⟩, ⟨6, 26⟩⟩]
  ascending := by decide

/-- The check passes `jumpingProgram`, and its run fails after a computed jump. -/
theorem jumpingProgram_check_sound :
    let m₀ := Machine.start Machine.defaultPrompt .empty .unlimited
    ofText "1 A=2\n2 IF A THEN GOTO A+1" = .ok jumpingProgram ∧
      jumpingProgram.check.hasErrors = false ∧
      ∃ m f, m₀.run jumpingProgram 5 = .ended (.error f) m ∧ f.fault = .noStatement 3 ∧
        ∃ s, (m₀.trace jumpingProgram 5).getLast? = some s ∧ s.IsComputedJump := by
  intro m₀
  have hp : ofText "1 A=2\n2 IF A THEN GOTO A+1" = .ok jumpingProgram :=
    eq_ok_of_lines (by decide +kernel)
  have hcheck : jumpingProgram.check.hasErrors = false := by decide +kernel
  have hrun : ∃ m f, m₀.run jumpingProgram 5 = .ended (.error f) m ∧ f.fault = .noStatement 3 :=
    ⟨_, _, rfl, rfl⟩
  obtain ⟨m, f, hended, hfault⟩ := hrun
  have hsound := check_sound _ _ hp hcheck m₀ m 5 f hended
  exact ⟨hp, hcheck, m, f, hended, hfault, hsound.2 ⟨3, .inr hfault⟩⟩

end Program

end LineBasic
