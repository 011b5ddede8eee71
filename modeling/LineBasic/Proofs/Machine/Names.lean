import LineBasic.Check
import LineBasic.Proofs.Machine.Writes

/-!
# The variables of a run

All variables of a program are declared before its first line is executed, and a run declares no
others. So the table of a run always lists the same names in the same order.

* `Statement.mem_assigned_iff`: what a statement assigns is what its parts assign;
* `Machine.Passes`: the machines that a run goes through, also in the middle of a statement;
* `Machine.lists_step`: a step changes no names;
* `Machine.run_keeps_names`: neither does a run, so that a name is undefined if and only if nothing
  assigns it.
-/

namespace LineBasic

/-! ### What a program assigns -/

/-- A statement assigns a name itself: it is a `LET` of the name or an `INPUT` with it. -/
def Statement.Assigns (name : String) : Statement → Prop
  | .assign x _ _ => x = name
  | .input names _ => name ∈ names
  | _ => False

/-- A statement can assign what is assigned inside it. -/
lemma Statement.mem_assigned_iff {s : Statement} {name : String} :
    name ∈ s.assigned ↔ ∃ a ∈ s.atoms, a.Assigns name := by
  induction s with
  | assign x e span => simp [assigned, atoms, Assigns, eq_comm]
  | input names span => simp [assigned, atoms, Assigns]
  | ifThen c t span ih => exact ih
  | ifThenElse c t e span iht ihe =>
    rw [assigned, atoms, List.mem_append, iht, ihe]
    simp only [List.mem_append, or_and_right, exists_or]
  | _ => simp [assigned, atoms, Assigns]

lemma nodup_eraseDups (names : List String) : names.eraseDups.Nodup := by
  cases names with
  | nil => exact List.nodup_nil
  | cons x names =>
    rw [List.eraseDups_cons, List.nodup_cons]
    exact ⟨by simp [List.mem_eraseDups], nodup_eraseDups _⟩
termination_by names.length
decreasing_by
  have hlength := List.length_filter_le (fun y => !y == x) names
  simp only [List.length_cons]
  omega

lemma Program.nodup_assigned (p : Program) : p.assigned.Nodup := nodup_eraseDups _

namespace Machine

variable {p : Program}

/-! ### Names along a run -/

/-- The machines that a run goes through: after each number of steps, be it at an end or not, and
before each piece of output is written. Between two of these a run changes at most one variable. -/
inductive Passes (p : Program) (m₀ : Machine) : Machine → Prop
  | steps (fuel : Nat) : Passes p m₀ (m₀.run p fuel).machine
  | writing {fuel : Nat} {w : Write} (h : w ∈ m₀.writes p fuel) : Passes p m₀ w.before

lemma Passes.of_unfinished {m₀ m : Machine} {k : Nat} (h : m₀.run p k = .unfinished m) :
    m₀.Passes p m := by
  have hsteps : m₀.Passes p (m₀.run p k).machine := .steps k
  rwa [h] at hsteps

/-- Without lines there is nothing to go through. -/
lemma Passes.eq_of_isEmpty {m₀ m : Machine} (h : m₀.Passes p m) (hempty : p.isEmpty = true) :
    m = m₀ := by
  cases h with
  | steps fuel =>
    rw [run_of_isEmpty hempty]
    rfl
  | writing hw =>
    obtain ⟨k, m', l, hrun, -, -⟩ := exists_of_mem_writes hw
    rw [isEmpty_of_unfinished hrun] at hempty
    cases hempty

/-- The variables of a machine are those that the program assigns. -/
def Lists (p : Program) (m : Machine) : Prop := m.symbols.names = p.assigned

lemma lists_reset (p : Program) (m : Machine) (first : Nat) : (m.reset p first).Lists p :=
  Symbols.names_ofNames p.nodup_assigned

/-- The variables of a statement of the program are all declared. -/
lemma Lists.mem_names {m : Machine} (h : m.Lists p) {l : Line} {line : Int}
    (hl : p.lineAt? line = some l) : ∀ name ∈ l.statement.assigned, name ∈ m.symbols.names := by
  intro name hname
  rw [h]
  exact Program.mem_assigned.mpr ⟨l, (Program.lineAt?_eq_some hl).1, hname⟩

/-- A step changes no names. -/
theorem lists_step (m : Machine) (h : m.Lists p) : (m.step p).machine.Lists p := by
  cases hl : p.lineAt? m.stack.line with
  | none =>
    rw [step, hl]
    exact h
  | some l =>
    have hnames := (l.statement.names_execute m).names_eq (h.mem_names hl)
    obtain ⟨line, state, hm⟩ := machine_step hl
    rw [hm]
    exact hnames.trans h

/-- A run changes no names, not even in the middle of a statement. -/
lemma Passes.lists {m₀ m : Machine} (h : m₀.Passes p m) (hlines : p.isEmpty = false) :
    m.Lists p := by
  have hsteps (fuel : Nat) : (m₀.run p fuel).machine.Lists p :=
    run_invariant hlines (lists_reset p m₀) lists_step (fun _ h => h) fuel
  cases h with
  | steps fuel => exact hsteps fuel
  | writing hw =>
    obtain ⟨k, m', l, hrun, hl, hw⟩ := exists_of_mem_writes hw
    obtain ⟨input, output, symbols, warnings, hbefore, hextends⟩ :=
      Statement.before_eq_of_mem_writes hw
    have hm' := hsteps k
    rw [hrun] at hm'
    rw [hbefore]
    exact (hextends.names_eq (hm'.mem_names hl)).trans hm'

/-- A run never changes the names of its variables. At every point of a run the table of variables
lists the names that the program assigns, in their order and each once; so does the table of the
check. So a name is undefined if and only if no `LET` and no `INPUT` of the program assigns it, be
it inside conditionals or not, whatever was executed before. -/
theorem run_keeps_names (p : Program) (hlines : p.isEmpty = false) (m₀ m : Machine)
    (hm : m₀.Passes p m) :
    m.symbols.names = p.assigned ∧ p.assigned.Nodup ∧ p.check.symbols.names = p.assigned ∧
      ∀ name span,
        (Expr.ident name span).evaluate m.symbols = .error (.undefinedIdentifier name) ↔
          ∀ l ∈ p.lines, ∀ s ∈ l.statement.atoms, ¬ s.Assigns name := by
  have hnames : m.symbols.names = p.assigned := hm.lists hlines
  refine ⟨hnames, p.nodup_assigned, Symbols.names_ofNames p.nodup_assigned, fun name span => ?_⟩
  have hundefined : (Expr.ident name span).evaluate m.symbols =
      .error (.undefinedIdentifier name) ↔ m.symbols.get? name = none := by
    rw [Expr.evaluate]
    cases m.symbols.get? name <;> simp
  calc (Expr.ident name span).evaluate m.symbols = .error (.undefinedIdentifier name)
      ↔ m.symbols.get? name = none := hundefined
    _ ↔ name ∉ p.assigned := by rw [Symbols.get?_eq_none_iff, hnames]
    _ ↔ ∀ l ∈ p.lines, ∀ s ∈ l.statement.atoms, ¬ s.Assigns name := by
      simp only [Program.mem_assigned, Statement.mem_assigned_iff, not_exists, not_and]

/-- A program with two variables, of which the second is read first. -/
def readingProgram : Program where
  lines :=
    [⟨1, .ifThenElse (.number 0 ⟨5, 6⟩) (.assign "A" (.number 1 ⟨18, 19⟩) ⟨16, 19⟩)
        (.input ["B", "A"] ⟨25, 34⟩) ⟨2, 34⟩, ⟨0, 34⟩⟩]
  ascending := by decide

/-- When `readingProgram` asks for its second value, its table lists `A`, which is not set, before
`B`, which is. The name `C` is undefined. -/
theorem readingProgram_run_keeps_names :
    let p := readingProgram
    let m₀ := Machine.start defaultPrompt "x\n".toUTF8.toList .unlimited
    p.isEmpty = false ∧ ∃ m, m₀.Passes p m ∧ m.symbols.get? "B" = some (.string "x") ∧
      m.symbols.names = ["A", "B"] ∧
      ∀ span, (Expr.ident "C" span).evaluate m.symbols = .error (.undefinedIdentifier "C") := by
  intro p m₀
  refine ⟨rfl, ?_⟩
  have hwrite : ∃ w ∈ m₀.writes p 1, w.before.symbols.get? "B" = some (.string "x") := by
    decide +kernel
  obtain ⟨w, hw, hB⟩ := hwrite
  obtain ⟨hnames, -, -, hundefined⟩ := run_keeps_names p rfl m₀ w.before (.writing hw)
  have hC : ∀ l ∈ p.lines, ∀ s ∈ l.statement.atoms, ¬ s.Assigns "C" := by
    simp [p, readingProgram, Statement.atoms, Statement.Assigns]
  exact ⟨w.before, .writing hw, hB, hnames, fun span => (hundefined "C" span).mpr hC⟩

end Machine

end LineBasic
