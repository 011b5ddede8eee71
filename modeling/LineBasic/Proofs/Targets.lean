import LineBasic.Proofs.Check

/-!
# Fixed jump targets

A check looks up the fixed target of a jump, and a run goes there.  Both cut the number to a whole
one, but the check first asks that the number is in the range of line numbers.

* `Program.hasTarget_iff`: the check finds a target if it is in range and a run finds it;
* `Program.undefinedLine_mem_errors`: the check reports a target that it does not find;
* `Machine.Arrives`, `Machine.arrives_iff`: the next step of a run leads to a line, and when it does
  so by a jump to a fixed target;
* `Program.check_target_iff`: when the check reports a target, and when a run comes to no line;
* `Program.edgeProgram_reported_and_reached`: a target that is reported although a run gets there.
-/

namespace LineBasic

/-! ### What a check says about fixed targets -/

/-- The target of a jump or call. -/
def Statement.jumpTarget? : Statement → Option Expr
  | .goto target _ => some target
  | .gosub target _ => some target
  | _ => none

lemma Expr.undefinedLine_not_mem_problems (e : Expr) (known : List String) (x : Number)
    (span : Span) : ⟨.undefinedLine x, span⟩ ∉ e.problems known := by
  intro h
  obtain ⟨⟨name, s⟩, -, h⟩ := List.mem_filterMap.mp h
  dsimp only at h
  split at h <;> cases h

namespace Program

variable {p : Program} {x : Number} {span : Span} {known : List String}

lemma undefinedLine_mem_targetProblems {target : Expr} :
    ⟨.undefinedLine x, span⟩ ∈ p.targetProblems known target ↔
      target.constant? = some x ∧ target.span = span ∧ p.hasTarget x = false := by
  have hnames := target.undefinedLine_not_mem_problems known x span
  rw [targetProblems, List.mem_append, or_iff_right hnames]
  cases target.constant? with
  | none => simp
  | some y =>
    dsimp only
    split
    next hthere =>
      constructor
      · intro h
        cases h
      · rintro ⟨hy, -, hmissing⟩
        cases hy
        rw [hthere] at hmissing
        cases hmissing
    next hmissing =>
      rw [Bool.not_eq_true] at hmissing
      constructor
      · intro h
        cases List.mem_singleton.mp h
        exact ⟨rfl, rfl, hmissing⟩
      · rintro ⟨hy, rfl, -⟩
        cases hy
        exact List.mem_singleton_self _

end Program

/-- A statement has the finding for each jump inside it with a fixed target that is not there. -/
lemma Statement.undefinedLine_mem_problems {p : Program} {x : Number} {span : Span}
    {known : List String} {s : Statement} :
    ⟨.undefinedLine x, span⟩ ∈ s.problems p known ↔
      ∃ a ∈ s.atoms, ∃ target, a.jumpTarget? = some target ∧ target.constant? = some x ∧
        target.span = span ∧ p.hasTarget x = false := by
  have hnames (e : Expr) := e.undefinedLine_not_mem_problems known x span
  induction s with
  | ifThen c t _ ih => simp only [problems, List.mem_append, hnames c, false_or, ih, atoms]
  | ifThenElse c t e _ iht ihe =>
    simp only [problems, List.mem_append, hnames c, false_or, iht, ihe, atoms, or_and_right,
      exists_or]
  | goto target _ => simp [problems, atoms, jumpTarget?, Program.undefinedLine_mem_targetProblems]
  | gosub target _ => simp [problems, atoms, jumpTarget?, Program.undefinedLine_mem_targetProblems]
  | assign _ e _ => simp [problems, atoms, jumpTarget?, hnames e]
  | print item _ => cases item <;> simp [problems, atoms, jumpTarget?, hnames]
  | _ => simp [problems, atoms, jumpTarget?]

namespace Program

variable {p : Program} {x : Number}

/-- The check looks for the line that a run goes to, but only for numbers in the range of line
numbers. -/
lemma hasTarget_iff :
    p.hasTarget x = true ↔ x.inLineRange = true ∧ ∃ l, p.lineAt? x.toLine = some l := by
  constructor
  · intro h
    refine ⟨?_, (lineAt?_of_hasTarget h).2⟩
    rw [hasTarget, Bool.and_eq_true] at h
    exact h.1
  · rintro ⟨hrange, l, hl⟩
    obtain ⟨hzero, hmax⟩ := Bool.and_eq_true_iff.mp hrange
    obtain ⟨hline, hnonneg, hle⟩ := Number.toLine_of_inRange hzero hmax
    rw [lineAt?, hline, lineIndex?, if_pos ⟨hnonneg, hle⟩] at hl
    have hget : p.get? x.wholePart.toNat = some l := hl
    rw [hasTarget, hzero, hmax, hget]
    rfl

/-- The check reports a fixed target that it does not find. -/
lemma undefinedLine_mem_errors {s : Statement} {target : Expr} (hs : s ∈ p.atoms)
    (hjump : s.jumpTarget? = some target) (hx : target.constant? = some x) :
    ⟨.undefinedLine x, target.span⟩ ∈ p.check.errors ↔ p.hasTarget x = false := by
  obtain ⟨l, hl, hatom⟩ := List.mem_flatMap.mp hs
  have herrors : p.check.errors = p.lines.flatMap fun l => l.statement.problems p p.assigned := rfl
  rw [herrors, List.mem_flatMap]
  constructor
  · rintro ⟨l', -, h⟩
    obtain ⟨-, -, -, -, -, -, hmissing⟩ := Statement.undefinedLine_mem_problems.mp h
    exact hmissing
  · intro hmissing
    exact ⟨l, hl, Statement.undefinedLine_mem_problems.mpr
      ⟨s, hatom, target, hjump, hx, rfl, hmissing⟩⟩

lemma inRange_of_lineAt? {line : Int} {l : Line} (h : p.lineAt? line = some l) :
    0 ≤ line ∧ line ≤ maxLineNumber := by
  rw [lineAt?, lineIndex?] at h
  split at h
  next hrange => exact hrange
  next => cases h

lemma lineAt?_of_neg {line : Int} (h : line < 0) : p.lineAt? line = none := by
  rw [lineAt?, lineIndex?, if_neg (by omega)]
  rfl

end Program

/-! ### Where a run goes -/

/-- A jump to a fixed target fails if the target is below zero, or it moves to the target. -/
lemma Statement.execute_jump {s : Statement} {target : Expr} {x : Number}
    (hjump : s.jumpTarget? = some target) (hx : target.constant? = some x) (m : Machine) :
    (x.toLine < 0 ∧ s.execute m = .error (.lineNotFound x.toLine) m) ∨
      ∃ flow m', (flow = .jump ∨ flow = .call) ∧ s.execute m = .ok flow m' ∧
        m'.stack.line = x.toLine ∧ m'.state = m.state := by
  have htarget := Expr.target_of_constant? hx m.symbols
  cases s with
  | goto e span =>
    cases hjump
    rw [execute_goto, htarget]
    by_cases hneg : x.toLine < 0
    · exact .inl ⟨hneg, if_pos hneg⟩
    · exact .inr ⟨.jump, _, .inl rfl, if_neg hneg, rfl, rfl⟩
  | gosub e span =>
    cases hjump
    rw [execute_gosub, htarget]
    refine .inr ⟨.call, _, .inr rfl, rfl, rfl, ?_⟩
    rw [Machine.remarked_eq]
  | _ => cases hjump

namespace Machine

/-- The next step of a run leads to a line of the program. -/
def Arrives (p : Program) (m : Machine) : Prop :=
  ∃ m' l, m.step p = .next m' ∧ p.lineAt? m'.stack.line = some l

variable {p : Program} {m : Machine} {l : Line} {target : Expr} {x : Number}

/-- A run that comes to a jump with a fixed target arrives if there is such a line. -/
lemma arrives_iff (hrun : m.state = .running) (hl : p.lineAt? m.stack.line = some l)
    (hjump : (l.statement.reached m.symbols).jumpTarget? = some target)
    (hx : target.constant? = some x) :
    m.Arrives p ↔ ∃ l', p.lineAt? x.toLine = some l' := by
  obtain ⟨warnings, hreached⟩ := l.statement.execute_reached m
  have hstep := step_of_lineAt? hl
  rw [hreached] at hstep
  rcases Statement.execute_jump hjump hx { m with warnings := warnings } with
    ⟨hneg, hexecute⟩ | ⟨flow, m', hflow, hexecute, hline, hstate⟩
  · rw [hexecute] at hstep
    constructor
    · rintro ⟨m', l', hnext, -⟩
      rw [hstep] at hnext
      cases hnext
    · rintro ⟨l', hl'⟩
      rw [Program.lineAt?_of_neg hneg] at hl'
      cases hl'
  · have hnext : m.step p = .next m' := by
      rw [hstep, hexecute]
      refine (follow_of_running (hstate.trans hrun) l.number flow).trans ?_
      rcases hflow with rfl | rfl <;> rfl
    constructor
    · rintro ⟨m'', l', hnext', hl'⟩
      cases hnext.symm.trans hnext'
      exact ⟨l', hline ▸ hl'⟩
    · rintro ⟨l', hl'⟩
      exact ⟨m', l', hnext, hline.symm ▸ hl'⟩

end Machine

namespace Program

/-- **Fixed jump targets.**  The check reports the fixed target of a jump exactly if a run that
executes the jump comes to no line, or if the number is outside the range of line numbers.  Such a
number can still lead to a line, when the cut to a whole number brings it to an end of the range. -/
theorem check_target_iff (p : Program) (s : Statement) (target : Expr) (x : Number)
    (hs : s ∈ p.atoms) (hjump : s.jumpTarget? = some target) (hx : target.constant? = some x) :
    (⟨.undefinedLine x, target.span⟩ ∈ p.check.errors ↔
      (x.toLine < 0 ∨ p.lineAt? x.toLine = none) ∨ x.inLineRange = false) ∧
    (∀ (m : Machine) (l : Line), m.state = .running → p.lineAt? m.stack.line = some l →
      l.statement.reached m.symbols = s →
        (¬ m.Arrives p ↔ x.toLine < 0 ∨ p.lineAt? x.toLine = none)) ∧
    (x.inLineRange = false → ∀ l, p.lineAt? x.toLine = some l →
      x.toLine = 0 ∨ x.toLine = maxLineNumber) := by
  have hmissing : (¬ ∃ l, p.lineAt? x.toLine = some l) ↔
      x.toLine < 0 ∨ p.lineAt? x.toLine = none := by
    rw [← Option.isSome_iff_exists, Option.not_isSome_iff_eq_none]
    exact ⟨.inr, fun h => h.elim lineAt?_of_neg id⟩
  refine ⟨?_, fun m l hrun hl hreached => ?_, fun hrange l hl => ?_⟩
  · rw [undefinedLine_mem_errors hs hjump hx, ← hmissing, ← Bool.not_eq_true, hasTarget_iff,
      Decidable.not_and_iff_not_or_not, Bool.not_eq_true, or_comm]
  · rw [Machine.arrives_iff hrun hl (hreached ▸ hjump) hx, hmissing]
  · obtain ⟨hnonneg, hmax⟩ := inRange_of_lineAt? hl
    exact Number.toLine_of_not_inLineRange hrange hnonneg hmax

/-- A program that jumps to line 20 by a number with a fraction. -/
def fractionProgram : Program where
  lines := [⟨10, .goto (.number 20.5 ⟨8, 12⟩) ⟨3, 12⟩, ⟨0, 12⟩⟩, ⟨20, .halt ⟨16, 19⟩, ⟨13, 19⟩⟩]
  ascending := by decide

/-- The jump of `fractionProgram` is not reported, and a run that executes it comes to line 20. -/
theorem fractionProgram_check_target :
    let p := fractionProgram
    let m := (Machine.start Machine.defaultPrompt .empty .unlimited).reset p 10
    ⟨.undefinedLine 20.5, ⟨8, 12⟩⟩ ∉ p.check.errors ∧ m.Arrives p := by
  intro p m
  obtain ⟨hreported, harrives, -⟩ := check_target_iff p
    (.goto (.number 20.5 ⟨8, 12⟩) ⟨3, 12⟩) (.number 20.5 ⟨8, 12⟩) 20.5 (by decide +kernel) rfl rfl
  have hline : Number.toLine 20.5 = 20 := by decide +kernel
  have hrange : Number.inLineRange 20.5 = true := by decide +kernel
  have hthere : ¬ (Number.toLine 20.5 < 0 ∨ p.lineAt? (Number.toLine 20.5) = none) := by
    rw [hline]
    decide
  refine ⟨fun h => ?_, ?_⟩
  · rcases hreported.mp h with hmissing | hout
    · exact hthere hmissing
    · rw [hrange] at hout
      cases hout
  · exact Classical.not_not.mp fun h => hthere ((harrives m _ rfl rfl rfl).mp h)

/-- The program of `10 GOTO 4294967295.5` and `4294967295 END`. -/
def edgeProgram : Program where
  lines :=
    [⟨10, .goto (.number 4294967295.5 ⟨8, 20⟩) ⟨3, 20⟩, ⟨0, 20⟩⟩,
     ⟨4294967295, .halt ⟨32, 35⟩, ⟨21, 35⟩⟩]
  ascending := by decide

/-- The check reports the target of `edgeProgram`, and a run of the program goes there and ends. -/
theorem edgeProgram_reported_and_reached :
    let p := edgeProgram
    let x : Number := 4294967295.5
    ofText "10 GOTO 4294967295.5\n4294967295 END\n" = .ok p ∧
      .goto (.number x ⟨8, 20⟩) ⟨3, 20⟩ ∈ p.atoms ∧
      ⟨.undefinedLine x, ⟨8, 20⟩⟩ ∈ p.check.errors ∧
      ¬ (x.toLine < 0 ∨ p.lineAt? x.toLine = none) ∧
      ∃ m, (Machine.start Machine.defaultPrompt .empty .unlimited).run p 2 = .ended (.ok ()) m := by
  intro p x
  have hline : x.toLine = 4294967295 := by decide +kernel
  have hmissing : p.hasTarget x = false := by decide +kernel
  have hatom : .goto (.number x ⟨8, 20⟩) ⟨3, 20⟩ ∈ p.atoms := by decide +kernel
  refine ⟨eq_ok_of_lines (by decide +kernel), hatom, ?_, ?_, ?_⟩
  · exact (undefinedLine_mem_errors hatom rfl rfl).mpr hmissing
  · rw [hline]
    decide
  · let m := (Machine.start Machine.defaultPrompt .empty .unlimited).reset p 10
    have hl : p.lineAt? m.stack.line = some ⟨10, .goto (.number x ⟨8, 20⟩) ⟨3, 20⟩, ⟨0, 20⟩⟩ := rfl
    have hstep : m.step p = .next { m with stack := m.stack.goto 4294967295 } := by
      rw [Machine.step_of_lineAt? hl, Statement.execute_goto, Expr.target_of_constant? rfl, hline]
      rfl
    have hrun : (Machine.start Machine.defaultPrompt .empty .unlimited).run p 2 =
        m.resume p 2 := rfl
    rw [hrun, Machine.resume, hstep]
    exact ⟨_, rfl⟩

end Program

end LineBasic
