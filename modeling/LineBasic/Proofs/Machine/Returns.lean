import LineBasic.Proofs.Machine.Brackets
import LineBasic.Proofs.Machine.Names
import LineBasic.Proofs.Machine.Outcome
import LineBasic.Proofs.Uses

/-!
# Returns without calls

The check warns of every `RETURN` of a program that has no `GOSUB`. In the runs of such a program no
frame is ever put on the call stack, so that each `RETURN` that is executed fails.

* `Statement.atoms_eq_filter_parts`: the check looks at all statements, those inside others
  included;
* `CallStack.FromCalls.depth_eq_one`: without a `GOSUB` there is one frame;
* `Machine.Passes.fromCalls`: all along a run, every frame below the current one comes from a
  `GOSUB`;
* `Program.returnWarnings_exact`: what the check says about calls and returns, and what runs do.
-/

namespace LineBasic

/-! ### Statements inside others -/

namespace Statement

/-- Whether a statement is a conditional. -/
def isConditional : Statement → Bool
  | .ifThen .. => true
  | .ifThenElse .. => true
  | _ => false

/-- The atoms of a statement are the statements in it that are no conditionals. -/
lemma atoms_eq_filter_parts (s : Statement) :
    s.atoms = s.parts.filter fun t => !t.isConditional := by
  induction s with
  | ifThen c t span ih => simpa [atoms, parts, isConditional] using ih
  | ifThenElse c t e span iht ihe => simp [atoms, parts, isConditional, iht, ihe]
  | _ => rfl

end Statement

namespace Program

/-- All statements of a program in their order, those inside others included. -/
def parts (p : Program) : List Statement := p.lines.flatMap fun l => l.statement.parts

lemma atoms_eq_filter_parts (p : Program) :
    p.atoms = p.parts.filter fun t => !t.isConditional := by
  rw [atoms, parts, List.filter_flatMap]
  exact congrArg p.lines.flatMap (funext fun l => l.statement.atoms_eq_filter_parts)

/-- The check finds a `GOSUB` wherever there is one. -/
lemma hasGosub_iff {p : Program} :
    p.hasGosub = true ↔ ∃ target span, .gosub target span ∈ p.parts := by
  rw [hasGosub, List.any_eq_true, atoms_eq_filter_parts]
  constructor
  · rintro ⟨s, hs, hgosub⟩
    cases s with
    | gosub target span => exact ⟨target, span, (List.mem_filter.mp hs).1⟩
    | _ => cases hgosub
  · rintro ⟨target, span, hmem⟩
    exact ⟨.gosub target span, List.mem_filter.mpr ⟨hmem, rfl⟩, rfl⟩

/-- The check finds every `RETURN`. -/
lemma filterMap_returnSpan?_atoms (p : Program) :
    p.atoms.filterMap Statement.returnSpan? = p.parts.filterMap Statement.returnSpan? := by
  rw [atoms_eq_filter_parts, List.filterMap_filter]
  refine congrArg (p.parts.filterMap ·) (funext fun s => ?_)
  cases s <;> rfl

end Program

/-! ### Stacks of one frame -/

/-- Without a `GOSUB` there is no frame that one could have put on the stack. -/
lemma CallStack.FromCalls.depth_eq_one {p : Program} {s : CallStack} (h : s.FromCalls p)
    (hnone : p.hasGosub = false) : s.depth = 1 := by
  cases hcallers : s.callers with
  | nil => rw [depth, hcallers, List.length_nil]
  | cons f fs =>
    obtain ⟨l, hl, hgosub⟩ := h f (hcallers ▸ List.mem_cons_self)
    obtain ⟨a, ha, hcall⟩ := List.any_eq_true.mp hgosub
    have hatom : a ∈ p.atoms := List.mem_flatMap.mpr ⟨l, (Program.lineAt?_eq_some hl).1, ha⟩
    have hany : p.hasGosub = true := List.any_eq_true.mpr ⟨a, hatom, hcall⟩
    rw [hnone] at hany
    cases hany

/-- All along a run, also in the middle of a statement, every frame below the current one is at a
line with a `GOSUB`. -/
lemma Machine.Passes.fromCalls {p : Program} {m₀ m : Machine} (h : m₀.Passes p m)
    (hlines : p.isEmpty = false) : m.stack.FromCalls p := by
  have hsteps (fuel : Nat) : (m₀.run p fuel).machine.stack.FromCalls p :=
    run_invariant (P := fun m => m.stack.FromCalls p) hlines
      (fun _ _ hf => absurd hf List.not_mem_nil) fromCalls_step (fun _ h => h) fuel
  cases h with
  | steps fuel => exact hsteps fuel
  | writing hw =>
    obtain ⟨k, m', l, hrun, -, hw⟩ := exists_of_mem_writes hw
    obtain ⟨_, _, _, _, hbefore, -⟩ := Statement.before_eq_of_mem_writes hw
    have hm' := hsteps k
    rw [hrun] at hm'
    rw [hbefore]
    exact hm'

namespace Program

/-- **Returns without calls.** The check says that a program has a `GOSUB` exactly if there is one
among its statements, inside conditionals or not. It then has no warnings. For a program without a
`GOSUB` there is one warning for each `RETURN`, in their order. There is one frame at every point of
a run of this program, also in the middle of a statement, and a run that executes a `RETURN` fails
in this step. A program without lines is not run at all. -/
theorem returnWarnings_exact (p : Program) (m₀ : Machine) :
    (p.check.hasGosub = true ↔ ∃ target span, .gosub target span ∈ p.parts) ∧
    (p.check.hasGosub = true → p.check.warnings = []) ∧
    (p.check.hasGosub = false →
      p.check.warnings = (p.parts.filterMap Statement.returnSpan?).map (⟨.returnWithoutGosub, ·⟩) ∧
      (p.isEmpty = false → ∀ m, m₀.Passes p m → m.stack.depth = 1) ∧
      (p.isEmpty = true → ∀ m, m₀.Passes p m → m = m₀) ∧
      ∀ k m l span, m₀.run p k = .unfinished m → p.lineAt? m.stack.line = some l →
        l.statement.reached m.symbols = .ret span →
        ∃ m', m₀.run p (k + 1) = .ended
          (.error ⟨.returnOutsideSub, some (l.number : Int), some l.statement.span⟩) m') := by
  have hcheck : p.check.hasGosub = p.hasGosub := rfl
  have hwarnings : p.check.warnings = p.returnWarnings := rfl
  rw [hcheck, hwarnings]
  refine ⟨hasGosub_iff, fun hsome => if_pos hsome, fun hnone => ?_⟩
  have hdepth (hlines : p.isEmpty = false) {m : Machine} (hm : m₀.Passes p m) :
      m.stack.depth = 1 := (hm.fromCalls hlines).depth_eq_one hnone
  refine ⟨?_, fun hlines m hm => hdepth hlines hm, fun hempty m hm => hm.eq_of_isEmpty hempty,
    fun k m l span hrun hl hret => ?_⟩
  · rw [returnWarnings, if_neg (by simp [hnone]), filterMap_returnSpan?_atoms]
  · have hframe := hdepth (Machine.isEmpty_of_unfinished hrun) (.of_unfinished hrun)
    obtain ⟨m', hstep, -⟩ := Machine.step_ret_of_depth_eq_one hl hret hframe
    refine ⟨m', ?_⟩
    rw [Machine.run_add hrun 1, Machine.resume, hstep, lineIndex?_eq_some (lineAt?_eq_some hl).2]

/-- A program with a `RETURN` in each branch of a conditional and no `GOSUB`. -/
def returningProgram : Program where
  lines :=
    [⟨10, .ifThenElse (.number 0 ⟨6, 7⟩) (.ret ⟨13, 19⟩) (.ret ⟨25, 31⟩) ⟨3, 31⟩, ⟨0, 31⟩⟩,
     ⟨20, .ret ⟨35, 41⟩, ⟨32, 41⟩⟩]
  ascending := by decide

/-- The check of `returningProgram` warns of three returns, and the run fails in its first line. -/
theorem returningProgram_returnWarnings :
    let p := returningProgram
    let m₀ := Machine.start Machine.defaultPrompt .empty .unlimited
    p.check.hasGosub = false ∧
      p.check.warnings.map Finding.span = [⟨13, 19⟩, ⟨25, 31⟩, ⟨35, 41⟩] ∧
      (m₀.reset p 10).stack.depth = 1 ∧
      ∃ m, m₀.run p 1 = .ended (.error ⟨.returnOutsideSub, some 10, some ⟨3, 31⟩⟩) m := by
  intro p m₀
  have hgosub : p.check.hasGosub = false := by decide
  obtain ⟨hwarnings, hdepth, -, hreturn⟩ := (returnWarnings_exact p m₀).2.2 hgosub
  obtain ⟨m, hrun⟩ := hreturn 0 (m₀.reset p 10) _ ⟨25, 31⟩ rfl rfl (by decide +kernel)
  refine ⟨hgosub, ?_, hdepth rfl _ (.steps 0), m, hrun⟩
  rw [hwarnings]
  decide

end Program

end LineBasic
