import LineBasic.Proofs.Machine.Run
import Mathlib.Data.List.Chain

/-!
# The stages of a run

A run as the list of the machines that it starts its steps with.

* `Machine.stages`: these machines, in order;
* `Machine.getElem?_stages`: the stage at a place of the list is what the run has come to then;
* `Machine.isChain_stages`: each stage leads to the next one;
* `Machine.executed`: the lines that a run executes, in order.
-/

namespace LineBasic.Machine

variable {p : Program}

/-! ### Stages -/

/-- The machines that a run starts its next `fuel` steps with. The list is shorter if the run
ends. -/
def resumeStages (p : Program) (fuel : Nat) (m : Machine) : List Machine :=
  match fuel with
  | 0 => []
  | fuel + 1 =>
    m :: match m.step p with
      | .next m' => m'.resumeStages p fuel
      | _ => []

/-- The machines that a run from the first line starts its first `fuel` steps with. -/
def stages (p : Program) (fuel : Nat) (m : Machine) : List Machine :=
  match p.first? with
  | none => []
  | some first => (m.reset p first).resumeStages p fuel

lemma stages_of_first? {first : Nat} (h : p.first? = some first) (m : Machine) (fuel : Nat) :
    m.stages p fuel = (m.reset p first).resumeStages p fuel := by
  rw [stages, h]

lemma resumeStages_of_next {m m' : Machine} (h : m.step p = .next m') (fuel : Nat) :
    m.resumeStages p (fuel + 1) = m :: m'.resumeStages p fuel := by
  rw [resumeStages, h]

lemma resumeStages_of_end {m : Machine} (h : ∀ m', m.step p ≠ .next m') (fuel : Nat) :
    m.resumeStages p (fuel + 1) = [m] := by
  rw [resumeStages]
  split
  next m' hnext => exact absurd hnext (h m')
  next => rfl

lemma getElem?_resumeStages {fuel k : Nat} {m m' : Machine} :
    (m.resumeStages p fuel)[k]? = some m' ↔ k < fuel ∧ m.resume p k = .unfinished m' := by
  induction fuel generalizing k m with
  | zero => simp [resumeStages]
  | succ fuel ih =>
    cases k with
    | zero => simp [resumeStages, resume]
    | succ k =>
      rw [resumeStages, List.getElem?_cons_succ, resume_succ_eq_unfinished, Nat.succ_lt_succ_iff]
      cases m.step p with
      | next m₁ => simp [ih]
      | done m₁ => simp
      | failed f m₁ => simp

/-- The stage at a place of the list is the machine that the run has come to after as many
steps. -/
lemma getElem?_stages {fuel k : Nat} {m m' : Machine} :
    (m.stages p fuel)[k]? = some m' ↔ k < fuel ∧ m.run p k = .unfinished m' := by
  rw [stages, run]
  cases p.first? with
  | none => simp
  | some first => exact getElem?_resumeStages

lemma exists_of_mem_stages {fuel : Nat} {m m' : Machine} (h : m' ∈ m.stages p fuel) :
    ∃ k < fuel, m.run p k = .unfinished m' := by
  obtain ⟨k, hk⟩ := List.getElem?_of_mem h
  exact ⟨k, getElem?_stages.mp hk⟩

lemma isChain_resumeStages (fuel : Nat) (m : Machine) :
    (m.resumeStages p fuel).IsChain fun a b => a.step p = .next b := by
  induction fuel generalizing m with
  | zero => exact .nil
  | succ fuel ih =>
    cases hstep : m.step p with
    | next m' =>
      rw [resumeStages_of_next hstep]
      refine (ih m').cons fun b hb => ?_
      cases fuel with
      | zero => cases hb
      | succ fuel =>
        cases hb
        exact hstep
    | done m' =>
      rw [resumeStages_of_end (by simp [hstep])]
      exact .singleton m
    | failed f m' =>
      rw [resumeStages_of_end (by simp [hstep])]
      exact .singleton m

/-- Each stage leads to the next one. -/
lemma isChain_stages (fuel : Nat) (m : Machine) :
    (m.stages p fuel).IsChain fun a b => a.step p = .next b := by
  rw [stages]
  cases p.first? with
  | none => exact .nil
  | some first => exact isChain_resumeStages fuel _

/-! ### Executed lines -/

/-- The line that the next step executes, if it is there. -/
def line? (p : Program) (m : Machine) : Option Line := p.lineAt? m.stack.line

/-- The lines that a run executes in its first `fuel` steps, in order. -/
def executed (p : Program) (fuel : Nat) (m : Machine) : List Line :=
  (m.stages p fuel).filterMap (line? p)

/-- A step that leads to another one executes a line. -/
lemma exists_line_of_next {m m' : Machine} (h : m.step p = .next m') :
    ∃ l, m.line? p = some l := by
  cases hl : m.line? p with
  | none =>
    rw [line?] at hl
    rw [step, hl] at h
    cases h
  | some l => exact ⟨l, rfl⟩

lemma mem_lines_of_mem_executed {fuel : Nat} {m : Machine} {l : Line}
    (h : l ∈ m.executed p fuel) : l ∈ p.lines := by
  obtain ⟨m', -, hl⟩ := List.mem_filterMap.mp h
  exact (Program.lineAt?_eq_some hl).1

lemma length_filterMap_resumeStages {fuel : Nat} {m m' : Machine}
    (h : m.resume p fuel = .unfinished m') :
    ((m.resumeStages p fuel).filterMap (line? p)).length = fuel := by
  induction fuel generalizing m with
  | zero => rfl
  | succ fuel ih =>
    obtain ⟨m₁, hnext, hrest⟩ := resume_succ_eq_unfinished.mp h
    obtain ⟨l, hl⟩ := exists_line_of_next hnext
    rw [resumeStages_of_next hnext, List.filterMap_cons_some hl, List.length_cons, ih hrest]

/-- A run that has not ended has executed a line in each step. -/
lemma length_executed_of_unfinished {fuel : Nat} {m m' : Machine}
    (h : m.run p fuel = .unfinished m') : (m.executed p fuel).length = fuel := by
  rw [run] at h
  rw [executed, stages]
  cases hfirst : p.first? with
  | none =>
    rw [hfirst] at h
    cases h
  | some first =>
    rw [hfirst] at h
    exact length_filterMap_resumeStages h

end LineBasic.Machine
