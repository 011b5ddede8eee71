import LineBasic.Machine.Run
import LineBasic.Proofs.Machine.Execute
import Mathlib.Tactic.Lemma

/-!
# Along a run

What holds of the machines that a run goes through:

* `Program.lineAt?_eq_some`: a line that is found is a line of the program, under its number;
* `Machine.machine_follow`, `Machine.follow_eq_next`: what going on after a line changes, and
  where it leads;
* `Machine.machine_step`: what a step changes beyond what its statement does;
* `Machine.running_of_step`: a run that goes on is running;
* `Machine.run_add`: a run can be cut at every machine that it goes through;
* `Machine.run_invariant`: what holds at the first line and is kept by every step and by the last
  flush holds all along a run;
* `Machine.run_eq_ended`: a run that ends does so in its last step.
-/

namespace LineBasic

/-! ### Lines -/

lemma lineIndex?_natCast {n : Nat} (h : n ≤ maxLineNumber) : lineIndex? (n : Int) = some n := by
  rw [lineIndex?, if_pos ⟨by omega, by omega⟩]
  simp

namespace Program

lemma mem_of_get? {p : Program} {n : Nat} {l : Line} (h : p.get? n = some l) :
    l ∈ p.lines ∧ l.number = n := by
  refine ⟨List.mem_of_find?_eq_some h, ?_⟩
  simpa using List.find?_some h

/-- The line found at a run-time line is the program's line with that number. -/
lemma lineAt?_eq_some {p : Program} {line : Int} {l : Line} (h : p.lineAt? line = some l) :
    l ∈ p.lines ∧ lineIndex? line = some l.number := by
  obtain ⟨n, hn, hl⟩ := Option.bind_eq_some_iff.mp h
  obtain ⟨hmem, hnumber⟩ := mem_of_get? hl
  exact ⟨hmem, hnumber ▸ hn⟩

lemma mem_assigned {p : Program} {name : String} :
    name ∈ p.assigned ↔ ∃ x ∈ p.lines, name ∈ x.statement.assigned := by
  rw [assigned, List.mem_eraseDups, List.mem_flatMap]

/-- The next line has a greater number. -/
lemma lt_of_next? {p : Program} {n k : Nat} (h : p.next? n = some k) : n < k := by
  obtain ⟨l, hl, rfl⟩ := Option.map_eq_some_iff.mp h
  simpa using List.find?_some hl

/-- After a line of the program comes the line that follows it in the list. -/
lemma next?_of_split {p : Program} {xs ys : List Line} {x : Line} (h : p.lines = xs ++ x :: ys) :
    p.next? x.number = ys.head?.map Line.number := by
  have hascending := p.ascending
  rw [h, List.pairwise_append, List.pairwise_cons] at hascending
  obtain ⟨-, ⟨habove, -⟩, hbelow⟩ := hascending
  have hxs : xs.find? (fun l => decide (x.number < l.number)) = none := by
    rw [List.find?_eq_none]
    intro l hl
    have hlt := hbelow l hl x List.mem_cons_self
    simp only [decide_eq_true_eq]
    omega
  rw [next?, h, List.find?_append, hxs, Option.none_or, List.find?_cons]
  simp only [Nat.lt_irrefl, decide_false]
  cases ys with
  | nil => rfl
  | cons y zs =>
    have hlt := habove y List.mem_cons_self
    simp [hlt]

/-- A program with lines has a first one. -/
lemma exists_first? {p : Program} (h : p.isEmpty = false) : ∃ first, p.first? = some first := by
  rw [isEmpty] at h
  rw [first?]
  cases hlines : p.lines with
  | nil =>
    rw [hlines] at h
    cases h
  | cons x xs => exact ⟨x.number, rfl⟩

end Program

/-! ### Steps -/

/-- The machine that a step leads to, whatever becomes of the run. -/
def Transition.machine : Transition → Machine
  | .next m => m
  | .done m => m
  | .failed _ m => m

/-- The machine that a run has come to, whether it has ended or not. -/
def RunResult.machine : RunResult → Machine
  | .ended _ m => m
  | .unfinished m => m

namespace Machine

variable {p : Program}

/-- Where a run that is not told to end goes after line `n`. -/
lemma follow_of_running {m : Machine} (hm : m.state = .running) (n : Nat) (flow : Flow) :
    m.follow p n flow =
      match flow with
      | .jump => .next m
      | .call => .next m
      | .next => m.advance p n
      | .ret =>
        match lineIndex? m.stack.line with
        | some caller => m.advance p caller
        | none => .done m := by
  have hgoes : ¬ m.state = .exited := by simp [hm]
  exact if_neg hgoes

/-- Going on after a line changes at most the line of the current frame and whether the run goes
on. -/
lemma machine_follow (n : Nat) (flow : Flow) (m : Machine) :
    ∃ line state, (m.follow p n flow).machine =
      { m with stack := m.stack.goto line, state := state } := by
  have hstays : ∃ line state, m = { m with stack := m.stack.goto line, state := state } :=
    ⟨m.stack.line, m.state, rfl⟩
  have hadvance (k : Nat) : ∃ line state, (m.advance p k).machine =
      { m with stack := m.stack.goto line, state := state } := by
    rw [advance]
    cases p.next? k with
    | none => exact ⟨m.stack.line, .exited, rfl⟩
    | some next => exact ⟨next, m.state, rfl⟩
  cases hstate : m.state with
  | exited =>
    have hdone : m.follow p n flow = .done m := by simp [follow, hstate]
    rw [hdone]
    exact hstays
  | running =>
    rw [follow_of_running hstate]
    cases flow with
    | jump => exact hstays
    | call => exact hstays
    | next => exact hadvance n
    | ret =>
      dsimp only
      split
      next caller _ => exact hadvance caller
      next => exact hstays

/-- A run that goes on after a line is running, and it stays where a jump or call has led or
advances from some line. -/
lemma follow_eq_next {n : Nat} {flow : Flow} {m m' : Machine}
    (h : m.follow p n flow = .next m') :
    m.state = .running ∧
      ((flow = .jump ∨ flow = .call) ∧ m' = m ∨
        (flow = .next ∨ flow = .ret) ∧ ∃ k, m.advance p k = .next m') := by
  cases hm : m.state with
  | exited =>
    have hdone : m.follow p n flow = .done m := by simp [follow, hm]
    rw [hdone] at h
    cases h
  | running =>
    refine ⟨rfl, ?_⟩
    rw [follow_of_running hm] at h
    cases flow with
    | jump =>
      cases h
      exact .inl ⟨.inl rfl, rfl⟩
    | call =>
      cases h
      exact .inl ⟨.inr rfl, rfl⟩
    | next => exact .inr ⟨.inl rfl, n, h⟩
    | ret =>
      dsimp only at h
      split at h
      next caller _ => exact .inr ⟨.inr rfl, caller, h⟩
      next => cases h

/-- Advancing moves the current frame to the next line. -/
lemma advance_eq_next {n : Nat} {m m' : Machine} (h : m.advance p n = .next m') :
    ∃ k, p.next? n = some k ∧ m' = { m with stack := m.stack.goto k } := by
  rw [advance] at h
  cases hnext : p.next? n with
  | none =>
    rw [hnext] at h
    cases h
  | some k =>
    rw [hnext] at h
    cases h
    exact ⟨k, rfl, rfl⟩

lemma running_of_follow {n : Nat} {flow : Flow} {m m' : Machine}
    (h : m.follow p n flow = .next m') : m'.state = .running := by
  obtain ⟨hm, ⟨-, rfl⟩ | ⟨-, k, hadvance⟩⟩ := follow_eq_next h
  · exact hm
  · obtain ⟨next, -, rfl⟩ := advance_eq_next hadvance
    exact hm

/-- The step at a line that is there: its statement is executed, and the run fails or goes where
the statement says. -/
lemma step_of_lineAt? {m : Machine} {l : Line} (hl : p.lineAt? m.stack.line = some l) :
    m.step p =
      match l.statement.execute m with
      | .error fault m' => .failed ⟨fault, some m.stack.line, some l.statement.span⟩ m'
      | .ok flow m' => m'.follow p l.number flow := by
  cases hexecute : l.statement.execute m with
  | error fault m' => simp only [step, hl, hexecute]
  | ok flow m' => simp only [step, hl, hexecute]

/-- After what the statement of a line does, a step changes at most the line of the current frame
and whether the run goes on. -/
lemma machine_step {m : Machine} {l : Line} (hl : p.lineAt? m.stack.line = some l) :
    ∃ line state, (m.step p).machine =
      { Exec.machineAfter (l.statement.execute m) with
        stack := (Exec.machineAfter (l.statement.execute m)).stack.goto line
        state := state } := by
  rw [step_of_lineAt? hl]
  cases l.statement.execute m with
  | error fault m' => exact ⟨m'.stack.line, m'.state, rfl⟩
  | ok flow m' => exact machine_follow l.number flow m'

lemma follow_ne_failed (n : Nat) (flow : Flow) (m m' : Machine) (f : Failure) :
    m.follow p n flow ≠ .failed f m' := by
  have hadvance (k : Nat) : m.advance p k ≠ .failed f m' := by
    rw [advance]
    cases p.next? k <;> simp
  rw [follow.eq_def]
  split
  · simp
  · cases flow with
    | jump => simp
    | call => simp
    | next => exact hadvance n
    | ret =>
      dsimp only
      split
      next caller _ => exact hadvance caller
      next => simp

/-- A step at a line that is there fails with the fault of its statement. -/
lemma step_eq_failed {m m' : Machine} {l : Line} {f : Failure}
    (hl : p.lineAt? m.stack.line = some l) (h : m.step p = .failed f m') :
    ∃ fault, l.statement.execute m = .error fault m' ∧
      f = ⟨fault, some m.stack.line, some l.statement.span⟩ := by
  rw [step_of_lineAt? hl] at h
  cases hexecute : l.statement.execute m with
  | ok flow m₁ =>
    rw [hexecute] at h
    exact absurd h (follow_ne_failed _ _ _ _ _)
  | error fault m₁ =>
    rw [hexecute] at h
    cases h
    exact ⟨fault, rfl, rfl⟩

/-- A run that goes on after a step is running. -/
lemma running_of_step {m m' : Machine} (h : m.step p = .next m') : m'.state = .running := by
  cases hl : p.lineAt? m.stack.line with
  | none =>
    rw [step, hl] at h
    cases h
  | some l =>
    rw [step_of_lineAt? hl] at h
    split at h
    · cases h
    · exact running_of_follow h

/-! ### Runs -/

/-- A run that is over ends with what comes of the last flush. -/
lemma finish_eq (m : Machine) :
    m.finish = .ended
      (match m.output.flush.2 with
      | none => .ok ()
      | some cause => .error ⟨.output cause, none, none⟩) m.flushed := by
  rw [finish]
  dsimp only
  cases m.output.flush.2 <;> rfl

/-- A run that is over can only fail in the last flush. -/
lemma exists_of_finish {m m' : Machine} {f : Failure} (h : m.finish = .ended (.error f) m') :
    ∃ cause, m.output.flush.2 = some cause ∧ f = ⟨.output cause, none, none⟩ := by
  rw [finish_eq] at h
  cases hcause : m.output.flush.2 with
  | none =>
    rw [hcause] at h
    cases h
  | some cause =>
    rw [hcause] at h
    cases h
    exact ⟨cause, rfl, rfl⟩

lemma finish_of_neverFails {m : Machine} (h : m.output.NeverFails) :
    m.finish = .ended (.ok ()) m := by
  rw [finish_eq, flushed_of_neverFails h, h.flush_eq]

/-- A run that goes on for one more step goes on after its first one. -/
lemma resume_succ_eq_unfinished {n : Nat} {m m' : Machine} :
    m.resume p (n + 1) = .unfinished m' ↔
      ∃ m₁, m.step p = .next m₁ ∧ m₁.resume p n = .unfinished m' := by
  rw [resume]
  cases hstep : m.step p with
  | next m₁ => simp
  | done m₁ => simp [finish_eq]
  | failed f m₁ => simp

/-- A run can be cut at every machine that it goes through. -/
lemma resume_add {n : Nat} {m m' : Machine} (h : m.resume p n = .unfinished m') (k : Nat) :
    m.resume p (n + k) = m'.resume p k := by
  induction n generalizing m with
  | zero =>
    cases h
    rw [Nat.zero_add]
  | succ n ih =>
    obtain ⟨m₁, hnext, hrest⟩ := resume_succ_eq_unfinished.mp h
    rw [Nat.succ_add, resume, hnext]
    exact ih hrest

/-- A run from the first line can be cut in the same way. -/
lemma run_add {n : Nat} {m₀ m : Machine} (h : m₀.run p n = .unfinished m) (k : Nat) :
    m₀.run p (n + k) = m.resume p k := by
  rw [run] at h ⊢
  cases hfirst : p.first? with
  | none =>
    rw [hfirst] at h
    cases h
  | some first =>
    rw [hfirst] at h
    exact resume_add h k

lemma run_of_first? {first : Nat} (h : p.first? = some first) (m : Machine) (fuel : Nat) :
    m.run p fuel = (m.reset p first).resume p fuel := by
  rw [run, h]

/-- There is nothing to run in a program without lines. -/
lemma run_of_isEmpty (h : p.isEmpty = true) (m : Machine) (fuel : Nat) :
    m.run p fuel = .ended (.error ⟨.nothingToRun, none, none⟩) m := by
  have hnil : p.lines = [] := List.isEmpty_iff.mp h
  have hfirst : p.first? = none := by rw [Program.first?, hnil]; rfl
  rw [run, hfirst]

/-- A run that goes on has lines. -/
lemma isEmpty_of_unfinished {k : Nat} {m₀ m : Machine} (h : m₀.run p k = .unfinished m) :
    p.isEmpty = false := by
  cases hempty : p.isEmpty with
  | false => rfl
  | true =>
    rw [run_of_isEmpty hempty] at h
    cases h

/-- What every step and the last flush keep holds all along a run. -/
lemma resume_invariant {P : Machine → Prop} (hstep : ∀ m, P m → P (m.step p).machine)
    (hflush : ∀ m, P m → P m.flushed) (fuel : Nat) {m : Machine} (hm : P m) :
    P (m.resume p fuel).machine := by
  induction fuel generalizing m with
  | zero => exact hm
  | succ fuel ih =>
    have hnext := hstep m hm
    rw [resume]
    cases h : m.step p with
    | next m' =>
      rw [h] at hnext
      exact ih hnext
    | done m' =>
      rw [h] at hnext
      dsimp only
      rw [m'.finish_eq]
      exact hflush m' hnext
    | failed f m' =>
      rw [h] at hnext
      exact hnext

/-- What holds at the first line and is kept by every step and by the last flush holds all along a
run. -/
theorem run_invariant {P : Machine → Prop} (hp : p.isEmpty = false) {m₀ : Machine}
    (hstart : ∀ first, P (m₀.reset p first)) (hstep : ∀ m, P m → P (m.step p).machine)
    (hflush : ∀ m, P m → P m.flushed) (fuel : Nat) : P (m₀.run p fuel).machine := by
  obtain ⟨first, hfirst⟩ := Program.exists_first? hp
  rw [run_of_first? hfirst]
  exact resume_invariant hstep hflush fuel (hstart first)

lemma resume_eq_ended {fuel : Nat} {m m' : Machine} {result : Except Failure Unit}
    (h : m.resume p fuel = .ended result m') :
    ∃ k m₁, m.resume p k = .unfinished m₁ ∧
      ((∃ m₂, m₁.step p = .done m₂ ∧ m₂.finish = .ended result m') ∨
        ∃ f, m₁.step p = .failed f m' ∧ result = .error f) := by
  induction fuel generalizing m with
  | zero => cases h
  | succ fuel ih =>
    rw [resume] at h
    cases hstep : m.step p with
    | next m₁ =>
      rw [hstep] at h
      obtain ⟨k, m₂, hm₂, hlast⟩ := ih h
      exact ⟨k + 1, m₂, resume_succ_eq_unfinished.mpr ⟨m₁, hstep, hm₂⟩, hlast⟩
    | done m₁ =>
      rw [hstep] at h
      exact ⟨0, m, rfl, .inl ⟨m₁, hstep, h⟩⟩
    | failed f m₁ =>
      rw [hstep] at h
      cases h
      exact ⟨0, m, rfl, .inr ⟨f, hstep, rfl⟩⟩

/-- A run that ends does so in its last step, which is over or fails. -/
theorem run_eq_ended {fuel : Nat} {m₀ m' : Machine} {result : Except Failure Unit}
    (hp : p.isEmpty = false) (h : m₀.run p fuel = .ended result m') :
    ∃ k m, m₀.run p k = .unfinished m ∧
      ((∃ m₁, m.step p = .done m₁ ∧ m₁.finish = .ended result m') ∨
        ∃ f, m.step p = .failed f m' ∧ result = .error f) := by
  obtain ⟨first, hfirst⟩ := Program.exists_first? hp
  rw [run_of_first? hfirst] at h
  obtain ⟨k, m, hm, hlast⟩ := resume_eq_ended h
  exact ⟨k, m, (run_of_first? hfirst m₀ k).trans hm, hlast⟩

end Machine

end LineBasic
