import LineBasic.Check
import LineBasic.Proofs.Machine.Effects
import LineBasic.Proofs.Machine.Run
import LineBasic.Proofs.Uses

/-!
# How a run ends

Whether a machine is running tells how its run has ended: it has exited after a normal end, and it
is still running after a failure at a line. Only the last flush can fail after the exit.

* `CallStack.FromCalls`: every frame below the current one is at a line with a `GOSUB`;
* `Machine.fromCalls_step`: every step keeps that;
* `Machine.lineIndex?_of_ret`: so a `RETURN` comes to a frame at a line of the program;
* `Machine.stateFits_step`: the state of a machine tells what its step leads to;
* `Machine.run_outcome`: the state of a machine tells how its run has ended.
-/

namespace LineBasic

namespace Statement

lemma mem_parts (s : Statement) : s ∈ s.parts := by
  cases s <;> simp [parts]

lemma Takes.mem_parts {symbols : Symbols} {v : Value} {s t u : Statement}
    (h : s.Takes symbols v t) (hu : u ∈ t.parts) : u ∈ s.parts := by
  cases h with
  | only => exact List.mem_cons_of_mem _ hu
  | first => exact List.mem_cons_of_mem _ (List.mem_append_left _ hu)
  | second => exact List.mem_cons_of_mem _ (List.mem_append_right _ hu)

lemma Takes.mem_atoms {symbols : Symbols} {v : Value} {s t u : Statement}
    (h : s.Takes symbols v t) (hu : u ∈ t.atoms) : u ∈ s.atoms := by
  cases h with
  | only => exact hu
  | first => exact List.mem_append_left _ hu
  | second => exact List.mem_append_right _ hu

/-- What is reached is inside the statement, if it is no conditional itself. -/
lemma mem_atoms_of_reached {s a : Statement} {symbols : Symbols} (h : s.reached symbols = a)
    (ha : a.atoms = [a]) : a ∈ s.atoms := by
  have hinside : ∀ u ∈ (s.reached symbols).atoms, u ∈ s.atoms :=
    reached_of_takes (P := fun t => ∀ u ∈ t.atoms, u ∈ s.atoms)
      (fun htakes hs u hu => hs u (htakes.mem_atoms hu)) fun _ hu => hu
  refine hinside a ?_
  rw [h, ha]
  exact List.mem_singleton_self a

end Statement

/-! ### The frames below the current one -/

lemma lineIndex?_eq_some {line : Int} {n : Nat} (h : lineIndex? line = some n) : line = n := by
  rw [lineIndex?] at h
  split at h
  · have hn : line.toNat = n := Option.some.inj h
    omega
  · cases h

namespace CallStack

/-- Every frame below the current one is at a line of the program that has a `GOSUB`. -/
def FromCalls (p : Program) (s : CallStack) : Prop :=
  ∀ f ∈ s.callers, ∃ l, p.lineAt? f.line = some l ∧
    l.statement.atoms.any Statement.isGosub = true

lemma callers_of_ret {s t : CallStack} (h : s.ret = some t) :
    s.callers = t.current :: t.callers := by
  obtain ⟨⟨line, parent⟩, callers⟩ := s
  cases parent with
  | none => cases h
  | some parent =>
    cases callers with
    | nil => cases h
    | cons caller callers =>
      cases h
      rfl

end CallStack

namespace Machine

variable {p : Program}

lemma fromCalls_follow {m : Machine} (h : m.stack.FromCalls p) (n : Nat) (flow : Flow) :
    (m.follow p n flow).machine.stack.FromCalls p := by
  obtain ⟨line, state, hm⟩ := machine_follow (p := p) n flow m
  rw [hm]
  exact h

/-- Every step keeps the frames below the current one at lines with a `GOSUB`. -/
theorem fromCalls_step (m : Machine) (h : m.stack.FromCalls p) :
    (m.step p).machine.stack.FromCalls p := by
  cases hl : p.lineAt? m.stack.line with
  | none =>
    rw [step, hl]
    exact h
  | some l =>
    have hmoves := l.statement.moves m
    rw [step_of_lineAt? hl]
    generalize l.statement.execute m = outcome at hmoves
    cases hmoves with
    | fails f m' hstack => exact hstack ▸ h
    | goesOn m' hstack => exact fromCalls_follow (hstack ▸ h) _ _
    | jumps target span line m' hgoto htarget hstack =>
      refine fromCalls_follow ?_ _ _
      rw [hstack]
      exact h
    | calls target span line m' hgosub htarget hstack =>
      refine fromCalls_follow ?_ _ _
      rw [hstack]
      refine List.forall_mem_cons.mpr ⟨⟨l, hl, ?_⟩, h⟩
      exact List.any_eq_true.mpr ⟨_, Statement.mem_atoms_of_reached hgosub rfl, rfl⟩
    | returns span m' hret hstack hstate =>
      refine fromCalls_follow (fun f hf => h f ?_) _ _
      rw [CallStack.callers_of_ret hstack]
      exact List.mem_cons_of_mem _ hf

/-- A `RETURN` comes to a frame at a line of the program. -/
lemma lineIndex?_of_ret {m m' : Machine} {s : Statement} (h : m.stack.FromCalls p)
    (hret : s.execute m = .ok .ret m') : ∃ n, lineIndex? m'.stack.line = some n := by
  have hmoves := s.moves m
  rw [hret] at hmoves
  cases hmoves with
  | returns span m' hreached hstack hstate =>
    have hcaller : m'.stack.current ∈ m.stack.callers := by
      rw [CallStack.callers_of_ret hstack]
      exact List.mem_cons_self
    obtain ⟨l, hl, -⟩ := h _ hcaller
    exact ⟨l.number, (Program.lineAt?_eq_some hl).2⟩

/-! ### The state after a step -/

end Machine

/-- A machine is running if its run goes on or has failed at a line, and has exited if its run is
over. -/
def Transition.StateFits : Transition → Prop
  | .next m => m.state = .running
  | .done m => m.state = .exited
  | .failed f m => m.state = .running ∧ f.line ≠ none

namespace Machine

variable {p : Program}

lemma stateFits_advance {m : Machine} (hrunning : m.state = .running) (n : Nat) :
    (m.advance p n).StateFits := by
  rw [advance]
  cases p.next? n with
  | none => exact rfl
  | some k => exact hrunning

/-- The state of a machine fits what its step leads to. -/
theorem stateFits_step {m : Machine} (hrunning : m.state = .running) (h : m.stack.FromCalls p) :
    (m.step p).StateFits := by
  cases hl : p.lineAt? m.stack.line with
  | none =>
    rw [step, hl]
    exact ⟨hrunning, Option.some_ne_none _⟩
  | some l =>
    have hstate := l.statement.state_execute m
    rw [step_of_lineAt? hl]
    cases hexecute : l.statement.execute m with
    | error f m' =>
      rw [hexecute] at hstate
      rcases hstate with hstate | ⟨hok, -⟩
      · exact ⟨hstate.trans hrunning, Option.some_ne_none _⟩
      · cases hok
    | ok flow m' =>
      rw [hexecute, hrunning] at hstate
      rcases hstate with hgoes | ⟨-, hexited, -⟩
      · have hgoes : m'.state = .running := hgoes
        dsimp only
        rw [follow_of_running hgoes]
        cases flow with
        | next => exact stateFits_advance hgoes l.number
        | jump => exact hgoes
        | call => exact hgoes
        | ret =>
          obtain ⟨caller, hcaller⟩ := lineIndex?_of_ret h hexecute
          dsimp only
          rw [hcaller]
          exact stateFits_advance hgoes caller
      · have hdone : m'.follow p l.number flow = .done m' := if_pos hexited
        dsimp only
        rw [hdone]
        exact hexited

/-! ### The state after a run -/

lemma running_of_unfinished {fuel : Nat} {m m' : Machine} (hrunning : m.state = .running)
    (h : m.resume p fuel = .unfinished m') : m'.state = .running := by
  induction fuel generalizing m with
  | zero =>
    cases h
    exact hrunning
  | succ fuel ih =>
    obtain ⟨m₁, hstep, hrest⟩ := resume_succ_eq_unfinished.mp h
    exact ih (running_of_step hstep) hrest

/-- The state of a machine tells how its run has ended.

Nothing happens in a program without lines. In the run of a program with lines, every frame below
the current one is at a line with a `GOSUB`, so that a `RETURN` always comes to a frame at a line of
the program. A run that goes on is running, and a run that ends normally has exited. A run that
fails at a line is still running. A run fails at no line if it was over and the last flush of its
output was refused; this is the failure, and the run has exited.

The input and the output of the machine may fail at any time and for any cause. -/
theorem run_outcome (p : Program) (m₀ : Machine) (fuel : Nat) :
    (p.isEmpty = true → m₀.run p fuel = .ended (.error ⟨.nothingToRun, none, none⟩) m₀) ∧
    (p.isEmpty = false →
      (∀ f ∈ (m₀.run p fuel).machine.stack.callers, ∃ l ∈ p.lines, f.line = l.number ∧
        l.statement.atoms.any Statement.isGosub = true) ∧
      (∀ m l m', m₀.run p fuel = .unfinished m → p.lineAt? m.stack.line = some l →
        l.statement.execute m = .ok .ret m' → lineIndex? m'.stack.line ≠ none) ∧
      match m₀.run p fuel with
      | .unfinished m => m.state = .running
      | .ended (.ok ()) m => m.state = .exited
      | .ended (.error f) m =>
        match f.line with
        | some _ => m.state = .running
        | none => m.state = .exited ∧ ∃ k m₁ m₂ cause, m₀.run p k = .unfinished m₁ ∧
          m₁.step p = .done m₂ ∧ m₂.output.flush = (m.output, some cause) ∧
          f = ⟨.output cause, none, none⟩) := by
  refine ⟨fun hempty => run_of_isEmpty hempty m₀ fuel, fun hlines => ?_⟩
  have hcalls (k : Nat) : (m₀.run p k).machine.stack.FromCalls p :=
    run_invariant (P := fun m => m.stack.FromCalls p) hlines
      (fun _ _ hf => absurd hf List.not_mem_nil) fromCalls_step (fun _ h => h) k
  have hrunning {k : Nat} {m : Machine} (h : m₀.run p k = .unfinished m) :
      m.state = .running := by
    obtain ⟨first, hfirst⟩ := Program.exists_first? hlines
    rw [run_of_first? hfirst] at h
    exact running_of_unfinished rfl h
  refine ⟨fun f hf => ?_, fun m l m' hm hl hret hnone => ?_, ?_⟩
  · obtain ⟨l, hl, hgosub⟩ := hcalls fuel f hf
    obtain ⟨hmem, hindex⟩ := Program.lineAt?_eq_some hl
    exact ⟨l, hmem, lineIndex?_eq_some hindex, hgosub⟩
  · have hcalls := hcalls fuel
    rw [hm] at hcalls
    obtain ⟨n, hn⟩ := lineIndex?_of_ret hcalls hret
    cases hn.symm.trans hnone
  · cases hrun : m₀.run p fuel with
    | unfinished m => exact hrunning hrun
    | ended result m =>
      -- the last step tells how the run has ended
      obtain ⟨k, m₁, hm₁, hlast⟩ := run_eq_ended hlines hrun
      have hcalls := hcalls k
      rw [hm₁] at hcalls
      have hfits := stateFits_step (hrunning hm₁) hcalls
      rcases hlast with ⟨m₂, hdone, hfinish⟩ | ⟨f, hfailed, rfl⟩
      · rw [hdone] at hfits
        rw [finish_eq] at hfinish
        cases hcause : m₂.output.flush.2 with
        | none =>
          rw [hcause] at hfinish
          cases hfinish
          exact hfits
        | some cause =>
          rw [hcause] at hfinish
          cases hfinish
          exact ⟨hfits, k, m₁, m₂, cause, hm₁, hdone, Prod.ext rfl hcause, rfl⟩
      · rw [hfailed] at hfits
        obtain ⟨hstate, hline⟩ := hfits
        dsimp only
        cases hf : f.line with
        | none => exact absurd hf hline
        | some line => exact hstate

/-- A program that calls line 3 and reads a value there. -/
def endingProgram : Program where
  lines :=
    [⟨1, .ifThen (.number 1 ⟨5, 6⟩) (.gosub (.number 3 ⟨18, 19⟩) ⟨12, 19⟩) ⟨2, 19⟩, ⟨0, 19⟩⟩,
     ⟨2, .print none ⟨22, 27⟩, ⟨20, 27⟩⟩, ⟨3, .input ["A"] ⟨30, 37⟩, ⟨28, 37⟩⟩]
  ascending := by decide

/-- The failure that a run has ended with, and the machine then. -/
def failed? : RunResult → Option (Failure × Machine)
  | .ended (.error f) m => some (f, m)
  | _ => none

lemma eq_ended_of_failed? {r : RunResult} {f : Failure} {m : Machine}
    (h : failed? r = some (f, m)) : r = .ended (.error f) m := by
  unfold failed? at h
  split at h
  · cases h
    rfl
  · cases h

/-- On a sink that is flushed once and then full, `endingProgram` reads its value and fails at no
line after its exit, with the frame of line 1 still below the current one. The program without lines
fails at once. -/
theorem endingProgram_run_outcome :
    let m₀ := Machine.start defaultPrompt "x\n".toUTF8.toList
      ⟨.empty, .all, ⟨fun n => if n = 0 then none else some "disk full"⟩⟩
    (∃ f m, m₀.run endingProgram 2 = .ended (.error f) m ∧ f = ⟨.output "disk full", none, none⟩ ∧
      m.state = .exited ∧ m.symbols.get? "A" = some (.string "x") ∧
      m.stack.callers = [⟨1, none⟩] ∧ ∃ l ∈ endingProgram.lines, (1 : Int) = l.number ∧
        l.statement.atoms.any Statement.isGosub = true) ∧
    m₀.run .empty 2 = .ended (.error ⟨.nothingToRun, none, none⟩) m₀ := by
  intro m₀
  obtain ⟨-, hlines⟩ := run_outcome endingProgram m₀ 2
  obtain ⟨hcallers, -, hresult⟩ := hlines rfl
  have hrun : (failed? (m₀.run endingProgram 2)).map
      (fun (f, m) => (f, m.symbols.get? "A", m.stack.callers)) =
        some (⟨.output "disk full", none, none⟩, some (.string "x"), [⟨1, none⟩]) := by
    decide +kernel
  obtain ⟨⟨f, m⟩, hfailed, hfacts⟩ := Option.map_eq_some_iff.mp hrun
  have hended := eq_ended_of_failed? hfailed
  simp only [Prod.mk.injEq] at hfacts
  obtain ⟨rfl, hA, hstack⟩ := hfacts
  rw [hended] at hcallers hresult
  have hcaller := hcallers ⟨1, none⟩ (hstack ▸ List.mem_singleton_self _)
  exact ⟨⟨_, m, hended, rfl, hresult.1, hA, hstack, hcaller⟩, (run_outcome .empty m₀ 2).1 rfl⟩

end Machine

end LineBasic
