import LineBasic.Proofs.Machine.Effects
import LineBasic.Proofs.Machine.Run
import Mathlib.Tactic.Lemma

/-!
# Calls and returns are bracketed

A `GOSUB` puts a frame on the call stack. Until the matching `RETURN` takes it off, nothing
touches the frames below it, and the `RETURN` goes on after the line of the `GOSUB`.

* `CallStack.Above`: a stack stands on another one;
* `Machine.step_above`: a step of a machine whose stack stands on another one keeps that, or it is
  a return to the other one;
* `Machine.resume_above`: so does a run, as long as the stack stays deeper;
* `Machine.gosub_return_bracketed`: the bracketing of calls and returns in every run.
-/

namespace LineBasic

namespace CallStack

/-- All frames of `base` are frames of `s`, below its current one. -/
def Above (base s : CallStack) : Prop := (base.current :: base.callers) <:+ s.callers

lemma above_call (s : CallStack) (line : Int) : s.Above (s.call line) := List.suffix_rfl

lemma Above.goto {base s : CallStack} (h : base.Above s) (line : Int) :
    base.Above (s.goto line) := h

lemma Above.call {base s : CallStack} (h : base.Above s) (line : Int) :
    base.Above (s.call line) := List.suffix_cons_iff.mpr (.inr h)

/-- A return from above `base` leads to `base` or stays above it. -/
lemma Above.ret {base s t : CallStack} (h : base.Above s) (hret : s.ret = some t) :
    t = base ∨ base.Above t := by
  obtain ⟨⟨line, parent⟩, callers⟩ := s
  cases parent with
  | none => cases hret
  | some parent =>
    cases callers with
    | nil => cases hret
    | cons caller callers =>
      cases hret
      rcases List.suffix_cons_iff.mp h with heq | hsuffix
      · left
        cases base
        cases heq
        rfl
      · exact .inr hsuffix

lemma Above.depth_lt {base s : CallStack} (h : base.Above s) : base.depth < s.depth := by
  have hlength := h.length_le
  simp only [List.length_cons] at hlength
  simp only [depth]
  omega

/-- The frames of `base` are the lowest frames of a stack above it. -/
lemma Above.take_frames {base s : CallStack} (h : base.Above s) :
    s.frames.take base.depth = base.frames := by
  obtain ⟨between, hcallers⟩ := h
  have hframes : s.frames = base.frames ++ (between.reverse ++ [s.current]) := by
    simp [frames, ← hcallers]
  rw [hframes, ← length_frames, List.take_left]

lemma ret_of_depth_eq_one {s : CallStack} (h : s.depth = 1) : s.ret = none := by
  obtain ⟨⟨line, parent⟩, callers⟩ := s
  have hnil : callers = [] := List.eq_nil_of_length_eq_zero (Nat.succ.inj h)
  subst hnil
  cases parent <;> rfl

end CallStack

namespace Machine

variable {p : Program}

lemma above_follow {base : CallStack} {m : Machine} (h : base.Above m.stack) (n : Nat)
    (flow : Flow) : base.Above (m.follow p n flow).machine.stack := by
  obtain ⟨line, state, hm⟩ := machine_follow (p := p) n flow m
  rw [hm]
  exact h.goto line

lemma depth_follow (n : Nat) (flow : Flow) (m : Machine) :
    (m.follow p n flow).machine.stack.depth = m.stack.depth := by
  obtain ⟨line, state, hm⟩ := machine_follow (p := p) n flow m
  rw [hm, CallStack.depth_goto]

/-- One step of a machine whose stack is above `base` keeps it there, unless it executes a
`RETURN` to `base`. -/
lemma step_above {base : CallStack} {m : Machine} (habove : base.Above m.stack)
    (hrunning : m.state = .running) :
    base.Above (m.step p).machine.stack ∨
      ∃ (l : Line) (span : Span) (m' : Machine), p.lineAt? m.stack.line = some l ∧
        l.statement.reached m.symbols = .ret span ∧ m'.stack = base ∧ m'.state = .running ∧
        m.step p = m'.follow p l.number .ret := by
  cases hl : p.lineAt? m.stack.line with
  | none =>
    left
    rw [step, hl]
    exact habove
  | some l =>
    have hmoves := l.statement.moves m
    rw [step_of_lineAt? hl]
    generalize l.statement.execute m = outcome at hmoves
    cases hmoves with
    | fails f m' hstack => exact .inl (hstack ▸ habove)
    | goesOn m' hstack => exact .inl (above_follow (hstack ▸ habove) ..)
    | jumps target span line m' hgoto htarget hstack =>
      exact .inl (above_follow (hstack ▸ habove.goto line) ..)
    | calls target span line m' hgosub htarget hstack =>
      exact .inl (above_follow (hstack ▸ habove.call line) ..)
    | returns span m' hret hstack hstate =>
      rcases habove.ret hstack with heq | habove'
      · exact .inr ⟨l, span, m', rfl, hret, heq, hstate.trans hrunning, rfl⟩
      · exact .inl (above_follow habove' ..)

/-- As long as the stack of a run stays deeper than `base`, it stays above `base`. -/
lemma resume_above {base : CallStack} {k : Nat} {m m' : Machine} (habove : base.Above m.stack)
    (hrunning : m.state = .running) (hrun : m.resume p k = .unfinished m')
    (hdeeper : ∀ j m₁, j ≤ k → m.resume p j = .unfinished m₁ → base.depth < m₁.stack.depth) :
    base.Above m'.stack ∧ m'.state = .running := by
  induction k generalizing m with
  | zero =>
    cases hrun
    exact ⟨habove, hrunning⟩
  | succ k ih =>
    obtain ⟨m₁, hstep, hrest⟩ := resume_succ_eq_unfinished.mp hrun
    have hlater (j : Nat) : m.resume p (j + 1) = m₁.resume p j := by rw [resume, hstep]
    have habove₁ : base.Above m₁.stack := by
      rcases step_above (p := p) habove hrunning with hstays | ⟨l, span, m₂, -, -, hbase, -, hret⟩
      · rwa [hstep] at hstays
      · -- a return to `base` would bring the stack back to its depth
        have hdepth : (m.step p).machine.stack.depth = base.depth := by
          rw [hret, depth_follow, hbase]
        rw [hstep] at hdepth
        have hdeep := hdeeper 1 m₁ (by omega) (hlater 0)
        exact absurd hdepth (by simp only [Transition.machine]; omega)
    exact ih habove₁ (running_of_step hstep) hrest fun j m₂ hj hm₂ =>
      hdeeper (j + 1) m₂ (by omega) ((hlater j).trans hm₂)

/-- A return to a frame at line `g` goes on with the line after it. -/
lemma follow_ret {m : Machine} (hrunning : m.state = .running) {g : Nat}
    (hline : lineIndex? m.stack.line = some g) (n : Nat) :
    m.follow p n .ret = m.advance p g := by
  rw [follow_of_running hrunning]
  simp only [hline]

/-- A step that executes a `GOSUB` and does not fail calls a line. -/
lemma step_gosub {m m₁ : Machine} {l : Line} {target : Expr} {span : Span}
    (hl : p.lineAt? m.stack.line = some l)
    (hgosub : l.statement.reached m.symbols = .gosub target span) (hstep : m.step p = .next m₁) :
    ∃ line, m₁.stack = m.stack.call line := by
  obtain ⟨warnings, hexecute⟩ := l.statement.execute_reached m
  rw [step_of_lineAt? hl, hexecute, hgosub, Statement.execute_gosub] at hstep
  cases htarget : target.target m.symbols with
  | error f =>
    simp only [htarget] at hstep
    cases hstep
  | ok line =>
    simp only [htarget] at hstep
    obtain ⟨-, ⟨-, rfl⟩ | ⟨hflow, -⟩⟩ := follow_eq_next hstep
    · exact ⟨line, rfl⟩
    · simp at hflow

/-- A step that executes a `RETURN` on a stack of one frame fails and leaves the stack. -/
lemma step_ret_of_depth_eq_one {m : Machine} {l : Line} {span : Span}
    (hl : p.lineAt? m.stack.line = some l) (hret : l.statement.reached m.symbols = .ret span)
    (hdepth : m.stack.depth = 1) :
    ∃ m', m.step p = .failed ⟨.returnOutsideSub, some m.stack.line, some l.statement.span⟩ m' ∧
      m'.stack = m.stack := by
  obtain ⟨warnings, hexecute⟩ := l.statement.execute_reached m
  refine ⟨{ m with warnings := warnings }, ?_, rfl⟩
  rw [step_of_lineAt? hl, hexecute, hret, Statement.execute_ret]
  simp only [CallStack.ret_of_depth_eq_one hdepth]

/-- Calls and returns are bracketed in every run. Let the machine `m` of a run, `d` frames deep, be
at line `l`.

If its step executes a `GOSUB`, it puts one frame on the stack. As long as the run then stays deeper
than `d` frames, the lowest `d` frames are those of `m`. The step after that keeps them too and
stays deeper, or it is a `RETURN` that moves the calling frame to the line after `l`; if there is
none, the run is over.

If its step executes a `RETURN` and there is one frame, the run fails and the stack is unchanged. -/
theorem gosub_return_bracketed (p : Program) (m₀ m : Machine) (n : Nat) (l : Line)
    (hrun : m₀.run p n = .unfinished m) (hl : p.lineAt? m.stack.line = some l) :
    (∀ target span m₁, l.statement.reached m.symbols = .gosub target span →
      m₀.run p (n + 1) = .unfinished m₁ →
      m₁.stack.depth = m.stack.depth + 1 ∧
      ∀ k m', m₀.run p (n + 1 + k) = .unfinished m' →
        (∀ j m₂, j ≤ k → m₀.run p (n + 1 + j) = .unfinished m₂ →
          m.stack.depth < m₂.stack.depth) →
        m'.stack.frames.take m.stack.depth = m.stack.frames ∧
        (m.stack.depth < (m'.step p).machine.stack.depth ∧
            (m'.step p).machine.stack.frames.take m.stack.depth = m.stack.frames ∨
          (m'.step p).machine.stack.depth = m.stack.depth ∧
            (∃ l' span', p.lineAt? m'.stack.line = some l' ∧
              l'.statement.reached m'.symbols = .ret span') ∧
            match p.next? l.number with
            | some next => ∃ m₂, m'.step p = .next m₂ ∧ m₂.stack = m.stack.goto next
            | none => ∃ m₂, m'.step p = .done m₂ ∧ m₂.stack = m.stack)) ∧
    ∀ span, l.statement.reached m.symbols = .ret span → m.stack.depth = 1 →
      ∃ m', m₀.run p (n + 1) =
          .ended (.error ⟨.returnOutsideSub, some m.stack.line, some l.statement.span⟩) m' ∧
        m'.stack = m.stack := by
  have hcut (k : Nat) : m₀.run p (n + k) = m.resume p k := run_add hrun k
  constructor
  · intro target span m₁ hgosub hm₁
    obtain ⟨m₁', hstep, hzero⟩ := resume_succ_eq_unfinished.mp ((hcut 1).symm.trans hm₁)
    cases hzero
    obtain ⟨line, hcall⟩ := step_gosub hl hgosub hstep
    refine ⟨by rw [hcall, CallStack.depth_call], fun k m' hm' hdeeper => ?_⟩
    have hlater (j : Nat) : m₀.run p (n + 1 + j) = m₁.resume p j := run_add hm₁ j
    have habove₁ : m.stack.Above m₁.stack := hcall ▸ CallStack.above_call m.stack line
    obtain ⟨habove, hrunning⟩ := resume_above habove₁ (running_of_step hstep)
      ((hlater k).symm.trans hm') fun j m₂ hj hm₂ => hdeeper j m₂ hj ((hlater j).trans hm₂)
    refine ⟨habove.take_frames, ?_⟩
    rcases step_above (p := p) habove hrunning with
      hstays | ⟨l', span', m₂, hl', hret, hbase, hstate, hfollow⟩
    · exact .inl ⟨hstays.depth_lt, hstays.take_frames⟩
    · refine .inr ⟨by rw [hfollow, depth_follow, hbase], ⟨l', span', hl', hret⟩, ?_⟩
      -- the frame returned to is still at `l`, so the return goes on after `l`
      have hline : lineIndex? m₂.stack.line = some l.number := by
        rw [hbase]
        exact (Program.lineAt?_eq_some hl).2
      rw [hfollow, follow_ret hstate hline, advance]
      cases p.next? l.number with
      | none => exact ⟨_, rfl, hbase⟩
      | some next => exact ⟨_, rfl, by rw [hbase]⟩
  · intro span hret hdepth
    obtain ⟨m', hstep, hstack⟩ := step_ret_of_depth_eq_one hl hret hdepth
    refine ⟨m', ?_, hstack⟩
    rw [hcut 1, resume, hstep]

/-- A program that calls line 30, which returns inside a conditional. -/
def callingProgram : Program where
  lines :=
    [⟨10, .gosub (.number 30 ⟨0, 0⟩) ⟨0, 0⟩, ⟨0, 0⟩⟩, ⟨20, .halt ⟨0, 0⟩, ⟨0, 0⟩⟩,
     ⟨30, .ifThen (.number 1 ⟨0, 0⟩) (.ret ⟨0, 0⟩) ⟨0, 0⟩, ⟨0, 0⟩⟩]
  ascending := by decide

/-- The call of `callingProgram` keeps the frame of line 10, and its `RETURN` moves it to
line 20. -/
theorem callingProgram_bracketed :
    let p := callingProgram
    let m₀ := Machine.start defaultPrompt .empty .unlimited
    ∃ m m₁ m₂ l, m₀.run p 0 = .unfinished m ∧ p.lineAt? m.stack.line = some l ∧
      (∃ target span, l.statement.reached m.symbols = .gosub target span) ∧
      m₀.run p 1 = .unfinished m₁ ∧ m₁.stack.frames.take 1 = [⟨10, none⟩] ∧
      m₁.step p = .next m₂ ∧ m₂.stack.frames = [⟨20, none⟩] := by
  intro p m₀
  let l : Line := ⟨10, .gosub (.number 30 ⟨0, 0⟩) ⟨0, 0⟩, ⟨0, 0⟩⟩
  have hrun : m₀.run p 0 = .unfinished (m₀.reset p 10) := rfl
  have hl : p.lineAt? (m₀.reset p 10).stack.line = some l := rfl
  have hrun₁ : ∃ m₁, m₀.run p 1 = .unfinished m₁ ∧ m₁.stack.depth = 2 ∧
      (m₁.step p).machine.stack.depth = 1 := by
    refine ⟨_, rfl, rfl, ?_⟩
    decide +kernel
  obtain ⟨m₁, hm₁, hdepth₁, hdepth₂⟩ := hrun₁
  obtain ⟨-, hbetween⟩ := (gosub_return_bracketed p m₀ _ 0 l hrun hl).1 _ _ m₁ rfl hm₁
  obtain ⟨hframes, hstep⟩ := hbetween 0 m₁ hm₁ fun j m₂ hj hm₂ => by
    obtain rfl : j = 0 := by omega
    cases hm₁.symm.trans hm₂
    rw [hdepth₁]
    decide
  rcases hstep with ⟨hdeep, -⟩ | ⟨-, -, m₂, hnext, hstack⟩
  · rw [hdepth₂] at hdeep
    exact absurd hdeep (by decide)
  · exact ⟨_, m₁, m₂, l, hrun, hl, ⟨_, _, rfl⟩, hm₁, hframes, hnext, by rw [hstack]; rfl⟩

end Machine

end LineBasic
