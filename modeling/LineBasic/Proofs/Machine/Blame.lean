import LineBasic.Proofs.Check
import LineBasic.Proofs.Machine.Outcome
import LineBasic.Proofs.Uses

/-!
# What failures and warnings point at

A failure names the line that was executed, and so does a warning. Both point into the statement of
that line.

* `Statement.MayRemark`: which statements remark on what;
* `Statement.warnings_execute`: a statement adds warnings on itself and on what is nested in it, all
  for the line of the frame that it starts in;
* `Machine.warnings_step`: a step adds warnings for the line that it executes;
* `Machine.resume_warnings`: every warning of a run is added by one of its steps;
* `Machine.run_blames`: the lines and spans of failures and warnings.
-/

namespace LineBasic

/-! ### Warnings of a statement -/

/-- A statement of this kind may make the remark. -/
def Statement.MayRemark : Statement → Remark → Prop
  | .print .., .printUnset => True
  | .ifThen .., .conditionUnset => True
  | .ifThen .., .conditionNotBoolean _ => True
  | .ifThenElse .., .conditionUnset => True
  | .ifThenElse .., .conditionNotBoolean _ => True
  | .gosub .., .negativeLine _ => True
  | _, _ => False

/-- A warning is about a statement or about one nested in it, while a line is executed. -/
def Warning.About (w : Warning) (line : Int) (s : Statement) : Prop :=
  w.line = line ∧ ∃ t ∈ s.parts, t.MayRemark w.remark ∧ w.span = t.span

/-- What was recorded from one machine to a later one is about a statement, for the line that the
first one is at. -/
def Machine.Remarks (m : Machine) (s : Statement) (m' : Machine) : Prop :=
  ∃ new : Array Warning, m'.warnings = m.warnings ++ new ∧ ∀ w ∈ new, w.About m.stack.line s

namespace Machine.Remarks

variable {s t : Statement} {m m' : Machine}

lemma of_eq (h : m'.warnings = m.warnings) : m.Remarks s m' := ⟨#[], by simp [h], by simp⟩

/-- A statement remarks on itself. -/
lemma remarked {remark : Option Remark} (hs : s ∈ s.parts)
    (h : ∀ r, remark = some r → s.MayRemark r) : m.Remarks s (m.remarked remark s.span) := by
  cases remark with
  | none => exact of_eq rfl
  | some r =>
    refine ⟨#[⟨r, m.stack.line, s.span⟩], by simp [Machine.remarked], fun w hw => ?_⟩
    obtain rfl : w = ⟨r, m.stack.line, s.span⟩ := by simpa using hw
    exact ⟨rfl, s, hs, h r rfl, rfl⟩

/-- A branch of a statement adds to what the statement has recorded before it. -/
lemma branch {m₁ : Machine} (h : m.Remarks s m₁) (hstack : m₁.stack = m.stack)
    (hparts : ∀ u ∈ t.parts, u ∈ s.parts) (h' : m₁.Remarks t m') : m.Remarks s m' := by
  obtain ⟨first, hfirst, habout⟩ := h
  obtain ⟨later, hlater, habout'⟩ := h'
  refine ⟨first ++ later, by rw [hlater, hfirst, Array.append_assoc], fun w hw => ?_⟩
  rcases Array.mem_append.mp hw with hw | hw
  · exact habout w hw
  · obtain ⟨hline, u, hu, hremark, hspan⟩ := habout' w hw
    exact ⟨hstack ▸ hline, u, hparts u hu, hremark, hspan⟩

end Machine.Remarks

namespace Statement

/-- What is remarked on a condition. -/
lemma mayRemark_condition {s : Statement}
    (h : ∀ found, s.MayRemark .conditionUnset ∧ s.MayRemark (.conditionNotBoolean found))
    (v : Value) : ∀ r, v.conditionRemark? = some r → s.MayRemark r := by
  intro r hr
  cases v with
  | unset =>
    cases hr
    exact (h "").1
  | boolean b => cases hr
  | number x =>
    cases hr
    exact (h _).2
  | string x =>
    cases hr
    exact (h _).2

/-- A conditional that takes a branch may remark on its condition. -/
lemma Takes.mayRemark {symbols : Symbols} {v : Value} {s t : Statement}
    (h : s.Takes symbols v t) (found : String) :
    s.MayRemark .conditionUnset ∧ s.MayRemark (.conditionNotBoolean found) := by
  cases h with
  | only => exact ⟨trivial, trivial⟩
  | first => exact ⟨trivial, trivial⟩
  | second => exact ⟨trivial, trivial⟩

lemma Executes.remarks {s : Statement} {m : Machine} {ws : List Write} {es : List Entry}
    {r : Outcome} (h : Executes s m ws es r) : m.Remarks s (Exec.machineAfter r) := by
  have hprint (item : Option Expr) (span : Span) (m : Machine) (v : Value) :
      m.Remarks (.print item span) (m.remarked v.printRemark? span) :=
    .remarked (mem_parts _) fun r hr => by cases v <;> cases hr; trivial
  induction h with
  | prints => exact hprint _ _ _ _
  | refused => exact hprint _ _ _ _
  | @passes c t span _ v =>
    have hmay := mayRemark_condition (s := .ifThen c t span) (fun _ => ⟨trivial, trivial⟩) v
    exact .remarked (s := .ifThen c t span) (mem_parts _) hmay
  | @branches s t m v _ _ _ htakes _ ih =>
    have hremark : m.Remarks s (m.remarked v.conditionRemark? s.span) :=
      .remarked (mem_parts s) (mayRemark_condition htakes.mayRemark v)
    exact hremark.branch (m.stack_remarked ..) (fun u hu => htakes.mem_parts hu) ih
  | @calls target span =>
    refine Machine.Remarks.remarked (s := .gosub target span) (mem_parts _) fun r hr => ?_
    split at hr <;> cases hr
    trivial
  | reads hread => exact .of_eq (Exec.warnings_of_readInto hread)
  | readFails hread => exact .of_eq (Exec.warnings_of_readInto hread)
  | _ => exact .of_eq rfl

/-- A statement adds warnings on itself and on what is nested in it, for the line that the machine
is at before it. -/
theorem warnings_execute (s : Statement) (m : Machine) :
    m.Remarks s (Exec.machineAfter (s.execute m)) :=
  (s.executes m).remarks

end Statement

/-! ### Warnings of a run -/

namespace Machine

variable {p : Program}

/-- Where the run finds no line, it fails. -/
lemma step_of_lineAt?_eq_none {m : Machine} (h : p.lineAt? m.stack.line = none) :
    m.step p = .failed ⟨.noStatement m.stack.line, some m.stack.line, none⟩ m := by
  rw [step, h]

/-- A step adds warnings on the line that it executes, for that line. -/
lemma warnings_step {m : Machine} {l : Line} (hl : p.lineAt? m.stack.line = some l) :
    m.Remarks l.statement (m.step p).machine := by
  obtain ⟨line, state, hm⟩ := machine_step hl
  rw [hm]
  exact l.statement.warnings_execute m

/-- The warning at a place of the list was recorded when a line was executed: the step of that line
added it, and it is about the line's statement. -/
structure RecordedAt (p : Program) (m : Machine) (i : Nat) (w : Warning) (l : Line) : Prop where
  line : p.lineAt? m.stack.line = some l
  before : m.warnings.size ≤ i
  after : (m.step p).machine.warnings[i]? = some w
  about : w.About l.number l.statement

/-- A warning after a step was there before it, or the step has recorded it. -/
lemma recordedAt_of_step {m : Machine} {i : Nat} {w : Warning}
    (h : (m.step p).machine.warnings[i]? = some w) :
    m.warnings[i]? = some w ∨ ∃ l, RecordedAt p m i w l := by
  cases hl : p.lineAt? m.stack.line with
  | none =>
    rw [step_of_lineAt?_eq_none hl] at h
    exact .inl h
  | some l =>
    obtain ⟨new, hnew, habout⟩ := warnings_step hl
    by_cases hi : i < m.warnings.size
    · rw [hnew, Array.getElem?_append_left hi] at h
      exact .inl h
    · have hle := Nat.le_of_not_lt hi
      have hline := lineIndex?_eq_some (Program.lineAt?_eq_some hl).2
      have hmem : w ∈ new := by
        rw [hnew, Array.getElem?_append_right hle] at h
        exact Array.mem_of_getElem? h
      exact .inr ⟨l, hl, hle, h, hline ▸ habout w hmem⟩

/-- Every warning after a part of a run was there before it, or a step of it has recorded it. -/
lemma resume_warnings (fuel : Nat) {m : Machine} {i : Nat} {w : Warning}
    (h : (m.resume p fuel).machine.warnings[i]? = some w) :
    m.warnings[i]? = some w ∨
      ∃ k m' l, k < fuel ∧ m.resume p k = .unfinished m' ∧ RecordedAt p m' i w l := by
  induction fuel generalizing m with
  | zero => exact .inl h
  | succ fuel ih =>
    have hstep (h : (m.step p).machine.warnings[i]? = some w) : m.warnings[i]? = some w ∨
        ∃ k m' l, k < fuel + 1 ∧ m.resume p k = .unfinished m' ∧ RecordedAt p m' i w l := by
      rcases recordedAt_of_step h with hbefore | ⟨l, hl⟩
      · exact .inl hbefore
      · exact .inr ⟨0, m, l, Nat.succ_pos _, rfl, hl⟩
    rw [resume] at h
    cases hnext : m.step p with
    | next m₁ =>
      rw [hnext] at h hstep
      rcases ih h with hbefore | ⟨k, m', l, hk, hm', hl⟩
      · exact hstep hbefore
      · exact .inr ⟨k + 1, m', l, Nat.succ_lt_succ hk,
          resume_succ_eq_unfinished.mpr ⟨m₁, hnext, hm'⟩, hl⟩
    | done m₁ =>
      rw [hnext] at h hstep
      dsimp only at h
      rw [finish_eq] at h
      exact hstep h
    | failed f m₁ =>
      rw [hnext] at h hstep
      exact hstep h

/-! ### Failures of a run -/

/-- A step fails at the line that it executes and at the span of its statement, or it finds no
line. -/
lemma failure_of_step {m m' : Machine} {f : Failure} (h : m.step p = .failed f m') :
    (∃ l, p.lineAt? m.stack.line = some l ∧ l ∈ p.lines ∧ f.line = some (l.number : Int) ∧
      f.span = some l.statement.span) ∨
    ∃ n, f = ⟨.noStatement n, some n, none⟩ ∧ p.lineAt? n = none := by
  cases hl : p.lineAt? m.stack.line with
  | none =>
    rw [step_of_lineAt?_eq_none hl] at h
    cases h
    exact .inr ⟨_, rfl, hl⟩
  | some l =>
    obtain ⟨fault, -, rfl⟩ := step_eq_failed hl h
    obtain ⟨hmem, hline⟩ := Program.lineAt?_eq_some hl
    exact .inl ⟨l, rfl, hmem, congrArg some (lineIndex?_eq_some hline), rfl⟩

/-- A run fails in its last step, or without naming a line. -/
lemma failure_of_run {fuel : Nat} {m₀ m : Machine} {f : Failure}
    (h : m₀.run p fuel = .ended (.error f) m) :
    f.line = none ∨
      ∃ k m₁, m₀.run p k = .unfinished m₁ ∧ m₁.step p = .failed f m := by
  cases hempty : p.isEmpty with
  | true =>
    rw [run_of_isEmpty hempty] at h
    cases h
    exact .inl rfl
  | false =>
    obtain ⟨k, m₁, hm₁, ⟨m₂, -, hfinish⟩ | ⟨g, hstep, hresult⟩⟩ := run_eq_ended hempty h
    · obtain ⟨cause, -, rfl⟩ := exists_of_finish hfinish
      exact .inl rfl
    · cases hresult
      exact .inr ⟨k, m₁, hm₁, hstep⟩

/-! ### The places of failures and warnings -/

/-- Failures and warnings of a run are about the line that was executed.

A failure with a line and a span is that of the last step: the line is the one that the step
executed, and the span is that of its statement. A failure with a line and no span says that the
program has no such line. A run of a program with lines forgets the warnings of earlier runs, and
every warning that it leaves was added when one of its steps executed a line: it has the number of
this line, and it has the span of a `PRINT`, `IF` or `GOSUB` that is the statement of the line or
nested in it. Nothing happens in a program without lines. -/
theorem run_blames {tokens : List Token} (hp : Program.ofTokens tokens = .ok p) (m₀ : Machine)
    (fuel : Nat) :
    (∀ f m, m₀.run p fuel = .ended (.error f) m →
      (∀ n s, f.line = some n → f.span = some s →
        ∃ k m₁ l, m₀.run p k = .unfinished m₁ ∧ p.lineAt? m₁.stack.line = some l ∧
          l ∈ p.lines ∧ n = l.number ∧ s = l.statement.span) ∧
      (∀ n, f.line = some n → f.span = none →
        f.fault = .noStatement n ∧ ∀ l ∈ p.lines, n ≠ l.number)) ∧
    (p.isEmpty = false → ∀ i w, (m₀.run p fuel).machine.warnings[i]? = some w →
      ∃ k m l, k < fuel ∧ m₀.run p k = .unfinished m ∧ l ∈ p.lines ∧ RecordedAt p m i w l) ∧
    (p.isEmpty = true → (m₀.run p fuel).machine = m₀) := by
  refine ⟨fun f m hrun => ?_, fun hlines i w hw => ?_, fun hempty => ?_⟩
  · rcases failure_of_run hrun with hnone | ⟨k, m₁, hm₁, hstep⟩
    · refine ⟨fun n s hn => ?_, fun n hn => ?_⟩
      · cases hnone.symm.trans hn
      · cases hnone.symm.trans hn
    · rcases failure_of_step hstep with ⟨l, hl, hmem, hline, hspan⟩ | ⟨k, rfl, hmissing⟩
      · refine ⟨fun n s hn hs => ?_, fun n hn hs => ?_⟩
        · cases hline.symm.trans hn
          cases hspan.symm.trans hs
          exact ⟨k, m₁, l, hm₁, hl, hmem, rfl, rfl⟩
        · cases hspan.symm.trans hs
      · refine ⟨fun n s hn hs => ?_, fun n hn hs => ?_⟩
        · cases hs
        · cases hn
          refine ⟨rfl, fun l hl heq => ?_⟩
          obtain ⟨l', hl'⟩ := Program.lineAt?_of_le (Program.le_max_of_ofTokens hp l hl) hl
          rw [← heq, hmissing] at hl'
          cases hl'
  · obtain ⟨first, hfirst⟩ := Program.exists_first? hlines
    rw [run_of_first? hfirst] at hw
    rcases resume_warnings fuel hw with hbefore | ⟨k, m, l, hk, hm, hrecorded⟩
    · cases hbefore
    · exact ⟨k, m, l, hk, (run_of_first? hfirst m₀ k).trans hm,
        (Program.lineAt?_eq_some hrecorded.line).1, hrecorded⟩
  · rw [run_of_isEmpty hempty]
    rfl

/-- A program that remarks on a condition and on a call in its branch, and calls a line that it does
not have. -/
def callingBelow : Program where
  lines :=
    [⟨10, .ifThen (.number 1 ⟨6, 7⟩) (.gosub (.number (-5) ⟨19, 21⟩) ⟨13, 21⟩) ⟨3, 21⟩, ⟨0, 21⟩⟩]
  ascending := by decide

/-- The run of `callingBelow` fails at line `-5`, without a span. The second of its two warnings is
about the call in line 10. -/
theorem callingBelow_run_blames :
    Program.ofText "10 IF 1 THEN GOSUB -5" = .ok callingBelow ∧
      let m₀ := Machine.start defaultPrompt .empty .unlimited
      ∃ f m, m₀.run callingBelow 2 = .ended (.error f) m ∧ f.line = some (-5) ∧ f.span = none ∧
        f.fault = .noStatement (-5) ∧ (∀ l ∈ callingBelow.lines, (-5 : Int) ≠ l.number) ∧
        m.warnings[1]? = some ⟨.negativeLine (-5), 10, ⟨13, 21⟩⟩ ∧
        ∃ k m₁ l, k < 2 ∧ m₀.run callingBelow k = .unfinished m₁ ∧ l ∈ callingBelow.lines ∧
          RecordedAt callingBelow m₁ 1 ⟨.negativeLine (-5), 10, ⟨13, 21⟩⟩ l := by
  have hp : Program.ofText "10 IF 1 THEN GOSUB -5" = .ok callingBelow :=
    Program.eq_ok_of_lines (by decide +kernel)
  obtain ⟨tokens, -, htokens⟩ := Program.ofText_eq_ok_iff.mp hp
  refine ⟨hp, ?_⟩
  intro m₀
  obtain ⟨f, m, hrun, hline, hspan, hwarning⟩ : ∃ f m,
      m₀.run callingBelow 2 = .ended (.error f) m ∧ f.line = some (-5) ∧ f.span = none ∧
      m.warnings[1]? = some ⟨.negativeLine (-5), 10, ⟨13, 21⟩⟩ := ⟨_, _, rfl, rfl, rfl, rfl⟩
  obtain ⟨hfailure, hwarnings, -⟩ := run_blames htokens m₀ 2
  obtain ⟨hfault, hmissing⟩ := (hfailure f m hrun).2 (-5) hline hspan
  rw [hrun] at hwarnings
  exact ⟨f, m, hrun, hline, hspan, hfault, hmissing, hwarning, hwarnings rfl 1 _ hwarning⟩

end Machine

end LineBasic
