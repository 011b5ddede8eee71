import LineBasic.Proofs.Machine.Writes

/-!
# Output with a limit

A sink that takes only so many bytes changes a run in one way: the run fails at the first piece of
output that does not fit, after the part of it that fits.

* `Write.exceeds`, `Write.cut`: a piece that does not fit, and the machine after a part of it;
* `Write.Chain.cut_eq`: what is written by then is the beginning of all output;
* `Statement.execute_limit`, `Machine.step_limit`, `Machine.run_limit`: what a statement, a step or
  a run does under a limit, from what it does and writes without;
* `Machine.run_limited`: a run under a limit is a run without, up to the first byte too many.
-/

namespace LineBasic

/-- A sink that takes `n` bytes and to which nothing has been written. -/
def Sink.limited (n : Nat) : Sink := ⟨.empty, .upTo n, .granted⟩

namespace Sink

/-- Bytes are written if they fit, and else up to the limit. -/
lemma write_upTo {n : Nat} {written : ByteArray} (bytes : ByteArray) (flushes : Flushes)
    (h : written.size ≤ n) :
    (⟨written, .upTo n, flushes⟩ : Sink).write bytes =
      if written.size + bytes.size ≤ n then (⟨written ++ bytes, .upTo n, flushes⟩, none)
      else (⟨(written ++ bytes).extract 0 n, .upTo n, flushes⟩, some Intake.limitCause) := by
  have hcut : (written ++ bytes).extract 0 n = written ++ bytes.extract 0 (n - written.size) := by
    have hwhole : written.extract 0 n = written := by
      ext1
      rw [ByteArray.data_extract]
      exact Array.extract_eq_self_of_le h
    rw [ByteArray.extract_append, Nat.zero_sub, hwhole]
  have hroom : bytes.size ≤ n - written.size ↔ written.size + bytes.size ≤ n := by omega
  have hrefusal : (Intake.upTo n).refusal? written bytes =
      if written.size + bytes.size ≤ n then none
      else some ⟨n - written.size, Intake.limitCause⟩ := by
    simp only [Intake.upTo, hroom]
  rw [write, hrefusal, hcut]
  by_cases hfits : written.size + bytes.size ≤ n
  · rw [if_pos hfits, if_pos hfits]
  · rw [if_neg hfits, if_neg hfits]

end Sink

/-! ### Machines with a limit -/

/-- A machine whose output takes `n` bytes in total. -/
def Machine.limit (n : Nat) (m : Machine) : Machine :=
  { m with output := ⟨m.output.written, .upTo n, m.output.flushes⟩ }

/-- The result of a computation, with a limit on the output. -/
def Exec.limit {α : Type} (n : Nat) :
    EStateM.Result Fault Machine α → EStateM.Result Fault Machine α
  | .ok a m => .ok a (m.limit n)
  | .error f m => .error f (m.limit n)

/-- What a step leads to, with a limit on the output. -/
def Transition.limit (n : Nat) : Transition → Transition
  | .next m => .next (m.limit n)
  | .done m => .done (m.limit n)
  | .failed f m => .failed f (m.limit n)

/-- How a run ends, with a limit on the output. -/
def RunResult.limit (n : Nat) : RunResult → RunResult
  | .ended result m => .ended result (m.limit n)
  | .unfinished m => .unfinished (m.limit n)

/-! ### Pieces that do not fit -/

namespace Write

/-- A piece goes beyond `n` bytes of output. -/
def exceeds (n : Nat) (w : Write) : Bool :=
  decide (n < w.before.output.written.size + w.text.toUTF8.size)

/-- The machine after as much of a piece is written as `n` bytes of output allow. -/
def cut (n : Nat) (w : Write) : Machine :=
  { w.before with
    output := ⟨(w.before.output.written ++ w.text.toUTF8).extract 0 n, .upTo n,
      w.before.output.flushes⟩ }

lemma exceeds_eq_false_iff {n : Nat} {w : Write} :
    w.exceeds n = false ↔ w.before.output.written.size + w.text.toUTF8.size ≤ n := by
  simp [exceeds]

namespace Chain

variable {first last : Sink} {ws : List Write} {n : Nat}

/-- If every piece fits, all output does. -/
lemma size_le (h : Chain first ws last) (hfirst : first.written.size ≤ n)
    (hfits : ws.find? (exceeds n) = none) : last.written.size ≤ n := by
  induction ws generalizing first with
  | nil =>
    rw [Chain] at h
    rwa [h]
  | cons w ws ih =>
    obtain ⟨hbefore, hrest⟩ := h
    obtain ⟨hw, hfits⟩ : w.exceeds n = false ∧ ws.find? (exceeds n) = none := by
      rw [List.find?_eq_none, List.forall_mem_cons] at hfits
      exact ⟨Bool.eq_false_iff.mpr hfits.1, List.find?_eq_none.mpr hfits.2⟩
    refine ih hrest ?_ hfits
    rw [Sink.add, ByteArray.size_append, ← hbefore]
    exact exceeds_eq_false_iff.mp hw

/-- The first piece that does not fit starts within the limit, and what is written then, up to the
limit, is the beginning of all output. -/
lemma cut_eq {w : Write} (h : Chain first ws last) (hfirst : first.written.size ≤ n)
    (hw : ws.find? (exceeds n) = some w) :
    w.before.output.written.size ≤ n ∧ n < last.written.size ∧
      w.cut n =
        { w.before with output := ⟨last.written.extract 0 n, .upTo n, first.flushes⟩ } := by
  induction ws generalizing first with
  | nil => cases hw
  | cons v ws ih =>
    obtain ⟨hbefore, hrest⟩ := h
    cases hv : v.exceeds n with
    | true =>
      rw [List.find?_cons_of_pos hv] at hw
      obtain rfl : v = w := Option.some.inj hw
      obtain ⟨more, rfl⟩ := hrest.exists_add
      have hn : n < (first.written ++ v.text.toUTF8).size := by
        rw [ByteArray.size_append, ← hbefore]
        exact of_decide_eq_true hv
      have hextract : (first.written ++ v.text.toUTF8 ++ more).extract 0 n =
          (first.written ++ v.text.toUTF8).extract 0 n := by
        rw [ByteArray.extract_append, Nat.sub_eq_zero_of_le (Nat.le_of_lt hn)]
        simp
      refine ⟨hbefore ▸ hfirst, ?_, ?_⟩
      · rw [Sink.add, ByteArray.size_append]
        exact Nat.lt_add_right _ hn
      · rw [cut, hbefore, ← hextract]
        rfl
    | false =>
      rw [List.find?_cons_of_neg (by simp [hv])] at hw
      have hfits : (first.add v.text.toUTF8).written.size ≤ n := by
        rw [Sink.add, ByteArray.size_append, ← hbefore]
        exact exceeds_eq_false_iff.mp hv
      obtain ⟨hstart, hmore, hcut⟩ := ih hrest hfits hw
      exact ⟨hstart, hmore, hcut⟩

end Chain

end Write

/-! ### Statements with a limit -/

namespace Machine

/-- The output of the machine is within a limit that it does not have. -/
structure Within (n : Nat) (m : Machine) : Prop where
  neverFails : m.output.NeverFails
  size_le : m.output.written.size ≤ n

lemma limit_remarked (n : Nat) (m : Machine) (remark : Option Remark) (span : Span) :
    (m.limit n).remarked remark span = (m.remarked remark span).limit n := by
  cases remark <;> rfl

lemma Within.remarked {n : Nat} {m : Machine} (h : m.Within n) (remark : Option Remark)
    (span : Span) : (m.remarked remark span).Within n :=
  ⟨by simpa using h.neverFails, by simpa using h.size_le⟩

/-- Text is written as without a limit if it fits, and else up to the limit. -/
lemma wrote_limit {n : Nat} {m : Machine} (h : m.Within n) (text : String) :
    (m.limit n).wrote text =
      if (Write.mk m text).exceeds n then ((Write.mk m text).cut n, some Intake.limitCause)
      else ((m.wrote text).1.limit n, none) := by
  have hwrite := Sink.write_upTo text.toUTF8 m.output.flushes h.size_le
  rw [wrote, limit, hwrite, wrote_of_neverFails h.neverFails]
  cases hexceeds : (Write.mk m text).exceeds n with
  | true =>
    have htoo : ¬ m.output.written.size + text.toUTF8.size ≤ n :=
      Nat.not_le.mpr (of_decide_eq_true hexceeds)
    rw [if_neg htoo]
    rfl
  | false =>
    rw [if_pos (Write.exceeds_eq_false_iff.mp hexceeds)]
    rfl

end Machine

/-- A computation under a limit, from what it writes and how it ends without: it fails at the first
piece that does not fit. -/
def Exec.cut {α : Type} (n : Nat) (ws : List Write) (r : EStateM.Result Fault Machine α) :
    EStateM.Result Fault Machine α :=
  match ws.find? (Write.exceeds n) with
  | none => limit n r
  | some w => .error (.output Intake.limitCause) (w.cut n)

namespace Exec

variable {n : Nat} {m : Machine}

/-- Reading a value under a limit can fail at the prompt, before a line is taken. -/
lemma readValue_limit (h : m.Within n) :
    readValue (m.limit n) = cut n [⟨m, m.prompt⟩] (readValue m) := by
  have hprompt : (m.limit n).prompt = m.prompt := rfl
  have hinput : (m.limit n).input = m.input := rfl
  rw [readValue_of_neverFails h.neverFails, readValue_eq, hprompt, Machine.wrote_limit h, cut,
    List.find?_singleton]
  cases (Write.mk m m.prompt).exceeds n with
  | true => rfl
  | false =>
    have hflush {m : Machine} (h : m.output.flushes = .granted) :
        (m.limit n).output.flush = ((m.limit n).output, none) := Sink.flush_of_granted h
    have hasked : (m.wrote m.prompt).1.output.flushes = .granted := by
      rw [Machine.wrote_of_neverFails h.neverFails]
      exact h.neverFails.flushes
    simp only [Bool.false_eq_true, if_false, Machine.flushed, hflush hasked]
    rw [Machine.wrote_of_neverFails h.neverFails]
    rw [hinput]
    cases m.input.read.2 <;> rfl

/-- Reading values under a limit can fail at a later prompt, when values before it are read. -/
lemma readInto_limit (names : List String) (h : m.Within n) :
    readInto names (m.limit n) = cut n (writesInto names m) (readInto names m) := by
  induction names generalizing m with
  | nil => rfl
  | cons name names ih =>
    rw [readInto, bind_eq, bind_eq, readValue_limit h, writesInto]
    cases hexceeds : (Write.mk m m.prompt).exceeds n with
    | true =>
      rw [cut, cut, List.find?_cons_of_pos hexceeds, List.find?_cons_of_pos hexceeds]
    | false =>
      have hfits : ¬ (Write.mk m m.prompt).exceeds n = true := by simp [hexceeds]
      have houtput := output_readValue h.neverFails
      rw [cut, cut, List.find?_cons_of_neg hfits, List.find?_cons_of_neg hfits]
      cases hread : readValue m with
      | error f m' => rfl
      | ok v m' =>
        rw [hread] at houtput
        have houtput : m'.output = m.output.add m.prompt.toUTF8 := houtput
        have hwithin : ({ m' with symbols := m'.symbols.set name v } : Machine).Within n := by
          refine ⟨?_, ?_⟩
          · rw [houtput]
            exact h.neverFails.add _
          · rw [houtput, Sink.add, ByteArray.size_append]
            exact Write.exceeds_eq_false_iff.mp hexceeds
        exact ih hwithin

end Exec

/-- A statement under a limit does what it does without, up to the first piece of output that does
not fit. -/
theorem Statement.execute_limit {n : Nat} (s : Statement) {m : Machine} (h : m.Within n) :
    s.execute (m.limit n) = Exec.cut n (s.writes m) (s.execute m) := by
  have hsymbols (m : Machine) : (m.limit n).symbols = m.symbols := rfl
  have hstack (m : Machine) : (m.limit n).stack = m.stack := rfl
  induction s generalizing m with
  | assign name e span =>
    rw [execute_assign, execute_assign, hsymbols]
    cases e.evaluate m.symbols <;> rfl
  | print item span =>
    rw [execute_print, execute_print, hsymbols, writes]
    cases printed m.symbols item with
    | error f => rfl
    | ok v =>
      have hremarked := h.remarked v.printRemark? span
      dsimp only
      rw [Machine.limit_remarked, Machine.wrote_limit hremarked,
        Machine.wrote_of_neverFails hremarked.neverFails, Exec.cut, List.find?_singleton]
      cases Write.exceeds n ⟨m.remarked v.printRemark? span, v.text ++ "\n"⟩ <;> rfl
  | ifThen c t span ih =>
    rw [execute_ifThen, execute_ifThen, hsymbols, writes]
    cases c.evaluate m.symbols with
    | error f => rfl
    | ok v =>
      dsimp only
      rw [Machine.limit_remarked, ih (h.remarked _ _)]
      split <;> rfl
  | ifThenElse c t e span iht ihe =>
    rw [execute_ifThenElse, execute_ifThenElse, hsymbols, writes]
    cases c.evaluate m.symbols with
    | error f => rfl
    | ok v =>
      dsimp only
      rw [Machine.limit_remarked, iht (h.remarked _ _), ihe (h.remarked _ _)]
      split <;> rfl
  | goto target span =>
    rw [execute_goto, execute_goto, hsymbols, hstack]
    cases target.target m.symbols with
    | error f => rfl
    | ok line =>
      dsimp only
      split <;> rfl
  | gosub target span =>
    rw [execute_gosub, execute_gosub, hsymbols, hstack]
    cases target.target m.symbols with
    | error f => rfl
    | ok line =>
      dsimp only
      rw [Machine.limit_remarked]
      rfl
  | ret span =>
    rw [execute_ret, execute_ret, hstack]
    cases m.stack.ret <;> rfl
  | input names span =>
    rw [execute_input, execute_input, Exec.readInto_limit names h, writes, Exec.cut, Exec.cut]
    cases (Exec.writesInto names m).find? (Write.exceeds n) with
    | none => cases Exec.readInto names m <;> rfl
    | some w => rfl
  | halt span => rfl

/-! ### Steps and runs with a limit -/

/-- The failure at a piece that does not fit: it stands at the line that writes the piece. -/
def Write.failure (p : Program) (w : Write) : Failure :=
  ⟨.output Intake.limitCause, some w.before.stack.line,
    (p.lineAt? w.before.stack.line).map (·.statement.span)⟩

/-- A step under a limit, from what it writes and where it leads without. -/
def Transition.cut (p : Program) (n : Nat) (ws : List Write) (t : Transition) : Transition :=
  match ws.find? (Write.exceeds n) with
  | none => t.limit n
  | some w => .failed (w.failure p) (w.cut n)

/-- A run under a limit, from what it writes and how it ends without. -/
def RunResult.cut (p : Program) (n : Nat) (ws : List Write) (r : RunResult) : RunResult :=
  match ws.find? (Write.exceeds n) with
  | none => r.limit n
  | some w => .ended (.error (w.failure p)) (w.cut n)

namespace Machine

variable {p : Program} {n : Nat} {m : Machine}

lemma advance_limit (k : Nat) (m : Machine) :
    (m.limit n).advance p k = (m.advance p k).limit n := by
  rw [advance, advance]
  cases p.next? k <;> rfl

lemma follow_limit (k : Nat) (flow : Flow) (m : Machine) :
    (m.limit n).follow p k flow = (m.follow p k flow).limit n := by
  have hstate : (m.limit n).state = m.state := rfl
  have hstack : (m.limit n).stack = m.stack := rfl
  rw [follow.eq_def, follow.eq_def, hstate, hstack]
  split
  · rfl
  · cases flow with
    | next => exact advance_limit k m
    | jump => rfl
    | call => rfl
    | ret =>
      dsimp only
      cases lineIndex? m.stack.line with
      | none => rfl
      | some caller => exact advance_limit caller m

/-- A step under a limit leads where it leads without, or fails at the first piece of output that
does not fit. -/
theorem step_limit (h : m.Within n) :
    (m.limit n).step p = (m.step p).cut p n (m.stepWrites p) := by
  have hstack : (m.limit n).stack = m.stack := rfl
  cases hl : p.lineAt? m.stack.line with
  | none =>
    rw [step, step, stepWrites, hstack, hl]
    rfl
  | some l =>
    rw [step_of_lineAt? (hstack ▸ hl), step_of_lineAt? hl, stepWrites, hl, hstack,
      l.statement.execute_limit h, Exec.cut, Transition.cut]
    cases hw : (l.statement.writes m).find? (Write.exceeds n) with
    | none =>
      cases l.statement.execute m with
      | error f m' => rfl
      | ok flow m' => exact follow_limit l.number flow m'
    | some w =>
      obtain ⟨_, _, _, _, hbefore, -⟩ :=
        Statement.before_eq_of_mem_writes (List.mem_of_find?_eq_some hw)
      have hline : w.before.stack = m.stack := by rw [hbefore]
      dsimp only
      rw [Write.failure, hline, hl]
      rfl

/-- A step that writes nothing beyond the limit stays within it. -/
lemma Within.step (h : m.Within n) (hfits : (m.stepWrites p).find? (Write.exceeds n) = none) :
    (m.step p).machine.Within n := by
  have hchain := chain_stepWrites (p := p) h.neverFails
  exact ⟨h.neverFails.of_chain hchain, hchain.size_le h.size_le hfits⟩

lemma finish_limit (m : Machine) : (m.limit n).finish = m.finish.limit n := by
  rw [finish_eq, finish_eq]
  rfl

lemma resume_limit (fuel : Nat) (h : m.Within n) :
    (m.limit n).resume p fuel =
      (m.resume p fuel).cut p n ((m.resumeStages p fuel).flatMap (stepWrites p)) := by
  induction fuel generalizing m with
  | zero => rfl
  | succ fuel ih =>
    rw [resume, resume, resumeStages, List.flatMap_cons, step_limit h, Transition.cut,
      RunResult.cut, List.find?_append]
    cases hw : (m.stepWrites p).find? (Write.exceeds n) with
    | some w => rfl
    | none =>
      have hwithin := h.step hw
      cases hstep : m.step p with
      | next m' =>
        rw [hstep] at hwithin
        exact ih hwithin
      | done m' => exact finish_limit m'
      | failed f m' => rfl

/-- A run under a limit goes as it goes without, or fails at the first piece of output that does
not fit. -/
theorem run_limit (fuel : Nat) (h : m.Within n) :
    (m.limit n).run p fuel = (m.run p fuel).cut p n (m.writes p fuel) := by
  rw [run, run, writes, stages]
  cases p.first? with
  | none => rfl
  | some first =>
    have hreset : (m.reset p first).Within n := ⟨h.neverFails, h.size_le⟩
    exact resume_limit fuel hreset

/-- A limit on the output only cuts a run. If the output of the run without a limit fits, the run
under the limit has the same result, with the same output, variables and warnings. Otherwise it
fails at the line that is executed when the first byte too many is written, with as many bytes of
that output as the limit allows, and all else is as the run without a limit has it just before this
piece of output. -/
theorem run_limited (p : Program) (m₀ : Machine) (n fuel : Nat) :
    let free : Machine := { m₀ with output := .unlimited }
    let limited : Machine := { m₀ with output := .limited n }
    let output := (free.run p fuel).machine.output.written
    (output.size ≤ n → limited.run p fuel = (free.run p fuel).limit n) ∧
    (n < output.size → ∃ k m l w, free.run p k = .unfinished m ∧
      p.lineAt? m.stack.line = some l ∧ w ∈ l.statement.writes m ∧ w.before.stack = m.stack ∧
      w.before.output.written.size ≤ n ∧
      n < w.before.output.written.size + w.text.toUTF8.size ∧
      limited.run p fuel =
        .ended (.error ⟨.output Intake.limitCause, some m.stack.line, some l.statement.span⟩)
          { w.before with output := ⟨output.extract 0 n, .upTo n, .granted⟩ }) := by
  intro free limited output
  have hwithin : free.Within n := ⟨⟨rfl, rfl⟩, Nat.zero_le n⟩
  have hchain := chain_writes (p := p) fuel hwithin.neverFails
  have hrun : limited.run p fuel = (free.run p fuel).cut p n (free.writes p fuel) :=
    run_limit fuel hwithin
  rw [RunResult.cut] at hrun
  cases hfind : (free.writes p fuel).find? (Write.exceeds n) with
  | none =>
    rw [hfind] at hrun
    have hsize : output.size ≤ n := hchain.size_le hwithin.size_le hfind
    exact ⟨fun _ => hrun, fun hmore => absurd hsize (Nat.not_le.mpr hmore)⟩
  | some w =>
    rw [hfind] at hrun
    obtain ⟨hstart, hmore, hcut⟩ := hchain.cut_eq hwithin.size_le hfind
    refine ⟨fun hsize => absurd hsize (Nat.not_le.mpr hmore), fun _ => ?_⟩
    have hexceeds : w.exceeds n = true := List.find?_some hfind
    obtain ⟨k, m, l, hm, hl, hw⟩ := exists_of_mem_writes (List.mem_of_find?_eq_some hfind)
    obtain ⟨_, _, _, _, hbefore, -⟩ := Statement.before_eq_of_mem_writes hw
    have hstack : w.before.stack = m.stack := by rw [hbefore]
    refine ⟨k, m, l, w, hm, hl, hw, hstack, hstart, of_decide_eq_true hexceeds, ?_⟩
    dsimp only at hrun
    rw [hrun, hcut, Write.failure, hstack, hl]
    rfl

/-- `1 INPUT A,B`. -/
def pairProgram : Program where
  lines := [⟨1, .input ["A", "B"] ⟨2, 11⟩, ⟨0, 11⟩⟩]
  ascending := by decide

/-- The two prompts of `pairProgram` have four bytes. With room for three, the program fails in the
second prompt, when `A` is set and `B` is not. With room for four, it runs to its end. -/
theorem pairProgram_run_limited :
    let m₀ := Machine.start defaultPrompt "x\ny\n".toUTF8.toList .unlimited
    let limited (n : Nat) : RunResult :=
      ({ m₀ with output := .limited n } : Machine).run pairProgram 1
    (∃ m, limited 3 = .ended (.error ⟨.output Intake.limitCause, some 1, some ⟨2, 11⟩⟩) m ∧
      m.output.written = "? ?".toUTF8 ∧ m.symbols.get? "A" = some (.string "x") ∧
      m.symbols.get? "B" = some .unset ∧ m.input.lines = ["y\n".toUTF8.toList]) ∧
    limited 4 = (m₀.run pairProgram 1).limit 4 := by
  intro m₀ limited
  have hwritten : (m₀.run pairProgram 1).machine.output.written = "? ? ".toUTF8 := by
    decide +kernel
  have hsize : (m₀.run pairProgram 1).machine.output.written.size = 4 := by
    rw [hwritten]
    decide
  have hfree : { m₀ with output := .unlimited } = m₀ := rfl
  obtain ⟨hfits, -⟩ := run_limited pairProgram m₀ 4 1
  obtain ⟨-, hexceeds⟩ := run_limited pairProgram m₀ 3 1
  rw [hfree, hsize] at hfits hexceeds
  refine ⟨?_, hfits (Nat.le_refl 4)⟩
  obtain ⟨k, m, l, w, -, hl, -, hstack, -, -, hrun⟩ := hexceeds (Nat.lt_succ_self 3)
  have hstate : (limited 3).machine.stack.line = 1 ∧
      (limited 3).machine.symbols.get? "A" = some (.string "x") ∧
      (limited 3).machine.symbols.get? "B" = some .unset ∧
      (limited 3).machine.input.lines = ["y\n".toUTF8.toList] := by
    decide +kernel
  have hlimited : limited 3 = _ := hrun
  rw [hlimited] at hstate
  dsimp only [RunResult.machine] at hstate
  obtain ⟨hline, hA, hB, hinput⟩ := hstate
  have hline : m.stack.line = 1 := hstack ▸ hline
  have hspan : l.statement.span = ⟨2, 11⟩ := by
    rw [hline] at hl
    obtain rfl := Option.some.inj hl
    rfl
  rw [hline, hspan] at hlimited
  refine ⟨_, hlimited, ?_, hA, hB, hinput⟩
  exact (congrArg (ByteArray.extract · 0 3) hwritten).trans (by decide)

end Machine

end LineBasic
