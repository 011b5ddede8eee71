import LineBasic.Proofs.Machine.Effects
import LineBasic.Proofs.Machine.Stages

/-!
# What a run writes

The output of a run is written piece by piece: a line for each `PRINT`, and the prompt for each
variable of an `INPUT`.

* `Machine.writes`: the pieces that a run writes, in order;
* `Statement.before_eq_of_mem_writes`: what a statement has done before it writes;
* `Machine.exists_of_mem_writes`: each piece is written by a line that the run comes to;
* `Write.Chain`: each piece starts where the one before it ends;
* `Statement.chain_writes`, `Machine.chain_writes`: output that never fails is made up of these
  pieces.
-/

namespace LineBasic

namespace Machine

/-- What the line that the current frame is at writes. -/
def stepWrites (p : Program) (m : Machine) : List Write :=
  match p.lineAt? m.stack.line with
  | none => []
  | some l => l.statement.writes m

/-- What a run writes within `fuel` steps. -/
def writes (p : Program) (fuel : Nat) (m : Machine) : List Write :=
  (m.stages p fuel).flatMap (stepWrites p)

end Machine

/-! ### Before a piece is written -/

/-- When a prompt is written, earlier values have been read. -/
lemma Exec.before_eq_of_mem_writesInto {names : List String} {m : Machine} {w : Write}
    (h : w ∈ writesInto names m) :
    ∃ input output symbols,
      w.before = { m with input := input, output := output, symbols := symbols } ∧
        m.symbols.Extends names symbols := by
  induction names generalizing m with
  | nil => cases h
  | cons name names ih =>
    rw [writesInto] at h
    rcases List.mem_cons.mp h with rfl | hlater
    · exact ⟨_, _, _, rfl, .refl _ _⟩
    · obtain ⟨input, output, hmachine⟩ := machine_readValue m
      cases hread : readValue m with
      | error f m' =>
        rw [hread] at hlater
        cases hlater
      | ok v m' =>
        rw [hread] at hlater hmachine
        obtain rfl : m' = { m with input := input, output := output } := hmachine
        obtain ⟨input', output', symbols, hbefore, hextends⟩ := ih hlater
        refine ⟨input', output', symbols, hbefore, .trans (.set _ List.mem_cons_self v) ?_⟩
        exact hextends.mono fun other => List.mem_cons_of_mem name

namespace Statement

lemma Executes.before_eq {s : Statement} {m : Machine} {ws : List Write} {es : List Entry}
    {r : Outcome} (h : Executes s m ws es r) {w : Write} (hw : w ∈ ws) :
    ∃ input output symbols warnings,
      w.before =
          { m with input := input, output := output, symbols := symbols, warnings := warnings } ∧
        m.symbols.Extends s.assigned symbols := by
  have hread {names : List String} {m : Machine} (hw : w ∈ Exec.writesInto names m) :
      ∃ input output symbols warnings,
        w.before =
            { m with input := input, output := output, symbols := symbols, warnings := warnings } ∧
          m.symbols.Extends names symbols := by
    obtain ⟨input, output, symbols, hbefore, hextends⟩ := Exec.before_eq_of_mem_writesInto hw
    exact ⟨input, output, symbols, m.warnings, hbefore, hextends⟩
  induction h with
  | prints =>
    rw [List.mem_singleton.mp hw, Machine.remarked_eq]
    exact ⟨_, _, _, _, rfl, .refl _ _⟩
  | refused =>
    rw [List.mem_singleton.mp hw, Machine.remarked_eq]
    exact ⟨_, _, _, _, rfl, .refl _ _⟩
  | branches htakes _ ih =>
    obtain ⟨input, output, symbols, warnings, hbefore, hextends⟩ := ih hw
    rw [Machine.remarked_eq] at hbefore hextends
    exact ⟨input, output, symbols, warnings, hbefore,
      hextends.mono fun name => htakes.mem_assigned⟩
  | reads => exact hread hw
  | readFails => exact hread hw
  | _ => cases hw

/-- Before a statement writes, it has not touched the call stack, and it has declared no variables
but those that it assigns. -/
theorem before_eq_of_mem_writes {s : Statement} {m : Machine} {w : Write} (h : w ∈ s.writes m) :
    ∃ input output symbols warnings,
      w.before =
          { m with input := input, output := output, symbols := symbols, warnings := warnings } ∧
        m.symbols.Extends s.assigned symbols :=
  (s.executes m).before_eq h

end Statement

namespace Machine

variable {p : Program} {fuel : Nat} {m : Machine} {w : Write}

/-- A piece of output is written by the statement of a line that the run comes to. -/
theorem exists_of_mem_writes (h : w ∈ m.writes p fuel) :
    ∃ k m' l, m.run p k = .unfinished m' ∧ p.lineAt? m'.stack.line = some l ∧
      w ∈ l.statement.writes m' := by
  obtain ⟨m', hstage, hw⟩ := List.mem_flatMap.mp h
  obtain ⟨k, -, hm'⟩ := exists_of_mem_stages hstage
  rw [stepWrites] at hw
  cases hl : p.lineAt? m'.stack.line with
  | none =>
    rw [hl] at hw
    cases hw
  | some l =>
    rw [hl] at hw
    exact ⟨k, m', l, hm', hl, hw⟩

end Machine

/-! ### Pieces in a row -/

namespace Sink

lemma add_empty (s : Sink) : s.add .empty = s := by
  rw [add, ByteArray.append_empty]

lemma add_add (s : Sink) (bytes more : ByteArray) :
    (s.add bytes).add more = s.add (bytes ++ more) := by
  simp only [add, ByteArray.append_assoc]

end Sink

namespace Write

/-- The pieces lead from the output `first` to the output `last`: each starts where the one before
it ends. -/
def Chain : Sink → List Write → Sink → Prop
  | first, [], last => last = first
  | first, w :: ws, last => w.before.output = first ∧ Chain (first.add w.text.toUTF8) ws last

namespace Chain

variable {first middle last : Sink} {ws vs : List Write}

lemma append (h : Chain first ws middle) (h' : Chain middle vs last) :
    Chain first (ws ++ vs) last := by
  induction ws generalizing first with
  | nil =>
    rw [Chain] at h
    exact h ▸ h'
  | cons w ws ih => exact ⟨h.1, ih h.2⟩

/-- Pieces only add to the output. -/
lemma exists_add (h : Chain first ws last) : ∃ bytes, last = first.add bytes := by
  induction ws generalizing first with
  | nil => exact ⟨.empty, h.trans first.add_empty.symm⟩
  | cons w ws ih =>
    obtain ⟨bytes, hlast⟩ := ih h.2
    exact ⟨w.text.toUTF8 ++ bytes, hlast.trans (first.add_add _ _)⟩

end Chain

end Write

/-- Output that never fails still does not. -/
lemma Sink.NeverFails.of_chain {first last : Sink} {ws : List Write} (h : first.NeverFails)
    (hchain : Write.Chain first ws last) : last.NeverFails := by
  obtain ⟨bytes, rfl⟩ := hchain.exists_add
  exact h.add bytes

namespace Exec

/-- Reading a value writes the prompt. -/
lemma output_readValue {m : Machine} (h : m.output.NeverFails) :
    (machineAfter (readValue m)).output = m.output.add m.prompt.toUTF8 := by
  rw [readValue_of_neverFails h]
  cases m.input.read.2 <;> rfl

/-- Reading values writes one prompt after another. -/
lemma chain_writesInto (names : List String) {m : Machine} (h : m.output.NeverFails) :
    Write.Chain m.output (writesInto names m) (machineAfter (readInto names m)).output := by
  induction names generalizing m with
  | nil => exact rfl
  | cons name names ih =>
    have houtput := output_readValue h
    rw [readInto, bind_eq, writesInto]
    cases hread : readValue m with
    | error f m' =>
      rw [hread] at houtput
      exact ⟨rfl, houtput⟩
    | ok v m' =>
      rw [hread] at houtput
      have houtput : m'.output = m.output.add m.prompt.toUTF8 := houtput
      have hnext : { m' with symbols := m'.symbols.set name v }.output.NeverFails := by
        rw [houtput]
        exact h.add _
      refine ⟨rfl, ?_⟩
      dsimp only
      rw [← houtput]
      exact ih hnext

end Exec

namespace Statement

lemma Executes.chain {s : Statement} {m : Machine} {ws : List Write} {es : List Entry}
    {r : Outcome} (h : Executes s m ws es r) (hnever : m.output.NeverFails) :
    Write.Chain m.output ws (Exec.machineAfter r).output := by
  induction h with
  | @prints _ span m v hv =>
    have hremarked : (m.remarked v.printRemark? span).output.NeverFails := by simpa using hnever
    rw [Machine.wrote_of_neverFails hremarked, ← m.output_remarked v.printRemark? span]
    exact ⟨rfl, rfl⟩
  | @refused _ span m v _ hv hwrote =>
    have hremarked : (m.remarked v.printRemark? span).output.NeverFails := by simpa using hnever
    rw [Machine.wrote_of_neverFails hremarked] at hwrote
    cases hwrote
  | passes => exact Machine.output_remarked ..
  | branches _ _ ih => simpa using ih (by simpa using hnever)
  | calls => exact Machine.output_remarked ..
  | @reads names _ m m' hread =>
    have hchain := Exec.chain_writesInto names hnever
    rwa [hread] at hchain
  | @readFails names _ m m' f hread =>
    have hchain := Exec.chain_writesInto names hnever
    rwa [hread] at hchain
  | _ => exact rfl

/-- What a statement writes is made up of its pieces. -/
theorem chain_writes (s : Statement) {m : Machine} (h : m.output.NeverFails) :
    Write.Chain m.output (s.writes m) (Exec.machineAfter (s.execute m)).output :=
  (s.executes m).chain h

end Statement

namespace Machine

variable {p : Program}

/-- What a step writes is made up of its pieces. -/
lemma chain_stepWrites {m : Machine} (h : m.output.NeverFails) :
    Write.Chain m.output (m.stepWrites p) (m.step p).machine.output := by
  cases hl : p.lineAt? m.stack.line with
  | none =>
    rw [step, stepWrites, hl]
    exact rfl
  | some l =>
    obtain ⟨line, state, hm⟩ := machine_step hl
    rw [stepWrites, hl, hm]
    exact l.statement.chain_writes h

lemma chain_resume (fuel : Nat) {m : Machine} (h : m.output.NeverFails) :
    Write.Chain m.output ((m.resumeStages p fuel).flatMap (stepWrites p))
      (m.resume p fuel).machine.output := by
  induction fuel generalizing m with
  | zero => exact rfl
  | succ fuel ih =>
    have hchain := chain_stepWrites (p := p) h
    rw [resume]
    cases hstep : m.step p with
    | next m' =>
      rw [hstep] at hchain
      rw [resumeStages_of_next hstep, List.flatMap_cons]
      exact hchain.append (ih (h.of_chain hchain))
    | done m' =>
      rw [hstep] at hchain
      have hnever : m'.output.NeverFails := h.of_chain hchain
      rw [resumeStages_of_end (by simp [hstep]), List.flatMap_singleton]
      dsimp only
      rw [finish_of_neverFails hnever]
      exact hchain
    | failed f m' =>
      rw [hstep] at hchain
      rw [resumeStages_of_end (by simp [hstep]), List.flatMap_singleton]
      exact hchain

/-- The output of a run is made up of its pieces. -/
theorem chain_writes (fuel : Nat) {m : Machine} (h : m.output.NeverFails) :
    Write.Chain m.output (m.writes p fuel) (m.run p fuel).machine.output := by
  rw [writes, stages, run]
  cases p.first? with
  | none => exact rfl
  | some first =>
    have hreset : (m.reset p first).output.NeverFails := h
    exact chain_resume fuel hreset

end Machine

end LineBasic
