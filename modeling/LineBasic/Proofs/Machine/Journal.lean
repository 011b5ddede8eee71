import LineBasic.Proofs.Machine.Failing
import LineBasic.Proofs.Machine.Stages
import LineBasic.Proofs.Machine.Writes
import LineBasic.Proofs.Text.Lines

/-!
# The journal of a run

What a run does to its variables, its output and its input, written down entry by entry. On an
output that never fails the journal accounts for all three of them.

* `Machine.journal`: the entries of a run, in order;
* `Exec.stored_of_readInto`: an `INPUT` that succeeds stores a value into each of its variables;
* `Machine.Records`: entries account for the way from one machine to another;
* `Statement.records`, `Machine.records_step`, `Machine.exists_records_run`: the entries of a
  statement, a step and a run do;
* `Machine.run_reads`: so each line of input is read once and in its order.
-/

namespace LineBasic

/-! ### Entries -/

namespace Entry

/-- The variable that is set and its value. -/
def change? : Entry → Option (String × Value)
  | assigned name v => some (name, v)
  | stored name v => some (name, v)
  | _ => none

/-- The variable that is set by an `INPUT` and its value. -/
def stored? : Entry → Option (String × Value)
  | stored name v => some (name, v)
  | _ => none

def isPrompt : Entry → Bool
  | prompted => true
  | _ => false

/-- What is written. -/
def text (prompt : String) : Entry → String
  | printed text => text
  | prompted => prompt
  | _ => ""

/-- What a list of entries writes. -/
def written (prompt : String) (es : List Entry) : ByteArray :=
  (String.join (es.map (text prompt))).toUTF8

lemma written_nil (prompt : String) : written prompt [] = .empty := by
  rw [written, List.map_nil, String.join_nil]
  rfl

lemma written_append (prompt : String) (es es' : List Entry) :
    written prompt (es ++ es') = written prompt es ++ written prompt es' := by
  rw [written, List.map_append, String.join_append]
  exact String.toByteArray_append

end Entry

/-- The value that a line of input is read as, if it is text. -/
def Value.ofLine? (line : List UInt8) : Option Value := (Text.ofBytes? line).map ofInputLine

namespace Machine

/-- The entries of the line that the current frame is at. -/
def entries (p : Program) (m : Machine) : List Entry :=
  match m.line? p with
  | none => []
  | some l => l.statement.entries m

/-- The journal of the first `fuel` steps of a run. -/
def journal (p : Program) (fuel : Nat) (m : Machine) : List Entry :=
  (m.stages p fuel).flatMap (entries p)

end Machine

/-! ### Faults -/

/-- Whether a fault is about a line of input. -/
def Fault.isInput : Fault → Bool
  | .input _ => true
  | _ => false

/-- The fault that a computation ends with, if there is one. -/
def Exec.fault? {α : Type} : EStateM.Result Fault Machine α → Option Fault
  | .ok _ _ => none
  | .error f _ => some f

/-- The fault that a step ends with, if there is one. -/
def Transition.fault? : Transition → Option Fault
  | .failed f _ => some f.fault
  | _ => none

/-- The fault that a run has ended with, if there is one. -/
def RunResult.fault? : RunResult → Option Fault
  | .ended (.error f) _ => some f.fault
  | _ => none

namespace Expr

variable {symbols : Symbols} {e : Expr} {f : Fault}

/-- An expression reads no input. -/
lemma isInput_of_evaluate (h : e.evaluate symbols = .error f) : f.isInput = false := by
  induction e generalizing f with
  | ident name span =>
    rw [evaluate] at h
    cases hget : symbols.get? name with
    | none =>
      rw [hget] at h
      cases h
      rfl
    | some v =>
      rw [hget] at h
      cases h
  | number x span => cases h
  | string s span => cases h
  | binary op l r span ihl ihr =>
    rw [evaluate] at h
    cases hl : l.evaluate symbols with
    | error g =>
      rw [hl] at h
      cases h
      exact ihl hl
    | ok a =>
      cases hr : r.evaluate symbols with
      | error g =>
        rw [hl, hr] at h
        cases h
        exact ihr hr
      | ok b =>
        rw [hl, hr] at h
        dsimp only at h
        cases hop : Value.binary op a b with
        | error cause =>
          rw [hop] at h
          cases h
          rfl
        | ok v =>
          rw [hop] at h
          cases h

lemma isInput_of_target (h : e.target symbols = .error f) : f.isInput = false := by
  rw [target] at h
  cases he : e.evaluate symbols with
  | error g =>
    rw [he] at h
    cases h
    exact isInput_of_evaluate he
  | ok v =>
    rw [he] at h
    cases v with
    | number x => cases h
    | _ =>
      cases h
      rfl

end Expr

/-- A statement that fails before it does anything has read no input. -/
lemma Statement.Fails.isInput {m : Machine} {s : Statement} {f : Fault} (h : s.Fails m f) :
    f.isInput = false := by
  cases h with
  | assign he => exact Expr.isInput_of_evaluate he
  | print he => exact Expr.isInput_of_evaluate he
  | ifThen hc => exact Expr.isInput_of_evaluate hc
  | ifThenElse hc => exact Expr.isInput_of_evaluate hc
  | goto htarget => exact Expr.isInput_of_target htarget
  | gosub htarget => exact Expr.isInput_of_target htarget
  | below => rfl
  | ret => rfl

/-! ### Accounts -/

namespace Machine

/-- The entries account for the way from the machine `m` to the machine `m'`, which ends with the
fault given, if any. The variables are set in the order of the entries, and what the entries write
is added to the output. The lines that are taken from the input give the stored values; one more
line is taken if it is not text. There is a prompt for each stored value, and one more if reading
fails. -/
structure Records (m : Machine) (es : List Entry) (fault : Option Fault) (m' : Machine) : Prop where
  prompt : m'.prompt = m.prompt
  symbols : m'.symbols = m.symbols.setAll (es.filterMap Entry.change?)
  output : m'.output = m.output.add (Entry.written m.prompt es)
  reads : ∃ read, m.input.lines = read ++ m'.input.lines ∧
    read.map Value.ofLine? = (es.filterMap Entry.stored?).map (fun e => some e.2) ++
      if fault = some (.input .notText) then [none] else []
  prompts : es.countP Entry.isPrompt =
    (es.filterMap Entry.stored?).length + if fault.any Fault.isInput then 1 else 0
  exhausts : fault = some (.input .endOfInput) → m'.input.lines = []

namespace Records

variable {m m' m'' : Machine} {es es' : List Entry} {fault : Option Fault}

/-- Nothing to account for. -/
lemma nil (hprompt : m'.prompt = m.prompt) (hsymbols : m'.symbols = m.symbols)
    (houtput : m'.output = m.output) (hinput : m'.input = m.input)
    (hfault : fault.any Fault.isInput = false) : m.Records [] fault m' where
  prompt := hprompt
  symbols := hsymbols
  output := by rw [houtput, Entry.written_nil, Sink.add_empty]
  reads := by
    refine ⟨[], by rw [hinput, List.nil_append], ?_⟩
    rw [if_neg]
    · rfl
    · rintro rfl
      cases hfault
  prompts := by
    rw [hfault]
    rfl
  exhausts := by
    rintro rfl
    cases hfault

/-- One account after another. -/
lemma trans (h : m.Records es none m') (h' : m'.Records es' fault m'') :
    m.Records (es ++ es') fault m'' where
  prompt := h'.prompt.trans h.prompt
  symbols := by
    rw [h'.symbols, h.symbols, List.filterMap_append]
    exact List.foldl_append.symm
  output := by rw [h'.output, h.output, h.prompt, Entry.written_append, Sink.add_add]
  reads := by
    obtain ⟨read, hinput, hvalues⟩ := h.reads
    obtain ⟨read', hinput', hvalues'⟩ := h'.reads
    refine ⟨read ++ read', by rw [hinput, hinput', List.append_assoc], ?_⟩
    rw [List.map_append, hvalues, hvalues', List.filterMap_append, List.map_append]
    simp
  prompts := by
    rw [List.countP_append, h.prompts, h'.prompts, List.filterMap_append, List.length_append]
    simp [Nat.add_assoc]
  exhausts := h'.exhausts

/-- An account goes on to a machine with the same variables, output and input. -/
lemma of_eq (h : m.Records es fault m') (hprompt : m''.prompt = m'.prompt)
    (hsymbols : m''.symbols = m'.symbols) (houtput : m''.output = m'.output)
    (hinput : m''.input = m'.input) : m.Records es fault m'' where
  prompt := hprompt.trans h.prompt
  symbols := hsymbols.trans h.symbols
  output := houtput.trans h.output
  reads := by rw [hinput]; exact h.reads
  prompts := h.prompts
  exhausts := by rw [hinput]; exact h.exhausts

/-- Remarks are not accounted for. -/
lemma of_remarked (remark : Option Remark) (span : Span)
    (h : (m.remarked remark span).Records es fault m') : m.Records es fault m' := by
  rw [m.remarked_eq] at h
  exact ⟨h.prompt, h.symbols, h.output, h.reads, h.prompts, h.exhausts⟩

/-- An output that never fails still does not. -/
lemma neverFails (h : m.Records es fault m') (hm : m.output.NeverFails) :
    m'.output.NeverFails := by
  rw [h.output]
  exact hm.add _

end Records

end Machine

/-! ### Reading -/

namespace Exec

variable {m : Machine}

/-- A prompt, and the value that is read and stored. -/
lemma records_readValue {m' : Machine} {v : Value} (h : m.output.NeverFails)
    (hread : readValue m = .ok v m') (name : String) :
    m.Records [.prompted, .stored name v] none
      { m' with symbols := m'.symbols.set name v } := by
  have hreads := m.input.reads_read
  rw [readValue_of_neverFails h] at hread
  generalize m.input.read = result at hreads hread
  cases hreads with
  | text hlines htext =>
    cases hread
    exact {
      prompt := rfl
      symbols := rfl
      output := by simp [Entry.written, Entry.text]
      reads := ⟨[_], hlines, by rw [List.map_singleton, Value.ofLine?, htext]; rfl⟩
      prompts := rfl
      exhausts := by intro hfault; cases hfault }
  | _ => cases hread

/-- A prompt, and no value. -/
lemma records_readValue_of_error {m' : Machine} {f : Fault} (h : m.output.NeverFails)
    (hread : readValue m = .error f m') : m.Records [.prompted] (some f) m' := by
  have hreads := m.input.reads_read
  rw [readValue_of_neverFails h] at hread
  generalize m.input.read = result at hreads hread
  obtain ⟨input, line⟩ := result
  cases line with
  | ok text => cases hread
  | error cause =>
    cases hread
    exact {
      prompt := rfl
      symbols := rfl
      output := by simp [Entry.written, Entry.text]
      reads := by
        cases hreads with
        | device => exact ⟨[], rfl, rfl⟩
        | atEnd => exact ⟨[], rfl, rfl⟩
        | notText hlines htext =>
          exact ⟨[_], hlines, by simp [Value.ofLine?, htext, Entry.stored?]⟩
      prompts := rfl
      exhausts := by
        intro hfault
        cases hfault
        cases hreads with
        | atEnd hlines => exact hlines }

/-- The entries of reading values account for it. -/
lemma records_readInto (names : List String) (h : m.output.NeverFails) :
    m.Records (entriesInto names m) (fault? (readInto names m))
      (machineAfter (readInto names m)) := by
  induction names generalizing m with
  | nil => exact .nil rfl rfl rfl rfl rfl
  | cons name names ih =>
    rw [entriesInto]
    cases hread : readValue m with
    | error f m' =>
      rw [readInto_cons_of_error hread]
      exact records_readValue_of_error h hread
    | ok v m' =>
      have hstored := records_readValue h hread name
      rw [readInto_cons hread]
      exact hstored.trans (ih (hstored.neverFails h))

/-- Reading values that succeeds stores one into each variable, in order. -/
theorem stored_of_readInto {names : List String} {m' : Machine} (h : readInto names m = .ok () m') :
    ((entriesInto names m).filterMap Entry.stored?).map Prod.fst = names := by
  induction names generalizing m with
  | nil => rfl
  | cons name names ih =>
    rw [entriesInto]
    cases hread : readValue m with
    | error f m₁ =>
      rw [readInto_cons_of_error hread] at h
      cases h
    | ok v m₁ =>
      rw [readInto_cons hread] at h
      exact congrArg (name :: ·) (ih h)

end Exec

/-! ### Statements, steps and runs -/

lemma Statement.Executes.records {s : Statement} {m : Machine} {ws : List Write}
    {es : List Entry} {r : Outcome} (h : Executes s m ws es r) (hnever : m.output.NeverFails) :
    m.Records es (Exec.fault? r) (Exec.machineAfter r) := by
  induction h with
  | fails hfails => exact .nil rfl rfl rfl rfl hfails.isInput
  | assigns =>
    exact {
      prompt := rfl
      symbols := rfl
      output := by simp [Exec.machineAfter, Entry.written, Entry.text, Sink.add]
      reads := ⟨[], rfl, rfl⟩
      prompts := rfl
      exhausts := by intro hfault; cases hfault }
  | @prints _ span m v =>
    have hremarked : (m.remarked v.printRemark? span).output.NeverFails := by simpa using hnever
    rw [Machine.wrote_of_neverFails hremarked]
    refine .of_remarked v.printRemark? span ?_
    exact {
      prompt := rfl
      symbols := rfl
      output := by simp [Exec.machineAfter, Entry.written, Entry.text]
      reads := ⟨[], rfl, rfl⟩
      prompts := rfl
      exhausts := by intro hfault; cases hfault }
  | @refused _ span m v _ _ hwrote =>
    have hremarked : (m.remarked v.printRemark? span).output.NeverFails := by simpa using hnever
    rw [Machine.wrote_of_neverFails hremarked] at hwrote
    cases hwrote
  | passes => exact .of_remarked _ _ (.nil rfl rfl rfl rfl rfl)
  | branches _ _ ih => exact .of_remarked _ _ (ih (by simpa using hnever))
  | jumps => exact .nil rfl rfl rfl rfl rfl
  | calls =>
    rw [Machine.remarked_eq]
    exact .nil rfl rfl rfl rfl rfl
  | returns => exact .nil rfl rfl rfl rfl rfl
  | @reads names _ m m' hread =>
    have hrecords := Exec.records_readInto names hnever
    rwa [hread] at hrecords
  | @readFails names _ m m' f hread =>
    have hrecords := Exec.records_readInto names hnever
    rwa [hread] at hrecords
  | halts => exact .nil rfl rfl rfl rfl rfl

/-- The entries of a statement account for what it does. -/
theorem Statement.records (s : Statement) {m : Machine} (h : m.output.NeverFails) :
    m.Records (s.entries m) (Exec.fault? (s.execute m)) (Exec.machineAfter (s.execute m)) :=
  (s.executes m).records h

namespace Machine

variable {p : Program}

/-- A step ends with the fault of its statement. -/
lemma fault?_step {m : Machine} {l : Line} (hl : p.lineAt? m.stack.line = some l) :
    (m.step p).fault? = Exec.fault? (l.statement.execute m) := by
  rw [step_of_lineAt? hl]
  cases l.statement.execute m with
  | error f m' => rfl
  | ok flow m' =>
    dsimp only
    cases hfollow : m'.follow p l.number flow with
    | failed f m'' => exact absurd hfollow (follow_ne_failed _ _ _ _ _)
    | _ => rfl

/-- The entries of the line that is executed account for a step. -/
theorem records_step {m : Machine} (h : m.output.NeverFails) :
    m.Records (m.entries p) (m.step p).fault? (m.step p).machine := by
  cases hl : p.lineAt? m.stack.line with
  | none =>
    rw [step, entries, line?, hl]
    exact .nil rfl rfl rfl rfl rfl
  | some l =>
    obtain ⟨line, state, hm⟩ := machine_step hl
    rw [entries, line?, hl, hm, fault?_step hl]
    exact (l.statement.records h).of_eq rfl rfl rfl rfl

lemma records_resume (fuel : Nat) {m : Machine} (h : m.output.NeverFails) :
    m.Records ((m.resumeStages p fuel).flatMap (entries p)) (m.resume p fuel).fault?
      (m.resume p fuel).machine := by
  induction fuel generalizing m with
  | zero => exact .nil rfl rfl rfl rfl rfl
  | succ fuel ih =>
    have hrecords := records_step (p := p) h
    rw [resume]
    cases hstep : m.step p with
    | next m' =>
      rw [hstep] at hrecords
      rw [resumeStages_of_next hstep, List.flatMap_cons]
      exact hrecords.trans (ih (hrecords.neverFails h))
    | done m' =>
      rw [hstep] at hrecords
      have hnever : m'.output.NeverFails := hrecords.neverFails h
      rw [resumeStages_of_end (by simp [hstep]), List.flatMap_singleton]
      dsimp only
      rw [finish_of_neverFails hnever]
      exact hrecords
    | failed f m' =>
      rw [hstep] at hrecords
      rw [resumeStages_of_end (by simp [hstep]), List.flatMap_singleton]
      exact hrecords

/-- The journal of a run accounts for it. A run of a program without lines does nothing. -/
theorem exists_records_run (p : Program) {m₀ : Machine} (h : m₀.output.NeverFails) (fuel : Nat) :
    ∃ start : Machine, start.prompt = m₀.prompt ∧ start.output = m₀.output ∧
      start.input = m₀.input ∧ (p.isEmpty = false → start.symbols = .ofNames p.assigned) ∧
      start.Records (m₀.journal p fuel) (m₀.run p fuel).fault? (m₀.run p fuel).machine := by
  cases hlines : p.isEmpty with
  | true =>
    have hfirst : p.first? = none := by rw [Program.first?, List.isEmpty_iff.mp hlines]; rfl
    rw [journal, stages, hfirst, run_of_isEmpty hlines]
    exact ⟨m₀, rfl, rfl, rfl, fun h => Bool.noConfusion h, .nil rfl rfl rfl rfl rfl⟩
  | false =>
    obtain ⟨first, hfirst⟩ := Program.exists_first? hlines
    have hreset : (m₀.reset p first).output.NeverFails := h
    rw [journal, stages_of_first? hfirst, run_of_first? hfirst]
    exact ⟨m₀.reset p first, rfl, rfl, rfl, fun _ => rfl, records_resume fuel hreset⟩

/-! ### The lines read -/

namespace Records

variable {m m' : Machine} {es : List Entry} {fault : Option Fault}

/-- A value at a place of the lines taken is that of the line at the same place of the input. -/
lemma exists_line {read rest : List (List UInt8)} {k : Nat} {v? : Option Value}
    (h : (read.map Value.ofLine?)[k]? = some v?) :
    ∃ line, (read ++ rest)[k]? = some line ∧ Value.ofLine? line = v? := by
  rw [List.getElem?_map] at h
  obtain ⟨line, hline, hv⟩ := Option.map_eq_some_iff.mp h
  obtain ⟨hlt, -⟩ := List.getElem?_eq_some_iff.mp hline
  exact ⟨line, (List.getElem?_append_left hlt).trans hline, hv⟩

/-- The value stored at a place is that of the line at the same place. -/
lemma line_of_stored (h : m.Records es fault m') {k : Nat} {name : String} {v : Value}
    (hk : (es.filterMap Entry.stored?)[k]? = some (name, v)) :
    ∃ line text, m.input.lines[k]? = some line ∧ Text.ofBytes? line = some text ∧
      v = .ofInputLine text := by
  obtain ⟨read, hinput, hvalues⟩ := h.reads
  obtain ⟨hlt, -⟩ := List.getElem?_eq_some_iff.mp hk
  have hvalue : (read.map Value.ofLine?)[k]? = some (some v) := by
    rw [hvalues, List.getElem?_append_left (by rwa [List.length_map]), List.getElem?_map, hk]
    rfl
  obtain ⟨line, hline, hv⟩ := exists_line hvalue
  obtain ⟨text, htext, rfl⟩ := Option.map_eq_some_iff.mp hv
  exact ⟨line, text, hinput ▸ hline, htext, rfl⟩

/-- The line that is not text comes after the lines of the stored values. -/
lemma line_of_notText (h : m.Records es (some (.input .notText)) m') :
    ∃ line, m.input.lines[(es.filterMap Entry.stored?).length]? = some line ∧
      Text.ofBytes? line = none := by
  obtain ⟨read, hinput, hvalues⟩ := h.reads
  have hvalue : (read.map Value.ofLine?)[(es.filterMap Entry.stored?).length]? = some none := by
    rw [hvalues, List.getElem?_append_right (by simp)]
    simp
  obtain ⟨line, hline, hv⟩ := exists_line hvalue
  exact ⟨line, hinput ▸ hline, Option.map_eq_none_iff.mp hv⟩

/-- How many lines are taken from the input. -/
lemma exists_read (h : m.Records es fault m') :
    ∃ read, m.input.lines = read ++ m'.input.lines ∧
      read.length = (es.filterMap Entry.stored?).length +
        if fault = some (.input .notText) then 1 else 0 := by
  obtain ⟨read, hinput, hvalues⟩ := h.reads
  have hlength := congrArg List.length hvalues
  rw [List.length_map, List.length_append, List.length_map] at hlength
  refine ⟨read, hinput, hlength.trans ?_⟩
  split <;> rfl

end Records

/-- **Input is neither lost nor duplicated.** Take a run of any length on an output that never
fails, and its journal. The journal gives the output and the variables: what is written are the
texts and prompts of its entries, and the variables are set in their order. The value that is stored
at a place is that of the input line at the same place. The lines taken from the input are those of
the stored values, and one more if the run has failed at a line that is not text; this is the line
after them. There is a prompt for each stored value, and one more if the run has failed at reading.
A run that fails at the end of the input has taken all of it. If the input was cut from a stream of
bytes, the lines taken and those that are left make up the stream. -/
theorem run_reads (p : Program) (m₀ : Machine) (hm₀ : m₀.output.NeverFails) (fuel : Nat) :
    let fault? := (m₀.run p fuel).fault?
    let m := (m₀.run p fuel).machine
    let es := m₀.journal p fuel
    let stored := es.filterMap Entry.stored?
    m.output.written = m₀.output.written ++ Entry.written m₀.prompt es ∧
    (p.isEmpty = false →
      m.symbols = (Symbols.ofNames p.assigned).setAll (es.filterMap Entry.change?)) ∧
    (∀ (k : Nat) name v, stored[k]? = some (name, v) →
      ∃ line text, m₀.input.lines[k]? = some line ∧ Text.ofBytes? line = some text ∧
        v = Value.ofInputLine text) ∧
    (∃ read, m₀.input.lines = read ++ m.input.lines ∧
      read.length = stored.length + (if fault? = some (.input .notText) then 1 else 0) ∧
      ∀ bytes, m₀.input.lines = Text.splitLines bytes →
        bytes = read.flatten ++ m.input.lines.flatten) ∧
    es.countP Entry.isPrompt = stored.length + (if fault?.any Fault.isInput then 1 else 0) ∧
    (fault? = some (.input .notText) →
      ∃ line, m₀.input.lines[stored.length]? = some line ∧ Text.ofBytes? line = none) ∧
    (fault? = some (.input .endOfInput) → m.input.lines = []) := by
  intro fault? m es stored
  obtain ⟨start, hprompt, houtput, hinput, hsymbols, hrecords⟩ := exists_records_run p hm₀ fuel
  obtain ⟨read, hread, hlength⟩ := hrecords.exists_read
  rw [hinput] at hread
  refine ⟨?_, fun hlines => ?_, fun k name v hk => ?_,
    ⟨read, hread, hlength, fun bytes hbytes => ?_⟩, hrecords.prompts, fun hfault => ?_,
    hrecords.exhausts⟩
  · have hadd := hrecords.output
    rw [hprompt, houtput] at hadd
    exact congrArg Sink.written hadd
  · rw [← hsymbols hlines]
    exact hrecords.symbols
  · rw [← hinput]
    exact hrecords.line_of_stored hk
  · rw [← Text.flatten_splitLines bytes, ← hbytes, hread, List.flatten_append]
  · rw [← hinput]
    rw [show (m₀.run p fuel).fault? = some (.input .notText) from hfault] at hrecords
    exact hrecords.line_of_notText

/-- A program that reads two values again and again. -/
def rereadingProgram : Program where
  lines :=
    [⟨1, .input ["A", "B"] ⟨2, 13⟩, ⟨0, 13⟩⟩,
     ⟨2, .goto (.number 1 ⟨21, 22⟩) ⟨16, 22⟩, ⟨14, 22⟩⟩]
  ascending := by decide

/-- The fourth line that `rereadingProgram` is given is not text. Three values are stored, four
lines are taken and four prompts are written; the fifth line is left. -/
theorem rereadingProgram_run_reads :
    let p := rereadingProgram
    let m₀ := Machine.start defaultPrompt
      (.ofBytes ("x\ny\nz\n".toUTF8.toList ++ [255, 10, 119, 10])) .unlimited
    let es := m₀.journal p 4
    m₀.output.NeverFails ∧ (m₀.run p 4).fault? = some (.input .notText) ∧
      es.filterMap Entry.stored? =
        [("A", .string "x"), ("B", .string "y"), ("A", .string "z")] ∧
      (m₀.run p 4).machine.input.lines = [[119, 10]] ∧
      (∃ read, m₀.input.lines = read ++ [[119, 10]] ∧ read.length = 4) ∧
      es.countP Entry.isPrompt = 4 ∧
      ∃ line, m₀.input.lines[3]? = some line ∧ Text.ofBytes? line = none := by
  intro p m₀ es
  have hnever : m₀.output.NeverFails := ⟨rfl, rfl⟩
  have hfault : (m₀.run p 4).fault? = some (.input .notText) := by decide +kernel
  have hstored : es.filterMap Entry.stored? =
      [("A", .string "x"), ("B", .string "y"), ("A", .string "z")] := by decide +kernel
  have hleft : (m₀.run p 4).machine.input.lines = [[119, 10]] := by decide +kernel
  obtain ⟨-, -, -, ⟨read, hread, hlength, -⟩, hprompts, hlost, -⟩ := run_reads p m₀ hnever 4
  have hcount : (es.filterMap Entry.stored?).length = 3 := by rw [hstored]; rfl
  rw [hfault] at hlength hprompts
  rw [hcount] at hlength hprompts hlost
  rw [hleft] at hread
  exact ⟨hnever, hfault, hstored, hleft, ⟨read, hread, hlength⟩, hprompts, hlost hfault⟩

end Machine

end LineBasic
