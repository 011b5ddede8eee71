import LineBasic.Proofs.Code.ListingLines
import LineBasic.Proofs.Machine.Failing
import LineBasic.Proofs.Machine.Names
import LineBasic.Proofs.Machine.Stages
import LineBasic.Proofs.Text.Lines

/-!
# Printed lines

The texts that a run holds come from the program and from the input. Neither gives a text with a
line feed: a text of the program ends at the end of its line, and input is read line by line. No
operator makes a text. So a `PRINT` writes one line, whatever it prints.

* `Machine.HoldsLines`: no variable holds a line feed, and the input is made of lines;
* `Expr.oneLine_evaluate`: neither has a value of an expression one then;
* `Statement.holdsLines`, `Machine.holdsLines_step`, `Machine.Passes.holdsLines`: this is kept by
  each statement, each step and all along a run;
* `Statement.exists_printed`: what a `PRINT` adds to the output;
* `Machine.run_prints_lines`: the texts that a run holds, and the lines that it prints.
-/

namespace LineBasic

/-! ### Values on one line -/

namespace Value

/-- A text has no line feed. -/
def OneLine : Value → Prop
  | .string s => Text.OneLine s
  | _ => True

/-- No operator makes a text. -/
lemma oneLine_of_binary {op : BinaryOp} {a b v : Value} (h : binary op a b = .ok v) :
    v.OneLine := by
  cases op with
  | arith op =>
    rw [binary, arithmetic.eq_def] at h
    split at h
    · cases op with
      | div =>
        dsimp only at h
        split at h
        · cases h
        · cases h
          trivial
      | _ =>
        cases h
        trivial
    · cases h
  | rel op =>
    rw [binary, compare] at h
    split at h
    · cases hrelation : relation op a b with
      | error f =>
        rw [hrelation] at h
        cases h
      | ok r =>
        rw [hrelation] at h
        cases h
        trivial
    · cases h
      trivial

/-- A line of input has no line feed when the breaks at its end are taken away. -/
lemma oneLine_ofInputLine {line : List UInt8} {text : String} (hline : Text.IsLine line)
    (h : Text.ofBytes? line = some text) : (ofInputLine text).OneLine := by
  rw [ofInputLine]
  split
  · trivial
  · intro c hc
    rw [String.toList_ofList] at hc
    rw [bne_iff_ne]
    rintro rfl
    exact Text.newline_not_mem_trimBreaks hline h hc

/-- Numbers and truth values are written without line feeds. -/
lemma OneLine.text {v : Value} (h : v.OneLine) : Text.OneLine v.text := by
  cases v with
  | number x => exact (Text.bare_numberText x).oneLine
  | string s => exact h
  | boolean b =>
    cases b with
    | true => exact Text.oneLine_of_all (by decide)
    | false => exact Text.oneLine_of_all (by decide)
  | unset => exact Text.oneLine_of_all (by decide)

end Value

namespace Symbols

/-- No variable holds a text with a line feed. -/
def OneLine (s : Symbols) : Prop := ∀ name v, s.get? name = some v → v.OneLine

lemma OneLine.set {s : Symbols} (h : s.OneLine) (name : String) {v : Value} (hv : v.OneLine) :
    (s.set name v).OneLine := by
  intro other w hw
  rw [get?_set] at hw
  split at hw
  · cases hw
    exact hv
  · exact h other w hw

/-- New variables hold no text. -/
lemma oneLine_ofNames (names : List String) : (ofNames names).OneLine := by
  intro name v hv
  rw [unset_foldl_declare (fun _ _ h => by cases h) name v hv]
  trivial

end Symbols

/-- The value of an expression has no line feed if its variables and the texts in it have none. -/
lemma Expr.oneLine_evaluate {symbols : Symbols} (hsymbols : symbols.OneLine) {e : Expr} {v : Value}
    (htexts : ∀ x, .string x ∈ e.leaves → Text.OneLine x) (h : e.evaluate symbols = .ok v) :
    v.OneLine := by
  cases e with
  | ident name span =>
    rw [evaluate] at h
    cases hget : symbols.get? name with
    | none =>
      rw [hget] at h
      cases h
    | some w =>
      rw [hget] at h
      cases h
      exact hsymbols name v hget
  | number x span =>
    cases h
    trivial
  | string s span =>
    cases h
    exact htexts s List.mem_cons_self
  | binary op l r span =>
    rw [evaluate] at h
    split at h
    · cases h
    · split at h
      · cases h
      · cases hop : Value.binary op _ _ with
        | error f =>
          rw [hop] at h
          cases h
        | ok w =>
          rw [hop] at h
          cases h
          exact Value.oneLine_of_binary hop

/-! ### Machines that hold lines -/

/-- A line is taken from the start of the input, if any. -/
lemma Input.Reads.lines_suffix {i : Input} {result : Input × Except InputFault String}
    (h : i.Reads result) : result.1.lines <:+ i.lines := by
  cases h with
  | device => exact List.suffix_rfl
  | atEnd => exact List.suffix_rfl
  | notText hlines =>
    rw [hlines]
    exact List.suffix_cons _ _
  | text hlines =>
    rw [hlines]
    exact List.suffix_cons _ _

namespace Machine

/-- No variable holds a text with a line feed, and the input is made of lines. -/
structure HoldsLines (m : Machine) : Prop where
  symbols : m.symbols.OneLine
  input : ∀ line ∈ m.input.lines, Text.IsLine line

namespace HoldsLines

variable {m : Machine}

lemma of_eq {m' : Machine} (h : m.HoldsLines) (hsymbols : m'.symbols = m.symbols)
    (hinput : m'.input = m.input) : m'.HoldsLines :=
  ⟨hsymbols ▸ h.symbols, hinput ▸ h.input⟩

lemma remarked (h : m.HoldsLines) (remark : Option Remark) (span : Span) :
    (m.remarked remark span).HoldsLines := by
  rw [m.remarked_eq]
  exact ⟨h.symbols, h.input⟩

lemma set (h : m.HoldsLines) (name : String) {v : Value} (hv : v.OneLine) :
    { m with symbols := m.symbols.set name v }.HoldsLines :=
  ⟨h.symbols.set name hv, h.input⟩

end HoldsLines

end Machine

namespace Exec

variable {m : Machine}

lemma holdsLines_readValue (h : m.HoldsLines) : (machineAfter (readValue m)).HoldsLines := by
  have hreads := readsValue m
  generalize readValue m = result at hreads ⊢
  cases hreads with
  | refused => exact ⟨h.symbols, h.input⟩
  | fails output hread =>
    exact ⟨h.symbols, fun line hline => h.input line (hread.lines_suffix.mem hline)⟩
  | reads output hread =>
    exact ⟨h.symbols, fun line hline => h.input line (hread.lines_suffix.mem hline)⟩

/-- The value that is read has no line feed. -/
lemma oneLine_of_readValue {m' : Machine} {v : Value} (h : m.HoldsLines)
    (hread : readValue m = .ok v m') : v.OneLine := by
  obtain ⟨line, text, hinput, htext, rfl⟩ := input_of_readValue hread
  exact Value.oneLine_ofInputLine (h.input line (hinput ▸ List.mem_cons_self)) htext

lemma holdsLines_readInto (names : List String) (h : m.HoldsLines) :
    (machineAfter (readInto names m)).HoldsLines ∧
      ∀ w ∈ writesInto names m, w.before.HoldsLines := by
  induction names generalizing m with
  | nil => exact ⟨h, List.forall_mem_nil _⟩
  | cons name names ih =>
    have hafter := holdsLines_readValue h
    rw [writesInto]
    cases hread : readValue m with
    | error f m' =>
      rw [hread] at hafter
      rw [readInto_cons_of_error hread]
      exact ⟨hafter, List.forall_mem_singleton.mpr h⟩
    | ok v m' =>
      rw [hread] at hafter
      rw [readInto_cons hread]
      obtain ⟨hlast, hwrites⟩ := ih (hafter.set name (oneLine_of_readValue h hread))
      exact ⟨hlast, List.forall_mem_cons.mpr ⟨h, hwrites⟩⟩

end Exec

namespace Statement

variable {m : Machine}

/-- What is printed has no line feed. -/
lemma oneLine_of_printed {item : Option Expr} {v : Value} (h : m.HoldsLines)
    (htexts : ∀ e ∈ item, ∀ x, .string x ∈ e.leaves → Text.OneLine x)
    (hv : printed m.symbols item = .ok v) : v.OneLine := by
  cases item with
  | none =>
    cases hv
    exact Text.oneLine_of_all (by decide)
  | some e => exact Expr.oneLine_evaluate h.symbols (htexts e rfl) hv

/-- The names and texts of a branch are in the conditional. -/
lemma Takes.mem_leaves {symbols : Symbols} {v : Value} {s t : Statement}
    (h : s.Takes symbols v t) {k : Kind} (hk : k ∈ t.leaves) : k ∈ s.leaves := by
  cases h with
  | only => exact List.mem_append_right _ hk
  | first => exact List.mem_append_left _ (List.mem_append_right _ hk)
  | second => exact List.mem_append_right _ hk

lemma Executes.holdsLines {s : Statement} {ws : List Write} {es : List Entry} {r : Outcome}
    (h : Executes s m ws es r) (htexts : ∀ x, .string x ∈ s.leaves → Text.OneLine x)
    (hm : m.HoldsLines) :
    (Exec.machineAfter r).HoldsLines ∧ ∀ w ∈ ws, w.before.HoldsLines := by
  induction h with
  | assigns hv =>
    have hvalue : ∀ x, .string x ∈ Expr.leaves _ → Text.OneLine x :=
      fun x hx => htexts x (List.mem_cons_of_mem _ hx)
    exact ⟨hm.set _ (Expr.oneLine_evaluate hm.symbols hvalue hv), List.forall_mem_nil _⟩
  | @prints _ span m v =>
    have hremarked := hm.remarked v.printRemark? span
    exact ⟨hremarked.of_eq rfl rfl, List.forall_mem_singleton.mpr hremarked⟩
  | @refused _ span m v =>
    have hremarked := hm.remarked v.printRemark? span
    exact ⟨hremarked.of_eq rfl rfl, List.forall_mem_singleton.mpr hremarked⟩
  | passes => exact ⟨hm.remarked _ _, List.forall_mem_nil _⟩
  | branches htakes _ ih =>
    exact ih (fun x hx => htexts x (htakes.mem_leaves hx)) (hm.remarked _ _)
  | calls => exact ⟨(hm.remarked _ _).of_eq rfl rfl, List.forall_mem_nil _⟩
  | @reads names _ m m' hread =>
    have hafter := Exec.holdsLines_readInto names hm
    rwa [hread] at hafter
  | @readFails names _ m m' f hread =>
    have hafter := Exec.holdsLines_readInto names hm
    rwa [hread] at hafter
  | _ => exact ⟨hm.of_eq rfl rfl, List.forall_mem_nil _⟩

/-- If the texts in a statement have no line feed, neither has what it stores. This holds also in
the middle of it, when it writes. -/
theorem holdsLines (s : Statement) (htexts : ∀ x, .string x ∈ s.leaves → Text.OneLine x)
    (h : m.HoldsLines) :
    (Exec.machineAfter (s.execute m)).HoldsLines ∧ ∀ w ∈ s.writes m, w.before.HoldsLines :=
  (s.executes m).holdsLines htexts h

end Statement

namespace Machine

variable {p : Program}

/-- A step keeps what is held free of line feeds. -/
theorem holdsLines_step
    (htexts : ∀ l ∈ p.lines, ∀ x, .string x ∈ l.statement.leaves → Text.OneLine x) (m : Machine)
    (h : m.HoldsLines) : (m.step p).machine.HoldsLines := by
  cases hl : p.lineAt? m.stack.line with
  | none =>
    rw [step, hl]
    exact h
  | some l =>
    have hafter := (l.statement.holdsLines (htexts l (Program.lineAt?_eq_some hl).1) h).1
    obtain ⟨line, state, hm⟩ := machine_step hl
    rw [hm]
    exact hafter.of_eq rfl rfl

/-- So does a run, also in the middle of a statement. -/
lemma Passes.holdsLines
    (htexts : ∀ l ∈ p.lines, ∀ x, .string x ∈ l.statement.leaves → Text.OneLine x)
    {m₀ m : Machine} (h : m₀.Passes p m) (hinput : ∀ line ∈ m₀.input.lines, Text.IsLine line)
    (hlines : p.isEmpty = false) : m.HoldsLines := by
  have hsteps (fuel : Nat) : (m₀.run p fuel).machine.HoldsLines :=
    run_invariant hlines (fun _ => ⟨Symbols.oneLine_ofNames _, hinput⟩) (holdsLines_step htexts)
      (fun _ h => h.of_eq rfl rfl) fuel
  cases h with
  | steps fuel => exact hsteps fuel
  | writing hw =>
    obtain ⟨k, m', l, hrun, hl, hw⟩ := exists_of_mem_writes hw
    have hm' := hsteps k
    rw [hrun] at hm'
    exact (l.statement.holdsLines (htexts l (Program.lineAt?_eq_some hl).1) hm').2 _ hw

end Machine

/-! ### Printing -/

/-- A sink that takes all bytes has them at its end. -/
lemma Sink.written_of_complete {s : Sink} {bytes : ByteArray} (h : (s.write bytes).2 = none) :
    (s.write bytes).1.written = s.written ++ bytes := by
  rw [write] at h ⊢
  cases hrefusal : s.intake.refusal? s.written bytes with
  | none => rfl
  | some r =>
    rw [hrefusal] at h
    cases h

namespace Statement

/-- The names and texts of what is reached are in the statement. -/
lemma mem_leaves_of_reached {s : Statement} {symbols : Symbols} {k : Kind}
    (h : k ∈ (s.reached symbols).leaves) : k ∈ s.leaves := by
  have hinside : ∀ k ∈ (s.reached symbols).leaves, k ∈ s.leaves :=
    reached_of_takes (P := fun t => ∀ k ∈ t.leaves, k ∈ s.leaves)
      (fun htakes hs k hk => hs k (htakes.mem_leaves hk)) fun _ hk => hk
  exact hinside k h

/-- A `PRINT` that succeeds adds one line to the output: bytes without a line feed, and then one. -/
lemma exists_printed {m m' : Machine} {item : Option Expr} {span : Span} {flow : Flow}
    (h : m.HoldsLines) (htexts : ∀ e ∈ item, ∀ x, .string x ∈ e.leaves → Text.OneLine x)
    (hexecute : (Statement.print item span).execute m = .ok flow m') :
    ∃ body : List UInt8, 10 ∉ body ∧
      m'.output.written = m.output.written ++ (body ++ [10]).toByteArray := by
  rw [execute_print] at hexecute
  cases hv : printed m.symbols item with
  | error f =>
    rw [hv] at hexecute
    cases hexecute
  | ok v =>
    have hline := (oneLine_of_printed h htexts hv).text
    rw [hv] at hexecute
    dsimp only at hexecute
    split at hexecute
    next hcomplete =>
      cases hexecute
      refine ⟨Text.encode v.text.toList,
        fun hmem => hline.not_mem (Text.ten_mem_encode_iff.mp hmem), ?_⟩
      rw [← Text.toUTF8_append_newline, ← m.output_remarked v.printRemark? span]
      exact Sink.written_of_complete hcomplete
    · cases hexecute

end Statement

/-- **Printed lines.** Take a program that was read from a text, and any bytes as its input. At
every point of a run, also in the middle of a statement, no variable holds a text with a line feed.
A program without lines is not run at all. So a `PRINT` that succeeds adds bytes to the output of
which only the last one is a line feed, whatever it prints. -/
theorem Machine.run_prints_lines {source : String} {p : Program}
    (hp : Program.ofText source = .ok p) {m₀ : Machine} {bytes : List UInt8}
    (hinput : m₀.input.lines = Text.splitLines bytes) :
    (p.isEmpty = false → ∀ m, m₀.Passes p m →
      ∀ name s, m.symbols.get? name = some (.string s) → '\n' ∉ s.toList) ∧
    (p.isEmpty = true → ∀ m, m₀.Passes p m → m = m₀) ∧
    ∀ k m l item span flow m', m₀.run p k = .unfinished m → m.line? p = some l →
      l.statement.reached m.symbols = .print item span → l.statement.execute m = .ok flow m' →
      ∃ body : List UInt8, 10 ∉ body ∧
        m'.output.written = m.output.written ++ (body ++ [10]).toByteArray := by
  have htexts := Program.oneLine_of_ofText hp
  have hlines : ∀ line ∈ m₀.input.lines, Text.IsLine line := by
    rw [hinput]
    exact Text.isLine_of_mem_splitLines
  refine ⟨fun hsome m hm name s hs => ?_, fun hempty m hm => hm.eq_of_isEmpty hempty,
    fun k m l item span flow m' hrun hl hprint hexecute => ?_⟩
  · exact ((hm.holdsLines htexts hlines hsome).symbols name (.string s) hs).not_mem
  · have hholds : m.HoldsLines :=
      (Passes.of_unfinished hrun).holdsLines htexts hlines (isEmpty_of_unfinished hrun)
    have hitem : ∀ e ∈ item, ∀ x, .string x ∈ e.leaves → Text.OneLine x := by
      intro e he x hx
      have hleaf : Kind.string x ∈ (l.statement.reached m.symbols).leaves := by
        rw [hprint]
        exact List.mem_flatMap.mpr ⟨e, Option.mem_toList.mpr he, hx⟩
      exact htexts l (Program.lineAt?_eq_some hl).1 x (Statement.mem_leaves_of_reached hleaf)
    obtain ⟨warnings, hreached⟩ := l.statement.execute_reached m
    rw [hreached, hprint] at hexecute
    have hwarned : { m with warnings := warnings }.HoldsLines := hholds.of_eq rfl rfl
    have hprinted := Statement.exists_printed hwarned hitem hexecute
    exact hprinted

/-- A program that prints a text and then reads one. -/
def greetingProgram : Program where
  lines :=
    [⟨1, .print (some (.string "a" ⟨8, 11⟩)) ⟨2, 11⟩, ⟨0, 11⟩⟩,
     ⟨2, .input ["A"] ⟨14, 21⟩, ⟨12, 21⟩⟩]
  ascending := by decide

/-- What `greetingProgram` reads is held without its line break, and what it prints has one. -/
theorem greetingProgram_run_prints_lines :
    let p := greetingProgram
    let bytes := "x y\r\nz\n".toUTF8.toList
    let m₀ := Machine.start Machine.defaultPrompt bytes .unlimited
    Program.ofText "1 PRINT \"a\"\n2 INPUT A\n" = .ok p ∧
      m₀.input.lines = Text.splitLines bytes ∧
      (m₀.run p 2).machine.symbols.get? "A" = some (.string "x y") ∧ '\n' ∉ "x y".toList ∧
      ∃ l m, p.lineAt? 1 = some l ∧ l.statement.execute (m₀.reset p 1) = .ok .next m ∧
        ∃ body : List UInt8, 10 ∉ body ∧
          m.output.written = m₀.output.written ++ (body ++ [10]).toByteArray := by
  intro p bytes m₀
  have hp : Program.ofText "1 PRINT \"a\"\n2 INPUT A\n" = .ok p :=
    Program.eq_ok_of_lines (by decide +kernel)
  have hinput : m₀.input.lines = Text.splitLines bytes := rfl
  have hread : (m₀.run p 2).machine.symbols.get? "A" = some (.string "x y") := by decide +kernel
  obtain ⟨hheld, -, hprinted⟩ := Machine.run_prints_lines hp hinput
  exact ⟨hp, hinput, hread, hheld rfl _ (.steps 2) "A" "x y" hread, _, _, rfl, rfl,
    hprinted 0 (m₀.reset p 1) _ _ _ .next _ rfl rfl rfl rfl⟩

end LineBasic
