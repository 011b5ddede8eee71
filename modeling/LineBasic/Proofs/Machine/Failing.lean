import LineBasic.Proofs.Machine.Effects

/-!
# Statements that fail

A statement that fails leaves the call stack and the state of the run alone.  Warnings that it has
recorded stay.  Variables stay as they are, but for an `INPUT`: what it has read before it fails is
kept.

* `Symbols.setAll`: a table in which variables are set, one after another;
* `Exec.FailsAt`: the variable of an `INPUT` at which reading fails, and the lines read before it;
* `Exec.exists_failsAt`: an `INPUT` that fails does so at one of its variables, and the ones before
  it are set to the lines read;
* `Statement.Executes.machine_of_error`: what any other statement that fails leaves behind;
* `Statement.execute_error`: what holds after a failure, whatever input and output do.
-/

namespace LineBasic

namespace Symbols

/-- The table with variables set, one after another. -/
def setAll (s : Symbols) (xs : List (String × Value)) : Symbols :=
  xs.foldl (fun t x => t.set x.1 x.2) s

/-- The variables that are not set keep their values. -/
lemma get?_setAll {s : Symbols} {xs : List (String × Value)} {name : String}
    (h : name ∉ xs.map Prod.fst) : (s.setAll xs).get? name = s.get? name := by
  induction xs generalizing s with
  | nil => rfl
  | cons x xs ih =>
    rw [List.map_cons, List.mem_cons, not_or] at h
    have hrest : (s.setAll (x :: xs)).get? name = (s.set x.1 x.2).get? name := ih h.2
    rw [hrest, get?_set, if_neg h.1]

end Symbols

/-! ### Reading that fails -/

namespace Exec

variable {m m' : Machine} {names : List String} {f : Fault}

/-- Reading a value takes a line of input, which must be text. -/
lemma input_of_readValue {v : Value} (h : readValue m = .ok v m') :
    ∃ line text, m.input.lines = line :: m'.input.lines ∧ Text.ofBytes? line = some text ∧
      v = .ofInputLine text := by
  have hreads := readsValue m
  rw [h] at hreads
  cases hreads with
  | reads output hread =>
    cases hread with
    | text hlines htext => exact ⟨_, _, hlines, htext, rfl⟩

/-- After a value is read, the variable is set to it and the next one is read. -/
lemma readInto_cons {name : String} {v : Value} (h : readValue m = .ok v m') :
    readInto (name :: names) m = readInto names { m' with symbols := m'.symbols.set name v } := by
  rw [readInto, bind_of_ok h]
  rfl

lemma readInto_cons_of_error {name : String} (h : readValue m = .error f m') :
    readInto (name :: names) m = .error f m' := by
  rw [readInto, bind_eq, h]

/-- Reading values fails at the variable with index `i`.  Before it, the lines `texts` are read into
the variables before that one. -/
structure FailsAt (names : List String) (m : Machine) (f : Fault) (m' : Machine) (i : Nat)
    (texts : List String) : Prop where
  index : i < names.length
  count : texts.length = i
  lines : (m.input.lines.take i).map Text.ofBytes? = texts.map some
  fails : ∃ before, readInto (names.take i) m = .ok () before ∧ readValue before = .error f m'

/-- Reading values that fails does so at one variable.  The variables before it are set to the lines
read, in order. -/
lemma exists_failsAt (h : readInto names m = .error f m') :
    ∃ i texts, FailsAt names m f m' i texts ∧
      m'.symbols = m.symbols.setAll ((names.take i).zip (texts.map .ofInputLine)) := by
  induction names generalizing m with
  | nil => cases h
  | cons name names ih =>
    obtain ⟨input, output, hmachine⟩ := machine_readValue m
    cases hread : readValue m with
    | error f' m₁ =>
      rw [readInto_cons_of_error hread] at h
      cases h
      rw [hread] at hmachine
      obtain rfl : m' = { m with input := input, output := output } := hmachine
      exact ⟨0, [], ⟨Nat.zero_lt_succ _, rfl, rfl, m, rfl, hread⟩, rfl⟩
    | ok v m₁ =>
      obtain ⟨line, text, hinput, htext, rfl⟩ := input_of_readValue hread
      rw [hread] at hmachine
      have hsymbols : m₁.symbols = m.symbols := by rw [show m₁ = _ from hmachine]
      rw [readInto_cons hread] at h
      obtain ⟨i, texts, ⟨hindex, hcount, hlines, before, hbefore, hfails⟩, hset⟩ := ih h
      refine ⟨i + 1, text :: texts, ⟨Nat.succ_lt_succ hindex, by rw [List.length_cons, hcount], ?_,
        before, ?_, hfails⟩, ?_⟩
      · rw [hinput, List.take_succ_cons, List.map_cons, List.map_cons, htext]
        exact congrArg _ hlines
      · rw [List.take_succ_cons, readInto_cons hread]
        exact hbefore
      · rw [hset, hsymbols]
        rfl

/-- The variables from the one that fails on keep their values. -/
lemma FailsAt.get? {i : Nat} {texts : List String} (h : FailsAt names m f m' i texts)
    (s : Symbols) {name : String} (hname : name ∉ names.take i) :
    (s.setAll ((names.take i).zip (texts.map .ofInputLine))).get? name = s.get? name := by
  refine Symbols.get?_setAll ?_
  rwa [List.map_fst_zip]
  rw [List.length_take, List.length_map, h.count]
  exact Nat.min_le_left ..

end Exec

/-! ### Statements that fail -/

namespace Statement

/-- A statement that fails has changed nothing but the output and the warnings, unless it comes to
an `INPUT`. -/
lemma Executes.machine_of_error {s : Statement} {m m' : Machine} {ws : List Write}
    {es : List Entry} {r : Outcome} {f : Fault} (h : Executes s m ws es r)
    (hr : r = .error f m') (hinput : ∀ names span, s.reached m.symbols ≠ .input names span) :
    ∃ output new, m' = { m with output := output, warnings := m.warnings ++ new } := by
  induction h with
  | fails =>
    cases hr
    exact ⟨_, #[], by rw [Array.append_empty]⟩
  | @refused _ span m v =>
    cases hr
    obtain ⟨new, hnew⟩ := m.exists_remarked v.printRemark? span
    exact ⟨_, new, by rw [hnew]; rfl⟩
  | @branches s _ m v _ _ _ htakes _ ih =>
    rw [htakes.reached] at hinput
    obtain ⟨output, later, hm'⟩ := ih hr (by simpa using hinput)
    obtain ⟨first, hfirst⟩ := m.exists_remarked v.conditionRemark? s.span
    rw [hfirst] at hm'
    exact ⟨output, first ++ later, by rw [hm', Array.append_assoc]⟩
  | readFails => exact absurd rfl (hinput _ _)
  | _ => cases hr

/-- A statement that fails leaves control as it was.  The call stack and the state of the run are
the same as before, and warnings may have been added after the ones before.  Unless the statement
that is reached is an `INPUT`, the variables are the same too.  An `INPUT` fails at one of its
variables: those before it are set, in order, to the lines read, and all others keep their
values. -/
theorem execute_error (s : Statement) (m m' : Machine) (f : Fault)
    (h : s.execute m = .error f m') :
    m'.stack = m.stack ∧ m'.state = m.state ∧ (∃ new, m'.warnings = m.warnings ++ new) ∧
    ((∀ names span, s.reached m.symbols ≠ .input names span) → m'.symbols = m.symbols) ∧
    ∀ names span, s.reached m.symbols = .input names span →
      ∃ i texts, Exec.FailsAt names { m with warnings := m'.warnings } f m' i texts ∧
        m'.symbols = m.symbols.setAll ((names.take i).zip (texts.map .ofInputLine)) ∧
        ∀ name ∉ names.take i, m'.symbols.get? name = m.symbols.get? name := by
  by_cases hinput : ∃ names span, s.reached m.symbols = .input names span
  · obtain ⟨names, span, hinput⟩ := hinput
    obtain ⟨new, hreached⟩ := s.execute_reached_append m
    rw [hreached, hinput, execute_input] at h
    cases hread : Exec.readInto names { m with warnings := m.warnings ++ new } with
    | ok _ m₁ =>
      rw [hread] at h
      cases h
    | error f' m₁ =>
      rw [hread] at h
      cases h
      have hwarnings : m'.warnings = m.warnings ++ new := Exec.warnings_of_readInto hread
      obtain ⟨i, texts, hfails, hset⟩ := Exec.exists_failsAt hread
      rw [← hwarnings] at hfails
      refine ⟨Exec.stack_of_readInto hread, Exec.state_of_readInto hread, ⟨new, hwarnings⟩,
        fun hother => absurd hinput (hother names span), fun names' span' hinput' => ?_⟩
      cases hinput.symm.trans hinput'
      refine ⟨i, texts, hfails, hset, fun name hname => ?_⟩
      rw [hset]
      exact hfails.get? m.symbols hname
  · have hother : ∀ names span, s.reached m.symbols ≠ .input names span :=
      fun names span heq => hinput ⟨names, span, heq⟩
    obtain ⟨output, new, rfl⟩ := (s.executes m).machine_of_error h hother
    exact ⟨rfl, rfl, ⟨new, rfl⟩, fun _ => rfl,
      fun names span heq => absurd heq (hother names span)⟩

/-- An `INPUT` that names `A` twice, behind a condition that is a text. -/
def doubledInput : Statement :=
  .ifThen (.string "Y" ⟨6, 9⟩) (.input ["A", "B", "A", "C"] ⟨15, 28⟩) ⟨3, 28⟩

/-- A machine in a subroutine, with the variable `C` and three lines of input. -/
def threeLines : Machine :=
  { Machine.start Machine.defaultPrompt "7\ntwo\n8\n".toUTF8.toList .unlimited with
    symbols := .ofNames ["C"]
    stack := (CallStack.start 10).call 100
    state := .running }

/-- The same machine when its output refuses the third flush. -/
def unflushed : Machine :=
  { threeLines with
    output := ⟨.empty, .all, ⟨fun n => if n = 2 then some "disk full" else none⟩⟩ }

/-- The same machine when its second line cannot be read. -/
def unreadable : Machine :=
  { threeLines with
    input := ⟨threeLines.input.lines, fun lines =>
      if lines.length = 2 then some "device not ready" else none⟩ }

/-- The fault of a statement that fails, the number of warnings and the variables then. -/
def failure? : Outcome → Option (Fault × Nat × List (String × Value))
  | .error f m => some (f, m.warnings.size, m.symbols.entries)
  | .ok _ _ => none

/-- From the machine `m`, `doubledInput` fails with the fault `f` and leaves the variables that
`entries` lists. It has recorded a remark on its condition. -/
def FailsLeaving (m : Machine) (f : Fault) (entries : List (String × Value)) : Prop :=
  ∃ m', doubledInput.execute m = .error f m' ∧ m'.stack = m.stack ∧ m'.state = m.state ∧
    (∃ new, m'.warnings = m.warnings ++ new) ∧ m'.warnings.size = 1 ∧
    m'.symbols.get? "C" = m.symbols.get? "C" ∧ m'.symbols.entries = entries

/-- On three lines of input `doubledInput` fails at `C`. It has set `A` twice and `B` once. When the
third flush is refused, it fails at the second `A`, and when the second line cannot be read, it
fails at `B`. -/
theorem doubledInput_execute_error :
    FailsLeaving threeLines (.input .endOfInput)
        [("C", .unset), ("A", .number 8), ("B", .string "two")] ∧
      FailsLeaving unflushed (.output "disk full")
        [("C", .unset), ("A", .number 7), ("B", .string "two")] ∧
      FailsLeaving unreadable (.input (.device "device not ready"))
        [("C", .unset), ("A", .number 7)] := by
  have hfails {m : Machine} {f : Fault} {entries : List (String × Value)}
      (hresult : failure? (doubledInput.execute m) = some (f, 1, entries)) :
      FailsLeaving m f entries := by
    unfold failure? at hresult
    split at hresult
    next g m' hexecute =>
      simp only [Option.some.injEq, Prod.mk.injEq] at hresult
      obtain ⟨rfl, hsize, hentries⟩ := hresult
      obtain ⟨hstack, hstate, hwarnings, -, hinput⟩ := execute_error _ _ _ _ hexecute
      obtain ⟨i, texts, hat, -, hothers⟩ := hinput ["A", "B", "A", "C"] ⟨15, 28⟩ rfl
      have hC : ∀ i < 4, "C" ∉ ["A", "B", "A", "C"].take i := by decide
      exact ⟨m', hexecute, hstack, hstate, hwarnings, hsize, hothers "C" (hC i hat.index), hentries⟩
    next => cases hresult
  exact ⟨hfails (by decide +kernel), hfails (by decide +kernel), hfails (by decide +kernel)⟩

end Statement

end LineBasic
