import LineBasic.Proofs.Number
import LineBasic.Proofs.Reading.Statement
import LineBasic.Reading.Program

/-!
# Reading programs by the grammar

The reader accepts exactly the phrases of the grammar whose line numbers are distinct, and it
returns the lines of the phrase in ascending order.

* `Line.readFrom_of_read`, `Line.ReadFrom.read`: a line that is read is a number and a statement up
  to the end of its line, and each such line is read;
* `Program.readLines_cases`: what reading lines can do;
* `Program.readLines_sound`, `Program.Phrase.readLines`: the same for all lines of a program;
* `Program.Phrase.unique`: no list of tokens has two phrases;
* `Program.ofTokens_eq_ok_iff_phrase`: both directions for whole programs.
-/

namespace LineBasic

/-! ### Lines -/

lemma lineNumber?_sound {x : Number} {n : Nat} (hx : Number.atMost 0 x = true)
    (h : lineNumber? x = some n) : IsLineNumber x n := by
  have hnonneg := Number.wholePart_nonneg hx
  rw [lineNumber?] at h
  split at h
  next hcond =>
    injection h with h
    rw [Bool.and_eq_true, decide_eq_true_iff] at hcond
    exact ⟨hcond.1, by omega, by omega⟩
  next => cases h

lemma IsLineNumber.lineNumber? {x : Number} {n : Nat} (h : IsLineNumber x n) :
    lineNumber? x = some n := by
  have hle : x.wholePart ≤ (maxLineNumber : Int) := by
    rw [h.value]
    exact Int.ofNat_le.mpr h.le_max
  rw [LineBasic.lineNumber?, h.whole, decide_eq_true hle, h.value]
  rfl

namespace Line

lemma read_result (c : Cursor) :
    Reading.result (read c) =
      (Reading.result (readNumber c)).bind fun n =>
        (Reading.result (Statement.read n.2)).bind fun st =>
          if st.2.atLineEnd then .ok (⟨n.1, st.1, c.span.merge st.2.last⟩, st.2)
          else .error (st.2.expected .lineEnd) := by
  rw [read]
  cases readNumber c with
  | error e => rfl
  | ok n =>
    simp only [Reading.result, Except.map, Except.bind]
    cases Statement.read n.next with
    | error e => rfl
    | ok st =>
      simp only
      cases st.next.atLineEnd <;> rfl

/-- A line as it is read: a number that can be that of a line, and a statement. The grammar asks
besides that the number is not below zero. -/
inductive ReadFrom : List Token → Line → Prop
  | intro {x : Number} {s : Span} {l k n : Nat} {ts : List Token} {st : Statement}
      (hx : lineNumber? x = some n) (h : Statement.Phrase .line ts st) :
      ReadFrom (⟨.number x, s, l, k⟩ :: ts) ⟨n, st, s.merge (lastSpan s ts)⟩

lemma Phrase.readFrom {ts : List Token} {l : Line} (h : Line.Phrase ts l) : ReadFrom ts l := by
  obtain ⟨hx, hst⟩ := h
  exact .intro hx.lineNumber? hst

lemma ReadFrom.phrase {ts : List Token} {l : Line} (h : ReadFrom ts l)
    (hts : ∀ t ∈ ts, t.kind.nonNegative = true) : Line.Phrase ts l := by
  obtain @⟨x, s, l, k, n, ts, st, hx, hst⟩ := h
  have hnonneg : Number.atMost 0 x = true := hts _ List.mem_cons_self
  exact .intro (lineNumber?_sound hnonneg hx) hst

lemma readNumber_sound {c : Cursor} {r : Reading c.rest.length Nat} (h : readNumber c = .ok r) :
    ∃ x s l k, lineNumber? x = some r.value ∧ c.Passes [⟨.number x, s, l, k⟩] r.next := by
  rw [readNumber.eq_def] at h
  split at h
  next last x s l k ts =>
    split at h
    next n hn =>
      cases h
      exact ⟨x, s, l, k, hn, .token ..⟩
    next => cases h
  next => cases h

/-- A line that was read ends where its line ends. -/
theorem readFrom_of_read {c : Cursor} {r : Reading c.rest.length Line} (h : read c = .ok r) :
    ∃ ts, ReadFrom ts r.value ∧ c.Passes ts r.next ∧ r.next.atLineEnd = true := by
  rw [read] at h
  split at h
  next => cases h
  next number hnumber =>
    split at h
    next => cases h
    next statement hstatement =>
      split at h
      next hend =>
        cases h
        obtain ⟨x, s, l, k, hx, hpass⟩ := readNumber_sound hnumber
        obtain ⟨ts, hts, hpass', -⟩ := Statement.readSound _ .line statement hstatement
        refine ⟨⟨.number x, s, l, k⟩ :: ts, ?_, hpass.trans hpass', hend⟩
        have hspan : c.span = s := by rw [Cursor.span, hpass.rest]; rfl
        have hlast : statement.next.last = lastSpan s ts := by
          rw [hpass'.last, hpass.last]
          rfl
        rw [hspan, hlast]
        exact .intro hx hts
      next => cases h

/-- Tokens of a line that end with it are read. -/
theorem ReadFrom.read {ts : List Token} {l : Line} (h : ReadFrom ts l) (s : Span)
    {rest : List Token} (hrest : Cursor.atLineEnd ⟨lastSpan s ts, rest⟩ = true) :
    Reading.result (Line.read ⟨s, ts ++ rest⟩) = .ok (l, ⟨lastSpan s ts, rest⟩) := by
  obtain @⟨x, sp, l, k, n, ts, st, hx, hst⟩ := h
  rw [lastSpan_cons] at hrest
  have hnumber : Reading.result (readNumber ⟨s, ⟨.number x, sp, l, k⟩ :: (ts ++ rest)⟩)
      = .ok (n, ⟨sp, ts ++ rest⟩) := by
    rw [readNumber]
    simp only [hx]
    rfl
  have hstatement : Reading.result (Statement.read ⟨sp, ts ++ rest⟩)
      = .ok (st, ⟨lastSpan sp ts, rest⟩) := by
    refine hst.reads sp rest (.inl hrest) fun _ helse => ?_
    rw [Cursor.atLineEnd, helse] at hrest
    simp at hrest
  rw [List.cons_append, read_result, hnumber]
  simp only [Except.bind, hstatement, if_pos hrest]
  rfl

lemma ReadFrom.kind? {ts : List Token} {l : Line} (h : ReadFrom ts l) (s : Span)
    (rest : List Token) : ∃ x, Cursor.kind? ⟨s, ts ++ rest⟩ = some (.number x) := by
  obtain @⟨x, sp, l, k, n, ts, st, hx, hst⟩ := h
  exact ⟨x, rfl⟩

/-- A line is determined by the text that it starts. -/
lemma Phrase.unique {ts us : List Token} {l m : Line} (hl : Line.Phrase ts l)
    (hm : Line.Phrase us m) {rest rest' : List Token} (heq : ts ++ rest = us ++ rest')
    (hrest : ∀ s, Cursor.atLineEnd ⟨s, rest⟩ = true)
    (hrest' : ∀ s, Cursor.atLineEnd ⟨s, rest'⟩ = true) : l = m ∧ ts = us ∧ rest = rest' := by
  have hread := hl.readFrom.read .origin (hrest _)
  have hread' := hm.readFrom.read .origin (hrest' _)
  rw [heq, hread'] at hread
  injection hread with hread
  injection hread with hlines hcursor
  injection hcursor with _ hrests
  refine ⟨hlines.symm, ?_, hrests.symm⟩
  rw [hrests] at heq
  exact List.append_cancel_right heq

end Line

/-! ### Line breaks -/

namespace Cursor

lemma skipBreaks_blank {t : Token} (ht : t.kind = .newline) (s : Span) (ts : List Token) :
    skipBreaks ⟨s, t :: ts⟩ = skipBreaks ⟨t.span, ts⟩ := by
  rw [skipBreaks, if_pos ht]

lemma skipBreaks_of_kind {c : Cursor} (h : c.kind? ≠ some .newline) : c.skipBreaks = c := by
  obtain ⟨s, rest⟩ := c
  cases rest with
  | nil => rw [skipBreaks]
  | cons t ts =>
    rw [skipBreaks, if_neg]
    exact fun ht => h (congrArg some ht)

lemma skipBreaks_passes (c : Cursor) :
    ∃ bs, (∀ t ∈ bs, t.kind = .newline) ∧ c.Passes bs c.skipBreaks := by
  fun_induction skipBreaks c with
  | case1 => exact ⟨[], by simp, .refl _⟩
  | case2 last t ts ht ih =>
    obtain ⟨bs, hbs, hpass⟩ := ih
    refine ⟨t :: bs, ?_, hpass.cons⟩
    simp only [List.mem_cons, forall_eq_or_imp]
    exact ⟨ht, hbs⟩
  | case3 => exact ⟨[], by simp, .refl _⟩

end Cursor

namespace Program

lemma Phrase.blanks {bs ts : List Token} {ls : List Line} (hbs : ∀ t ∈ bs, t.kind = .newline)
    (h : Program.Phrase ts ls) : Program.Phrase (bs ++ ts) ls := by
  induction bs with
  | nil => exact h
  | cons t bs ih =>
    exact .blank (hbs t List.mem_cons_self) (ih fun u hu => hbs u (List.mem_cons_of_mem _ hu))

/-- No line starts with a line break. -/
lemma Phrase.of_blank {t : Token} {ts : List Token} {ls : List Line} (ht : t.kind = .newline)
    (h : Program.Phrase (t :: ts) ls) : Program.Phrase ts ls := by
  generalize hus : t :: ts = us at h
  cases h with
  | nil => cases hus
  | blank _ h =>
    cases hus
    exact h
  | @last us l hl =>
    obtain ⟨x, hx⟩ := hl.readFrom.kind? .origin []
    rw [List.append_nil, ← hus, Cursor.kind?] at hx
    simp [ht] at hx
  | @cons u us vs l ls hl =>
    obtain ⟨x, hx⟩ := hl.readFrom.kind? .origin (u :: vs)
    rw [← hus, Cursor.kind?] at hx
    simp [ht] at hx

lemma Phrase.of_nil {ls : List Line} (h : Program.Phrase [] ls) : ls = [] := by
  generalize hus : ([] : List Token) = us at h
  cases h with
  | nil => rfl
  | blank => cases hus
  | last h =>
    obtain ⟨x, hx⟩ := h.readFrom.kind? .origin []
    rw [List.append_nil, ← hus] at hx
    cases hx
  | cons => exact absurd hus (by simp)

/-- A line and what follows the end of the line. -/
lemma Phrase.cons_line {ts rest : List Token} {l : Line} {ls : List Line}
    (hl : Line.Phrase ts l) (hend : ∀ s, Cursor.atLineEnd ⟨s, rest⟩ = true)
    (h : Program.Phrase rest ls) : Program.Phrase (ts ++ rest) (l :: ls) := by
  cases rest with
  | nil =>
    rw [h.of_nil, List.append_nil]
    exact .last hl
  | cons t us =>
    have ht : t.kind = .newline := by simpa [Cursor.atLineEnd, Cursor.kind?] using hend .origin
    exact .cons hl ht (h.of_blank ht)

/-- A phrase that starts with a number starts with a line. -/
lemma Phrase.uncons_line {ts : List Token} {ms : List Line} {x : Number}
    (h : Program.Phrase ts ms) (hx : Cursor.kind? ⟨.origin, ts⟩ = some (.number x)) :
    ∃ us rest l ls, ts = us ++ rest ∧ Line.Phrase us l ∧
      (∀ s, Cursor.atLineEnd ⟨s, rest⟩ = true) ∧ Program.Phrase rest ls ∧ ms = l :: ls := by
  cases h with
  | nil => cases hx
  | blank ht =>
    rw [Cursor.kind?] at hx
    simp [ht] at hx
  | @last ts l hl => exact ⟨ts, [], l, [], (List.append_nil _).symm, hl, fun _ => rfl, .nil, rfl⟩
  | @cons t us vs l ls hl ht h =>
    refine ⟨us, t :: vs, l, ls, rfl, hl, fun s => ?_, .blank ht h, rfl⟩
    simp [Cursor.atLineEnd, Cursor.kind?, ht]

/-- No list of tokens has two phrases. -/
theorem Phrase.unique {ts : List Token} {ls ms : List Line} (hl : Program.Phrase ts ls)
    (hm : Program.Phrase ts ms) : ls = ms := by
  induction hl generalizing ms with
  | nil => exact hm.of_nil.symm
  | blank ht _ ih => exact ih (hm.of_blank ht)
  | @last ts l h =>
    obtain ⟨x, hx⟩ := h.readFrom.kind? .origin []
    rw [List.append_nil] at hx
    obtain ⟨us, rest, m, ms, heq, hline, hend, hrest, rfl⟩ := hm.uncons_line hx
    obtain ⟨rfl, -, rfl⟩ := h.unique hline ((List.append_nil _).trans heq) (fun _ => rfl) hend
    rw [hrest.of_nil]
  | @cons t ts us l ls h ht _ ih =>
    obtain ⟨x, hx⟩ := h.readFrom.kind? .origin (t :: us)
    obtain ⟨vs, rest, m, ms, heq, hline, hend, hrest, rfl⟩ := hm.uncons_line hx
    have hbreak : ∀ s, Cursor.atLineEnd ⟨s, t :: us⟩ = true := by
      simp [Cursor.atLineEnd, Cursor.kind?, ht]
    obtain ⟨rfl, -, rfl⟩ := h.unique hline heq hbreak hend
    rw [ih (hrest.of_blank ht)]

/-! ### Programs -/

lemma perm_insertLine (l : Line) (ls : List Line) : (insertLine l ls).Perm (l :: ls) := by
  induction ls with
  | nil => exact .refl _
  | cons m ms ih =>
    rw [insertLine]
    split
    · exact .refl _
    · exact (ih.cons m).trans (.swap l m ms)

lemma perm_append_insertLine (l : Line) (ls ms : List Line) :
    (ls ++ insertLine l ms).Perm (l :: ls ++ ms) :=
  ((perm_insertLine l ms).append_left ls).trans List.perm_middle

lemma get?_eq_none_iff {p : Program} {n : Nat} :
    p.get? n = none ↔ n ∉ p.lines.map Line.number := by
  simp [get?, List.find?_eq_none]

/-- A number that occurs once among lines and those of a program is free in the program. -/
lemma get?_eq_none_of_nodup {l : Line} {ls : List Line} {p : Program}
    (h : ((l :: ls ++ p.lines).map Line.number).Nodup) : p.get? l.number = none := by
  have hnot : l.number ∉ (ls ++ p.lines).map Line.number := (List.nodup_cons.mp h).1
  rw [List.map_append] at hnot
  rw [get?_eq_none_iff]
  exact fun hmem => hnot (List.mem_append_right _ hmem)

lemma nodup_numbers (p : Program) : (p.lines.map Line.number).Nodup := by
  rw [List.Nodup, List.pairwise_map]
  exact p.ascending.imp Nat.ne_of_lt

/-- Programs with the same lines in some order are equal. -/
lemma eq_of_perm {p p' : Program} (h : p.lines.Perm p'.lines) : p = p' := by
  apply Program.ext
  refine h.eq_of_pairwise ?_ p.ascending p'.ascending
  intro a b _ _ hab hba
  exact absurd (Nat.lt_trans hab hba) (Nat.lt_irrefl _)

/-- A computation whose result is seen through a function has that result. -/
lemma exists_ok_of_map {ε α β : Type} {r : Except ε α} {f : α → β} {b : β}
    (h : r.toOption.map f = some b) : ∃ a, r = .ok a ∧ f a = b := by
  obtain ⟨a, ha, hb⟩ := Option.map_eq_some_iff.mp h
  cases r with
  | error e => cases ha
  | ok a' =>
    cases ha
    exact ⟨a, rfl, hb⟩

/-- A program that is read has the lines that it is seen to have. -/
lemma exists_of_lines {ε : Type} {r : Except ε Program} {ls : List Line}
    (h : r.toOption.map Program.lines = some ls) : ∃ p, r = .ok p ∧ p.lines = ls :=
  exists_ok_of_map h

/-- A program is determined by the lines that are read. -/
lemma eq_ok_of_lines {ε : Type} {r : Except ε Program} {p : Program}
    (h : r.toOption.map Program.lines = some p.lines) : r = .ok p := by
  obtain ⟨p', hok, hlines⟩ := exists_of_lines h
  rw [hok, Program.ext hlines]

/-- Lines are read until no token is left: each one is added if its number is not taken. -/
lemma readLines_cases {p p' : Program} {c : Cursor} (h : readLines p c = .ok p') :
    (c.skipBreaks.rest = [] ∧ p = p') ∨
      ∃ ts l next, Line.ReadFrom ts l ∧ c.skipBreaks.Passes ts next ∧ next.atLineEnd = true ∧
        next.rest.length < c.rest.length ∧
          ∃ fresh : p.get? l.number = none, readLines (p.insert l fresh) next = .ok p' := by
  rw [readLines] at h
  split at h
  next hempty =>
    cases h
    exact .inl ⟨List.isEmpty_iff.mp hempty, rfl⟩
  next =>
    split at h
    next => cases h
    next line hline =>
      split at h
      next fresh =>
        obtain ⟨ts, hts, hpass, hend⟩ := Line.readFrom_of_read hline
        have hshort := Nat.lt_of_lt_of_le line.short (Cursor.skipBreaks_length c)
        exact .inr ⟨ts, line.value, line.next, hts, hpass, hend, hshort, fresh, h⟩
      next => cases h

/-- What was read before stays, and what is read is a phrase. -/
theorem readLines_sound (c : Cursor) (hc : ∀ t ∈ c.rest, t.kind.nonNegative = true) (p : Program) :
    ∀ p', readLines p c = .ok p' →
      ∃ ls, Program.Phrase c.rest ls ∧ p'.lines.Perm (ls ++ p.lines) := by
  induction c using Cursor.shorterInduction generalizing p with
  | _ c ih =>
    intro p' h
    obtain ⟨bs, hbs, hpass⟩ := c.skipBreaks_passes
    rcases readLines_cases h with ⟨hempty, rfl⟩ | ⟨ts, l, next, hts, hpass', hend, hshort, fresh, h⟩
    · refine ⟨[], ?_, .refl _⟩
      rw [hpass.rest, hempty]
      exact .blanks hbs .nil
    · have hrest : c.rest = bs ++ (ts ++ next.rest) :=
        hpass.rest.trans (congrArg (bs ++ ·) hpass'.rest)
      rw [hrest] at hc ⊢
      obtain ⟨-, hline⟩ := List.forall_mem_append.mp hc
      obtain ⟨hline, hnext⟩ := List.forall_mem_append.mp hline
      obtain ⟨ls, hls, hperm⟩ := ih next hshort hnext _ p' h
      refine ⟨l :: ls, ?_, hperm.trans (perm_append_insertLine l ls p.lines)⟩
      exact .blanks hbs (.cons_line (hts.phrase hline) (fun _ => hend) hls)

/-- Reads lines from a cursor that stands before no line break. -/
def readFrom (p : Program) (c : Cursor) : Except ParseError Program :=
  if c.rest.isEmpty then .ok p
  else
    (Reading.result (Line.read c)).bind fun x =>
      if fresh : p.get? x.1.number = none then readLines (p.insert x.1 fresh) x.2
      else .error ⟨.duplicateLine x.1.number, x.1.span⟩

lemma readLines_eq_readFrom (p : Program) (c : Cursor) :
    readLines p c = readFrom p c.skipBreaks := by
  rw [readLines, readFrom]
  cases Line.read c.skipBreaks <;> rfl

lemma readLines_nil (p : Program) (s : Span) : readLines p ⟨s, []⟩ = .ok p := by
  rw [readLines_eq_readFrom, Cursor.skipBreaks_of_kind (by simp [Cursor.kind?])]
  rfl

lemma readLines_blank {t : Token} (ht : t.kind = .newline) (p : Program) (s : Span)
    (ts : List Token) : readLines p ⟨s, t :: ts⟩ = readLines p ⟨t.span, ts⟩ := by
  rw [readLines_eq_readFrom, Cursor.skipBreaks_blank ht, ← readLines_eq_readFrom]

lemma readLines_line {ts : List Token} {l : Line} (hl : Line.ReadFrom ts l) (p : Program) (s : Span)
    {rest : List Token} (hrest : Cursor.atLineEnd ⟨lastSpan s ts, rest⟩ = true)
    (fresh : p.get? l.number = none) :
    readLines p ⟨s, ts ++ rest⟩ = readLines (p.insert l fresh) ⟨lastSpan s ts, rest⟩ := by
  obtain ⟨x, hx⟩ := hl.kind? s rest
  have hbreak : Cursor.skipBreaks ⟨s, ts ++ rest⟩ = ⟨s, ts ++ rest⟩ := by
    apply Cursor.skipBreaks_of_kind
    rw [hx]
    simp
  have hne : (ts ++ rest).isEmpty = false := by
    rw [List.isEmpty_eq_false_iff]
    intro hnil
    rw [hnil] at hx
    cases hx
  rw [readLines_eq_readFrom, hbreak, readFrom]
  simp only [hne, hl.read s hrest, Except.bind, fresh, dite_true]
  rfl

/-- The lines of a phrase with distinct numbers are added to those read before. -/
theorem Phrase.readLines {ts : List Token} {ls : List Line} (h : Program.Phrase ts ls) :
    ∀ (p : Program) (s : Span), ((ls ++ p.lines).map Line.number).Nodup →
      ∃ p', Program.readLines p ⟨s, ts⟩ = .ok p' ∧ p'.lines.Perm (ls ++ p.lines) := by
  induction h with
  | nil =>
    intro p s _
    exact ⟨p, readLines_nil p s, .refl _⟩
  | blank ht _ ih =>
    intro p s hnodup
    rw [readLines_blank ht]
    exact ih p _ hnodup
  | @last ts l h =>
    intro p s hnodup
    have fresh := get?_eq_none_of_nodup hnodup
    refine ⟨p.insert l fresh, ?_, perm_insertLine l p.lines⟩
    rw [← List.append_nil ts, readLines_line h.readFrom p s rfl fresh, readLines_nil]
  | @cons t ts us l ls h ht _ ih =>
    intro p s hnodup
    have fresh := get?_eq_none_of_nodup hnodup
    have hperm := perm_append_insertLine l ls p.lines
    have hbreak : Cursor.atLineEnd ⟨lastSpan s ts, t :: us⟩ = true := by
      simp [Cursor.atLineEnd, Cursor.kind?, ht]
    rw [readLines_line h.readFrom p s hbreak fresh, readLines_blank ht]
    obtain ⟨p', hp', hperm'⟩ :=
      ih (p.insert l fresh) t.span ((hperm.map Line.number).nodup_iff.mpr hnodup)
    exact ⟨p', hp', hperm'.trans hperm⟩

/-- **The reader and the grammar.**  Tokens whose numbers are not below zero are read as a program
exactly if they are a phrase whose line numbers are distinct, and then the program has the lines
of the phrase.  There is at most one phrase. -/
theorem ofTokens_eq_ok_iff_phrase (tokens : List Token)
    (hnonneg : ∀ t ∈ tokens, t.kind.nonNegative = true) :
    (∀ p : Program, ofTokens tokens = .ok p ↔
      ∃ ls, Program.Phrase tokens ls ∧ (ls.map Line.number).Nodup ∧ p.lines.Perm ls) ∧
    ∀ ls ms, Program.Phrase tokens ls → Program.Phrase tokens ms → ls = ms := by
  refine ⟨fun p => ⟨fun h => ?_, ?_⟩, fun _ _ hl hm => hl.unique hm⟩
  · obtain ⟨ls, hls, hperm⟩ := readLines_sound (.start tokens) hnonneg empty p h
    rw [show ls ++ empty.lines = ls from List.append_nil ls] at hperm
    exact ⟨ls, hls, (hperm.map Line.number).nodup_iff.mp p.nodup_numbers, hperm⟩
  · rintro ⟨ls, hls, hnodup, hperm⟩
    have hnil : ls ++ empty.lines = ls := List.append_nil ls
    obtain ⟨p', hp', hperm'⟩ := hls.readLines empty .origin (hnil.symm ▸ hnodup)
    rw [hnil] at hperm'
    rw [eq_of_perm (hperm.trans hperm'.symm)]
    exact hp'

/-- In `10 IF A THEN IF B THEN 20 ELSE END` the `ELSE` belongs to the second `IF`. -/
theorem ofTokens_inner_else :
    let tokens : List Token :=
      [⟨.number 10, ⟨0, 2⟩, 1, 1⟩, ⟨.keyword .ifKw, ⟨3, 5⟩, 1, 4⟩, ⟨.ident "A", ⟨6, 7⟩, 1, 7⟩,
       ⟨.keyword .thenKw, ⟨8, 12⟩, 1, 9⟩, ⟨.keyword .ifKw, ⟨13, 15⟩, 1, 14⟩,
       ⟨.ident "B", ⟨16, 17⟩, 1, 17⟩, ⟨.keyword .thenKw, ⟨18, 22⟩, 1, 19⟩,
       ⟨.number 20, ⟨23, 25⟩, 1, 24⟩, ⟨.keyword .elseKw, ⟨26, 30⟩, 1, 27⟩,
       ⟨.keyword .endKw, ⟨31, 34⟩, 1, 32⟩]
    (∀ t ∈ tokens, t.kind.nonNegative = true) ∧
      ∃ ls, Program.Phrase tokens ls ∧ ls.map Line.statement =
        [.ifThen (.ident "A" ⟨6, 7⟩)
          (.ifThenElse (.ident "B" ⟨16, 17⟩) (.goto (.number 20 ⟨23, 25⟩) ⟨23, 25⟩)
            (.halt ⟨31, 34⟩) ⟨13, 34⟩) ⟨3, 34⟩] := by
  intro tokens
  have hnonneg : ∀ t ∈ tokens, t.kind.nonNegative = true := by decide +kernel
  have hread : (ofTokens tokens).toOption.map Program.lines =
      some [⟨10, .ifThen (.ident "A" ⟨6, 7⟩)
        (.ifThenElse (.ident "B" ⟨16, 17⟩) (.goto (.number 20 ⟨23, 25⟩) ⟨23, 25⟩)
          (.halt ⟨31, 34⟩) ⟨13, 34⟩) ⟨3, 34⟩, ⟨0, 34⟩⟩] := by decide +kernel
  obtain ⟨p, hok, hlines⟩ := exists_of_lines hread
  obtain ⟨ls, hls, -, hperm⟩ := ((ofTokens_eq_ok_iff_phrase tokens hnonneg).1 p).mp hok
  refine ⟨hnonneg, ls, hls, ?_⟩
  rw [hlines] at hperm
  rw [List.perm_singleton.mp hperm.symm]
  rfl

end Program

end LineBasic
