import LineBasic.Proofs.Reading.Program
import Mathlib.Data.List.Forall2
import Mathlib.Data.List.ReduceOption

/-!
# Reading line by line

No phrase reaches across a line break, so that each line is read on its own.

* `Line.ReadFrom.not_newline`: there is no line break in the tokens of a line;
* `IsBlock`: the tokens up to a line break;
* `Line.Block`: such tokens with the line that they write, if they write one;
* `Program.readLines_blocks`: a program is read from such tokens exactly if each of them writes a
  line or nothing and no number is taken twice.
-/

namespace LineBasic

/-! ### Line breaks in phrases -/

lemma Expr.Phrase.not_newline {k : Level} {ts : List Token} {e : Expr} (h : Expr.Phrase k ts e) :
    ∀ t ∈ ts, t.kind ≠ .newline := by
  induction h with
  | number => simp
  | string => simp
  | ident => simp
  | parens ht hu h ih => simpa [ht, hu, or_imp, forall_and] using ih
  | minusLiteral ht h ih => simpa [ht] using ih
  | minus ht h he ih => simpa [ht] using ih
  | binary ht ha hb iha ihb => simpa [ht, or_imp, forall_and] using ⟨iha, ihb⟩
  | tighter h ih => exact ih

lemma NamesPhrase.not_newline {ts : List Token} {names : List String} (h : NamesPhrase ts names) :
    ∀ t ∈ ts, t.kind ≠ .newline := by
  induction h with
  | one ht => simp [ht]
  | more ht hu h ih => simpa [ht, hu] using ih

lemma Statement.Assignment.not_newline {ts : List Token} {s : Statement} (h : Assignment ts s) :
    ∀ t ∈ ts, t.kind ≠ .newline := by
  obtain ⟨ht, hu, he⟩ := h
  simpa [ht, hu] using he.not_newline

lemma Statement.Phrase.not_newline {k : Place} {ts : List Token} {s : Statement}
    (h : Statement.Phrase k ts s) : ∀ t ∈ ts, t.kind ≠ .newline := by
  induction h with
  | assign h => exact h.not_newline
  | letAssign hw h => simpa [hw] using h.not_newline
  | printBlank hw => simp [hw]
  | print hw he => simpa [hw] using he.not_newline
  | ifThen hw hc hu hb ih => simpa [hw, hu, or_imp, forall_and] using ⟨hc.not_newline, ih⟩
  | ifThenElse hw hc hu ha closed hv hb iha ihb =>
    simpa [hw, hu, hv, or_imp, forall_and] using ⟨hc.not_newline, iha, ihb⟩
  | goto hw he => simpa [hw] using he.not_newline
  | gosub hw he => simpa [hw] using he.not_newline
  | ret hw => simp [hw]
  | input hw h => simpa [hw] using h.not_newline
  | halt hw => simp [hw]
  | jump => simp
  | branch h ih => exact ih

/-- There is no line break in the tokens of a line. -/
lemma Line.ReadFrom.not_newline {ts : List Token} {l : Line} (h : Line.ReadFrom ts l) :
    ∀ t ∈ ts, t.kind ≠ .newline := by
  obtain ⟨hx, hst⟩ := h
  simpa using hst.not_newline

/-! ### Blocks -/

/-- Tokens of which the last one, and no other, is a line break. -/
def IsBlock (ts : List Token) : Prop :=
  ∃ kinds, ts.map Token.kind = kinds ++ [.newline] ∧ .newline ∉ kinds

lemma IsBlock.exists_body {ts : List Token} (h : IsBlock ts) :
    ∃ body t, ts = body ++ [t] ∧ (∀ u ∈ body, u.kind ≠ .newline) ∧ t.kind = .newline := by
  obtain ⟨kinds, hkinds, hbreak⟩ := h
  obtain ⟨body, last, rfl, rfl, hlast⟩ := List.map_eq_append_iff.mp hkinds
  obtain ⟨t, rfl, ht⟩ := List.map_eq_singleton_iff.mp hlast
  refine ⟨body, t, rfl, fun u hu heq => hbreak ?_, ht⟩
  exact List.mem_map.mpr ⟨u, hu, heq⟩

/-- Tokens up to a line break, with the line that they write. A line break alone writes none. -/
inductive Line.Block : List Token → Option Line → Prop
  | blank {t : Token} (ht : t.kind = .newline) : Line.Block [t] none
  | line {ts : List Token} {t : Token} {l : Line} (h : Line.ReadFrom ts l)
      (ht : t.kind = .newline) : Line.Block (ts ++ [t]) (some l)

/-- Two ways to cut tokens before their first line break are the same. -/
lemma append_eq_of_not_newline {body ts us rest : List Token} {t : Token}
    (heq : body ++ t :: rest = ts ++ us) (hbody : ∀ u ∈ body, u.kind ≠ .newline)
    (ht : t.kind = .newline) (hts : ∀ u ∈ ts, u.kind ≠ .newline)
    (hend : ∀ s, Cursor.atLineEnd ⟨s, us⟩ = true) : ts = body ∧ us = t :: rest := by
  rcases List.append_eq_append_iff.mp heq with ⟨middle, rfl, hrest⟩ | ⟨middle, rfl, rfl⟩
  · cases middle with
    | nil => exact ⟨List.append_nil _, hrest.symm⟩
    | cons u middle =>
      obtain ⟨rfl, -⟩ := List.cons.inj hrest
      exact absurd ht (hts t (by simp))
  · cases middle with
    | nil => exact ⟨(List.append_nil _).symm, rfl⟩
    | cons u middle =>
      have hu : u.kind = .newline := by
        simpa [Cursor.atLineEnd, Cursor.kind?] using hend .origin
      exact absurd hu (hbody u (by simp))

namespace Program

/-- Reading a block adds its line, if it writes one, and goes on after it. -/
lemma readLines_block {ts : List Token} (hts : IsBlock ts) {p p' : Program} {s : Span}
    {rest : List Token} (h : readLines p ⟨s, ts ++ rest⟩ = .ok p') :
    (Line.Block ts none ∧ readLines p ⟨lastSpan s ts, rest⟩ = .ok p') ∨
      ∃ l, Line.Block ts (some l) ∧ ∃ fresh : p.get? l.number = none,
        readLines (p.insert l fresh) ⟨lastSpan s ts, rest⟩ = .ok p' := by
  obtain ⟨body, t, rfl, hbody, ht⟩ := hts.exists_body
  cases body with
  | nil =>
    rw [List.nil_append, List.singleton_append, readLines_blank ht] at h
    exact .inl ⟨.blank ht, h⟩
  | cons u body =>
    have hskip : Cursor.skipBreaks ⟨s, u :: body ++ [t] ++ rest⟩ =
        ⟨s, u :: body ++ [t] ++ rest⟩ := by
      apply Cursor.skipBreaks_of_kind
      simpa [Cursor.kind?] using hbody u List.mem_cons_self
    rcases readLines_cases h with ⟨hempty, -⟩ | ⟨us, l, next, hus, hpass, hend, -, fresh, h⟩
    · rw [hskip] at hempty
      cases hempty
    · rw [hskip] at hpass
      have hrest := hpass.rest
      rw [List.append_assoc, List.singleton_append] at hrest
      obtain ⟨rfl, hnext⟩ := append_eq_of_not_newline hrest hbody ht hus.not_newline fun _ => hend
      have hcursor : next = ⟨lastSpan s (u :: body), t :: rest⟩ := by
        rw [← hnext, ← hpass.last]
      rw [hcursor, readLines_blank ht] at h
      refine .inr ⟨l, .line hus ht, fresh, ?_⟩
      rwa [lastSpan_append]

/-- A block that writes a line is read. -/
lemma readLines_of_block {ts : List Token} {l : Line} (h : Line.Block ts (some l)) (p : Program)
    (s : Span) (rest : List Token) (fresh : p.get? l.number = none) :
    readLines p ⟨s, ts ++ rest⟩ = readLines (p.insert l fresh) ⟨lastSpan s ts, rest⟩ := by
  cases h with
  | @line ts t l hl ht =>
    have hend : Cursor.atLineEnd ⟨lastSpan s ts, t :: rest⟩ = true := by
      simp [Cursor.atLineEnd, Cursor.kind?, ht]
    rw [List.append_assoc, List.singleton_append, readLines_line hl p s hend fresh,
      readLines_blank ht, lastSpan_append]
    rfl

/-- A program is read from blocks exactly if each of them writes a line or nothing, and no number is
taken twice. It has the lines that were there and those that are written. -/
theorem readLines_blocks {blocks : List (List Token)} (h : ∀ ts ∈ blocks, IsBlock ts)
    {p p' : Program} {s : Span} :
    readLines p ⟨s, blocks.flatten⟩ = .ok p' ↔
      ∃ ls, List.Forall₂ Line.Block blocks ls ∧
        ((ls.reduceOption ++ p.lines).map Line.number).Nodup ∧
          p'.lines.Perm (ls.reduceOption ++ p.lines) := by
  induction blocks generalizing p s with
  | nil =>
    rw [List.flatten_nil, readLines_nil]
    constructor
    · rintro ⟨⟩
      exact ⟨[], .nil, nodup_numbers _, .refl _⟩
    · rintro ⟨ls, hls, -, hperm⟩
      cases hls
      rw [eq_of_perm hperm]
  | cons ts blocks ih =>
    obtain ⟨hts, hblocks⟩ := List.forall_mem_cons.mp h
    rw [List.flatten_cons]
    constructor
    · intro hread
      rcases readLines_block hts hread with ⟨hblank, hrest⟩ | ⟨l, hl, fresh, hrest⟩
      · obtain ⟨ls, hls, hnodup, hperm⟩ := (ih hblocks).mp hrest
        exact ⟨none :: ls, .cons hblank hls, hnodup, hperm⟩
      · obtain ⟨ls, hls, hnodup, hperm⟩ := (ih hblocks).mp hrest
        have hinsert := perm_append_insertLine l ls.reduceOption p.lines
        exact ⟨some l :: ls, .cons hl hls, (hinsert.map Line.number).nodup_iff.mp hnodup,
          hperm.trans hinsert⟩
    · rintro ⟨_, hls, hnodup, hperm⟩
      cases hls with
      | @cons _ o _ ls ho hls =>
        cases o with
        | none =>
          cases ho with
          | blank ht =>
            rw [List.singleton_append, readLines_blank ht]
            exact (ih hblocks).mpr ⟨ls, hls, hnodup, hperm⟩
        | some l =>
          have fresh : p.get? l.number = none := get?_eq_none_of_nodup hnodup
          have hinsert := perm_append_insertLine l ls.reduceOption p.lines
          rw [readLines_of_block ho p s _ fresh]
          exact (ih hblocks).mpr ⟨ls, hls, (hinsert.map Line.number).nodup_iff.mpr hnodup,
            hperm.trans hinsert.symm⟩

end Program

end LineBasic
