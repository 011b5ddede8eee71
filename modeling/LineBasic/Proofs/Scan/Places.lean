import LineBasic.Proofs.Scan.Lexeme

/-!
# Nothing is lost in a scan

Every part of a text is in a token or in a gap, and every token knows its place.

* `Position.past`: the place after a text, from its bytes and line feeds;
* `Position.after_past`: a lexeme moves it as its text does, since a line feed stands only in a
  line break;
* `IsGapText`: blanks and remarks;
* `gapSpans`: what is before, between and after tokens;
* `scan_lossless`: the spans of tokens are in order, gaps are between them, lines and columns are
  right, and the text of a token on its own is the same token.
-/

namespace LineBasic

/-! ### Places -/

/-- The characters after the last line feed. -/
def Text.lastLine (cs : List Char) : List Char := (cs.reverse.takeWhile (· != '\n')).reverse

namespace Text

lemma lastLine_append {ds : List Char} (h : '\n' ∉ ds) (cs : List Char) :
    lastLine (cs ++ ds) = lastLine cs ++ ds := by
  have hall : ∀ d ∈ ds.reverse, (d != '\n') = true := by
    intro d hd
    simp only [bne_iff_ne]
    rintro rfl
    exact h (List.mem_reverse.mp hd)
  rw [lastLine, List.reverse_append, List.takeWhile_append_of_pos hall, List.reverse_append,
    List.reverse_reverse, lastLine]

lemma lastLine_append_newline (cs : List Char) : lastLine (cs ++ ['\n']) = [] := by
  simp [lastLine]

lemma byteLength_lastLine_le (cs : List Char) : byteLength (lastLine cs) ≤ byteLength cs := by
  have hsplit : cs = (cs.reverse.dropWhile (· != '\n')).reverse ++ lastLine cs := by
    rw [lastLine, ← List.reverse_append, List.takeWhile_append_dropWhile, List.reverse_reverse]
  have hlength := congrArg byteLength hsplit
  rw [byteLength_append] at hlength
  omega

lemma byteLength_pos {cs : List Char} (h : cs ≠ []) : 0 < byteLength cs := by
  cases cs with
  | nil => exact absurd rfl h
  | cons c cs =>
    have hsize := c.utf8Size_pos
    rw [byteLength_cons]
    omega

end Text

namespace Scan

open Text

/-- The place after a text. -/
def Position.past (before : List Char) : Position :=
  ⟨byteLength before, 1 + before.count '\n', byteLength before - byteLength (lastLine before)⟩

namespace Position

lemma column_past (before : List Char) :
    (past before).column = 1 + byteLength (lastLine before) := by
  have hle := byteLength_lastLine_le before
  simp only [column, past]
  omega

/-- A lexeme moves a place as its text does. -/
lemma after_past (before : List Char) {text : List Char} {x : Lexeme} (h : Spelled text x) :
    (past before).after text x = past (before ++ text) := by
  by_cases hx : x = .token .newline
  · subst hx
    have hcount : text.count '\n' = 1 := by rcases h.eq_of_newline with rfl | rfl <;> decide
    have hlast : lastLine (before ++ text) = [] := by
      rcases h.eq_of_newline with rfl | rfl
      · exact lastLine_append_newline before
      · simpa using lastLine_append_newline (before ++ ['\r'])
    simp [after, past, hcount, hlast, Nat.add_assoc]
  · have hmem : '\n' ∉ text := fun hmem => hx (h.newline_of_mem hmem)
    have hstart : byteLength before + byteLength text -
        (byteLength (lastLine before) + byteLength text) =
          byteLength before - byteLength (lastLine before) := by omega
    simp [after, past, hx, List.count_eq_zero_of_not_mem hmem, lastLine_append hmem, hstart]

/-! ### Tokens and their texts -/

variable {before : List Char} {pieces : List (List Char × Lexeme)}

/-- Lexemes move a place as their texts do. -/
lemma afterAll_past (before : List Char) {first : List (List Char × Lexeme)}
    (h : ∀ x ∈ first, Spelled x.1 x.2) :
    (past before).afterAll first = past (before ++ first.flatMap Prod.fst) := by
  induction first generalizing before with
  | nil => simp [afterAll]
  | cons x first ih =>
    obtain ⟨hx, hfirst⟩ := List.forall_mem_cons.mp h
    rw [afterAll, after_past before hx, ih _ hfirst, List.flatMap_cons, List.append_assoc]

/-- A token stands for one lexeme. -/
lemma exists_piece_of_mem {t : Token} (h : ∀ x ∈ pieces, Spelled x.1 x.2)
    (ht : t ∈ (past before).tokensOf pieces) :
    ∃ first text later, pieces = first ++ (text, .token t.kind) :: later ∧
      t ∈ (past (before ++ first.flatMap Prod.fst)).tokens text (.token t.kind) := by
  induction pieces generalizing before with
  | nil => cases ht
  | cons x pieces ih =>
    obtain ⟨text, lexeme⟩ := x
    obtain ⟨hx, hpieces⟩ := List.forall_mem_cons.mp h
    rw [tokensOf, after_past before hx] at ht
    rcases List.mem_append.mp ht with ht | ht
    · cases lexeme with
      | gap => cases ht
      | token kind =>
        obtain rfl := List.mem_singleton.mp ht
        exact ⟨[], text, pieces, rfl, by simp [tokens]⟩
    · obtain ⟨first, text', later, rfl, ht⟩ := ih hpieces ht
      refine ⟨(text, lexeme) :: first, text', later, rfl, ?_⟩
      rwa [List.flatMap_cons, ← List.append_assoc]

/-- Tokens after a text start after its bytes. -/
lemma byteLength_le_start {t : Token} (h : ∀ x ∈ pieces, Spelled x.1 x.2)
    (ht : t ∈ (past before).tokensOf pieces) : byteLength before ≤ t.span.start := by
  obtain ⟨first, text, later, -, ht⟩ := exists_piece_of_mem h ht
  rw [List.mem_singleton.mp ht]
  simp [span, past]

/-- The spans of tokens are in order. -/
lemma pairwise_tokensOf (h : ∀ x ∈ pieces, Spelled x.1 x.2) :
    ((past before).tokensOf pieces).Pairwise fun t u => t.span.stop ≤ u.span.start := by
  induction pieces generalizing before with
  | nil => exact .nil
  | cons x pieces ih =>
    obtain ⟨text, lexeme⟩ := x
    obtain ⟨hx, hpieces⟩ := List.forall_mem_cons.mp h
    rw [tokensOf, after_past before hx, List.pairwise_append]
    refine ⟨?_, ih hpieces, fun t ht u hu => ?_⟩
    · cases lexeme <;> simp [tokens]
    · cases lexeme with
      | gap => cases ht
      | token kind =>
        have hle := byteLength_le_start hpieces hu
        rw [List.mem_singleton.mp ht]
        simpa [span, past] using hle

end Position

/-- Every token stands for a lexeme of the text. -/
lemma spelled_of_mem_scan {source : String} {tokens : List Token} (h : scan source = .ok tokens)
    {t : Token} (ht : t ∈ tokens) : ∃ text, Spelled text (.token t.kind) := by
  obtain ⟨pieces, hpieces, rfl⟩ := scanFrom_eq_ok_iff.mp h
  obtain ⟨-, hspelled⟩ := spelled_of_lexemes hpieces
  have hstart : Position.start = .past [] := rfl
  rw [hstart] at ht
  obtain ⟨first, text, later, rfl, -⟩ := Position.exists_piece_of_mem hspelled ht
  exact ⟨text, hspelled (text, .token t.kind) (List.mem_append_right _ List.mem_cons_self)⟩

/-! ### Gaps -/

/-- A text of blanks and remarks. -/
def IsGapText (text : List Char) : Prop :=
  ∃ parts : List (List Char), text = parts.flatten ∧ ∀ part ∈ parts, Spelled part .gap

lemma IsGapText.append {gap part : List Char} (h : IsGapText gap) (hpart : Spelled part .gap) :
    IsGapText (gap ++ part) := by
  obtain ⟨parts, rfl, hparts⟩ := h
  exact ⟨parts ++ [part], by simp, List.forall_mem_append.mpr ⟨hparts, by simpa using hpart⟩⟩

end Scan

/-- A span is where a text stands in a source. -/
structure Span.CutsOut (s : Span) (source before text after : List Char) : Prop where
  source_eq : source = before ++ text ++ after
  start : s.start = Text.byteLength before
  stop : s.stop = Text.byteLength before + Text.byteLength text

/-- The span covers the byte at an offset. -/
def Span.Covers (s : Span) (offset : Nat) : Prop := s.start ≤ offset ∧ offset < s.stop

/-- What is before, between and after tokens, from one offset to another. -/
def gapSpans (start stop : Nat) : List Token → List Span
  | [] => [⟨start, stop⟩]
  | t :: ts => ⟨start, t.span.start⟩ :: gapSpans t.span.stop stop ts

namespace Scan

open Text Position

variable {pieces : List (List Char × Lexeme)} {tokens : List Token}

/-- Gaps are where no tokens are. -/
lemma isGapText_of_mem_gapSpans {before gap : List Char} (hgap : IsGapText gap)
    (h : ∀ x ∈ pieces, Spelled x.1 x.2) {s : Span}
    (hs : s ∈ gapSpans (byteLength before)
      (byteLength (before ++ gap ++ pieces.flatMap Prod.fst))
      ((past (before ++ gap)).tokensOf pieces)) :
    ∃ start text stop, s.CutsOut (before ++ gap ++ pieces.flatMap Prod.fst) start text stop ∧
      IsGapText text := by
  induction pieces generalizing before gap with
  | nil =>
    rw [List.mem_singleton.mp hs]
    exact ⟨before, gap, [], ⟨rfl, rfl, by simp⟩, hgap⟩
  | cons x pieces ih =>
    obtain ⟨text, lexeme⟩ := x
    obtain ⟨hx, hpieces⟩ := List.forall_mem_cons.mp h
    rw [List.flatMap_cons, ← List.append_assoc] at hs ⊢
    rw [Position.tokensOf, after_past _ hx] at hs
    cases lexeme with
    | gap =>
      rw [List.append_assoc before gap text] at hs ⊢
      exact ih (hgap.append hx) hpieces hs
    | token kind =>
      rcases List.mem_cons.mp hs with rfl | hs
      · refine ⟨before, gap, text ++ pieces.flatMap Prod.fst, ⟨by simp, rfl, ?_⟩, hgap⟩
        simp [span, past]
      · have hempty : IsGapText [] := ⟨[], rfl, by simp⟩
        have hstop : ((past (before ++ gap)).span text).stop = byteLength (before ++ gap ++ text) :=
          (byteLength_append ..).symm
        have hrest := @ih (before ++ gap ++ text) [] hempty hpieces
        rw [List.append_nil, ← hstop] at hrest
        exact hrest hs

/-! ### Line feeds -/

/-- A character of a text is in one of its pieces. -/
lemma exists_piece_of_split {before after : List Char} {c : Char}
    (h : pieces.flatMap Prod.fst = before ++ c :: after) :
    ∃ first text lexeme later start stop, pieces = first ++ (text, lexeme) :: later ∧
      text = start ++ c :: stop ∧ before = first.flatMap Prod.fst ++ start := by
  induction pieces generalizing before with
  | nil => simp at h
  | cons x pieces ih =>
    obtain ⟨text, lexeme⟩ := x
    rw [List.flatMap_cons] at h
    rcases List.append_eq_append_iff.mp h with ⟨middle, rfl, hmiddle⟩ | ⟨middle, htext, hmiddle⟩
    · obtain ⟨first, text', lexeme', later, start, stop, rfl, htext', rfl⟩ := ih hmiddle
      exact ⟨(text, lexeme) :: first, text', lexeme', later, start, stop, rfl, htext', by simp⟩
    · cases middle with
      | nil =>
        obtain ⟨first, text', lexeme', later, start, stop, rfl, htext', hstart⟩ :=
          @ih [] hmiddle.symm
        refine ⟨(text, lexeme) :: first, text', lexeme', later, start, stop, rfl, htext', ?_⟩
        simp only [List.append_nil] at htext
        simp [htext, ← hstart]
      | cons d middle =>
        obtain ⟨rfl, -⟩ := List.cons.inj hmiddle
        exact ⟨[], text, lexeme, pieces, before, middle, rfl, htext, rfl⟩

/-- A line feed is in one line break and in no other token. -/
lemma exists_newline_of_split (h : ∀ x ∈ pieces, Spelled x.1 x.2) {before after : List Char}
    (hsplit : pieces.flatMap Prod.fst = before ++ '\n' :: after) :
    ∃ ts t us, (past []).tokensOf pieces = ts ++ t :: us ∧ t.kind = .newline ∧
      t.span.Covers (byteLength before) ∧ ∀ u ∈ ts ++ us, ¬ u.span.Covers (byteLength before) := by
  obtain ⟨first, text, lexeme, later, start, stop, rfl, htext, rfl⟩ := exists_piece_of_split hsplit
  obtain ⟨hfirst, hlater⟩ := List.forall_mem_append.mp h
  obtain ⟨hx, hlater⟩ := List.forall_mem_cons.mp hlater
  obtain rfl : lexeme = .token .newline := hx.newline_of_mem (by simp [htext])
  have hpairwise := @pairwise_tokensOf [] _ h
  have htokens : (past []).tokensOf (first ++ (text, .token .newline) :: later) =
      (past []).tokensOf first ++
        ⟨.newline, (past (first.flatMap Prod.fst)).span text, (past (first.flatMap Prod.fst)).line,
          (past (first.flatMap Prod.fst)).column⟩ ::
          (past (first.flatMap Prod.fst ++ text)).tokensOf later := by
    rw [tokensOf_append, afterAll_past [] hfirst, Position.tokensOf, after_past _ hx,
      List.nil_append]
    rfl
  have hcovers : ((past (first.flatMap Prod.fst)).span text).Covers
      (byteLength (first.flatMap Prod.fst ++ start)) := by
    have hsize := Char.utf8Size_pos '\n'
    simp only [Span.Covers, span, past, htext, byteLength_append, byteLength_cons]
    omega
  rw [htokens, List.pairwise_append, List.pairwise_cons] at hpairwise
  obtain ⟨-, ⟨habove, -⟩, hbelow⟩ := hpairwise
  refine ⟨_, _, _, htokens, rfl, hcovers, fun u hu hcovers' => ?_⟩
  rcases List.mem_append.mp hu with hu | hu
  · have hle := hbelow u hu _ List.mem_cons_self
    exact absurd (Nat.lt_of_lt_of_le hcovers'.2 hle) (Nat.not_lt.mpr hcovers.1)
  · have hle := habove u hu
    exact absurd (Nat.lt_of_lt_of_le hcovers.2 hle) (Nat.not_lt.mpr hcovers'.1)

end Scan

/-! ### Texts of tokens -/

/-- The text of a token on its own is one token of the same kind. -/
lemma scan_of_spelled {text : List Char} {kind : Kind} (h : Scan.Spelled text (.token kind)) :
    ∃ u, scan (String.ofList text) = .ok [u] ∧ u.kind = kind := by
  obtain ⟨c, cs, rfl, hlexeme⟩ := Scan.lexeme?_of_spelled h
  have hpieces : Scan.lexemes (c :: cs) = some [(c :: cs, .token kind)] := by
    rw [Scan.lexemes]
    simp [hlexeme, Scan.lexemes]
  have hscan : scan (String.ofList (c :: cs)) =
      .ok (Scan.Position.start.tokensOf [(c :: cs, .token kind)]) := by
    rw [scan, String.toList_ofList]
    exact Scan.scanFrom_eq_ok_iff.mpr ⟨_, hpieces, rfl⟩
  exact ⟨_, hscan, rfl⟩

/-- Nothing is lost in a scan. The spans of tokens are in order, so that no two overlap. Each of
them cuts out a text that is not empty and that, on its own, is one token of the same kind. The line
of a token is one more than the number of line feeds before it, and its column is one more than the
number of bytes after the last of these. What is before, between and after tokens is blanks and
remarks only. Every line feed is in one line break and in no other token. -/
theorem scan_lossless (source : String) (tokens : List Token) (h : scan source = .ok tokens) :
    tokens.Pairwise (fun t u => t.span.stop ≤ u.span.start) ∧
    (∀ t ∈ tokens, ∃ before text after, t.span.CutsOut source.toList before text after ∧
      t.span.start < t.span.stop ∧ t.line = 1 + before.count '\n' ∧
      t.column = 1 + Text.byteLength (Text.lastLine before) ∧
      ∃ u, scan (String.ofList text) = .ok [u] ∧ u.kind = t.kind) ∧
    (∀ s ∈ gapSpans 0 (Text.byteLength source.toList) tokens,
      ∃ before text after, s.CutsOut source.toList before text after ∧ Scan.IsGapText text) ∧
    ∀ before after, source.toList = before ++ '\n' :: after →
      ∃ ts t us, tokens = ts ++ t :: us ∧ t.kind = .newline ∧
        t.span.Covers (Text.byteLength before) ∧
        ∀ u ∈ ts ++ us, ¬ u.span.Covers (Text.byteLength before) := by
  obtain ⟨pieces, hpieces, rfl⟩ := Scan.scanFrom_eq_ok_iff.mp h
  obtain ⟨hsource, hspelled⟩ := Scan.spelled_of_lexemes hpieces
  have hstart : Scan.Position.start = .past [] := rfl
  rw [hsource, hstart]
  refine ⟨Scan.Position.pairwise_tokensOf hspelled, fun t ht => ?_, fun s hs => ?_,
    fun before after hsplit => Scan.exists_newline_of_split hspelled hsplit⟩
  · obtain ⟨first, text, later, rfl, hpiece⟩ := Scan.Position.exists_piece_of_mem hspelled ht
    have htext : Scan.Spelled text (.token t.kind) :=
      hspelled (text, .token t.kind) (List.mem_append_right _ List.mem_cons_self)
    have htoken := List.mem_singleton.mp hpiece
    have hspan : t.span = (Scan.Position.past (first.flatMap Prod.fst)).span text :=
      congrArg Token.span htoken
    have hbytes : 0 < Text.byteLength text := by
      obtain ⟨c, cs, rfl, -⟩ := Scan.lexeme?_of_spelled htext
      exact Text.byteLength_pos (List.cons_ne_nil c cs)
    refine ⟨first.flatMap Prod.fst, text, later.flatMap Prod.fst, ?_, ?_, ?_, ?_,
      scan_of_spelled htext⟩
    · rw [hspan]
      exact ⟨by simp, rfl, rfl⟩
    · rw [hspan, Scan.Position.span]
      exact Nat.lt_add_of_pos_right hbytes
    · exact congrArg Token.line htoken
    · exact (congrArg Token.column htoken).trans (Scan.Position.column_past _)
  · have hempty : Scan.IsGapText [] := ⟨[], rfl, by simp⟩
    exact @Scan.isGapText_of_mem_gapSpans _ [] [] hempty hspelled _ hs

/-- In the text `"é"` with a tab, a remark, a line break, a space and a name, the quotes end after
four bytes, the tab and the remark are a gap, and the name is in the second column of line 2. -/
theorem accented_scan_lossless :
    scan "\"é\"\tREM é\n A" =
        .ok [⟨.string "é", ⟨0, 4⟩, 1, 1⟩, ⟨.newline, ⟨11, 12⟩, 1, 12⟩,
          ⟨.ident "A", ⟨13, 14⟩, 2, 2⟩] ∧
      ∃ before text after, Span.CutsOut ⟨4, 11⟩ "\"é\"\tREM é\n A".toList before text after ∧
        Scan.IsGapText text := by
  have hscan : scan "\"é\"\tREM é\n A" =
      .ok [⟨.string "é", ⟨0, 4⟩, 1, 1⟩, ⟨.newline, ⟨11, 12⟩, 1, 12⟩,
        ⟨.ident "A", ⟨13, 14⟩, 2, 2⟩] := by
    decide +kernel
  obtain ⟨-, -, hgaps, -⟩ := scan_lossless _ _ hscan
  exact ⟨hscan, hgaps ⟨4, 11⟩ (by decide)⟩

end LineBasic
