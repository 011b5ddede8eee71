import LineBasic.Proofs.Scan.Lexeme
import Mathlib.Data.List.Forall2

/-!
# Scanning line by line

No lexeme reaches across a line feed, so that each line of a text is scanned on its own.

* `lexeme?_append_newline`: what follows a line feed does not change a lexeme before it;
* `lexeme?_append_break`: a line break after a text does not change the text's lexemes;
* `lexemes_append`: the lexemes of a text after whole lines;
* `lexemes_flatten`: the lexemes of many lines;
* `kinds_of_line`: the tokens of a line are its own and then one line break.
-/

namespace LineBasic

namespace Scan

/-! ### Lexemes before a line feed -/

section

variable {p : Char → Bool} {d : Char} (hd : p d = false) (cs ds : List Char)
include hd

lemma takeWhile_append_cons : (cs ++ d :: ds).takeWhile p = cs.takeWhile p := by
  induction cs with
  | nil => simp [hd]
  | cons c cs ih => simp [List.takeWhile_cons, ih]

lemma dropWhile_append_cons : (cs ++ d :: ds).dropWhile p = cs.dropWhile p ++ d :: ds := by
  induction cs with
  | nil => simp [hd]
  | cons c cs ih =>
    rw [List.cons_append, List.dropWhile_cons, List.dropWhile_cons, ih]
    split <;> rfl

end

/-! A part of a line break ends every lexeme but a mark. -/

section

variable {d : Char} (hd : inRemark d = false)
include hd

lemma eq_of_inRemark : d = '\r' ∨ d = '\n' := by
  simpa [inRemark, ← Bool.not_eq_true, Decidable.or_iff_not_imp_left] using hd

lemma isGap_of_inRemark : isGap d = false := by
  rcases eq_of_inRemark hd with rfl | rfl <;> decide

lemma remarkLength_append_break (cs ds : List Char) :
    remarkLength (cs ++ d :: ds) = remarkLength cs := by
  cases cs with
  | nil => rcases eq_of_inRemark hd with rfl | rfl <;> rfl
  | cons c cs => rw [List.cons_append, remarkLength, remarkLength, takeWhile_append_cons hd]

lemma wordLexeme_append_break (c : Char) (cs ds : List Char) :
    wordLexeme c (cs ++ d :: ds) = wordLexeme c cs := by
  have hbreak : isWordRest d = false := by rcases eq_of_inRemark hd with rfl | rfl <;> decide
  rw [wordLexeme, wordLexeme, takeWhile_append_cons hbreak, dropWhile_append_cons hbreak,
    remarkLength_append_break hd]

lemma numberLexeme_append_break (c : Char) (cs ds : List Char) :
    numberLexeme c (cs ++ d :: ds) = numberLexeme c cs := by
  have hbreak : d.isDigit = false := by rcases eq_of_inRemark hd with rfl | rfl <;> decide
  have hpoint : d ≠ '.' := by rcases eq_of_inRemark hd with rfl | rfl <;> decide
  rw [numberLexeme, numberLexeme, takeWhile_append_cons hbreak, dropWhile_append_cons hbreak]
  cases cs.dropWhile Char.isDigit with
  | nil => simp [hpoint]
  | cons e es =>
    by_cases he : e = '.'
    · subst he
      simp [takeWhile_append_cons hbreak]
    · simp [he]

lemma stringLexeme?_append_break (cs ds : List Char) :
    stringLexeme? (cs ++ d :: ds) = stringLexeme? cs := by
  have hbreak : inString d = false := by simp [inString, hd]
  have hquote : d ≠ '"' := by rcases eq_of_inRemark hd with rfl | rfl <;> decide
  rw [stringLexeme?, stringLexeme?, takeWhile_append_cons hbreak, dropWhile_append_cons hbreak]
  cases cs.dropWhile inString with
  | nil => simp [hquote]
  | cons e es =>
    by_cases he : e = '"'
    · subst he
      rfl
    · simp [he]

end

/-- A mark has at most two characters. -/
lemma markLexeme?_cons (c d : Char) (cs ds : List Char) :
    markLexeme? c (d :: cs) = markLexeme? c (d :: ds) := by
  unfold markLexeme?
  split <;> simp_all

/-- What follows a line feed does not change a lexeme before it. -/
theorem lexeme?_append_newline (c : Char) (cs ds : List Char) :
    lexeme? c (cs ++ '\n' :: ds) = lexeme? c (cs ++ ['\n']) := by
  have hbreak : inRemark '\n' = false := by decide
  have hmark : markLexeme? c (cs ++ '\n' :: ds) = markLexeme? c (cs ++ ['\n']) := by
    cases cs with
    | nil => exact markLexeme?_cons ..
    | cons d cs => exact markLexeme?_cons ..
  simp only [lexeme?, takeWhile_append_cons (isGap_of_inRemark hbreak),
    wordLexeme_append_break hbreak, numberLexeme_append_break hbreak,
    stringLexeme?_append_break hbreak, hmark]

/-- A mark at the end of a text ends before a line break that follows. -/
lemma markLexeme?_break {c d : Char} {x : Lexeme} {n : Nat} (hd : inRemark d = false)
    (ds : List Char) (h : markLexeme? c [] = some (x, n)) :
    markLexeme? c (d :: ds) = some (x, n) := by
  unfold markLexeme? at h
  rcases eq_of_inRemark hd with rfl | rfl
  · split at h <;> simp_all [markLexeme?]
  · split at h <;> simp_all [markLexeme?]

/-- Every lexeme ends before a line break that follows. -/
theorem lexeme?_append_break {c d : Char} {cs : List Char} {x : Lexeme} {n : Nat}
    (h : lexeme? c cs = some (x, n)) (hd : inRemark d = false) (ds : List Char) :
    lexeme? c (cs ++ d :: ds) = some (x, n) := by
  have hmark : markLexeme? c cs = some (x, n) → markLexeme? c (cs ++ d :: ds) = some (x, n) := by
    cases cs with
    | nil => exact markLexeme?_break hd ds
    | cons e cs => exact (markLexeme?_cons ..).trans
  rw [lexeme?] at h ⊢
  rw [takeWhile_append_cons (isGap_of_inRemark hd), wordLexeme_append_break hd,
    numberLexeme_append_break hd, stringLexeme?_append_break hd]
  split_ifs at h ⊢ <;> first | exact h | exact hmark h

/-! ### Lexemes of lines -/

/-- A text is empty or ends with a line feed. -/
def WholeLines (cs : List Char) : Prop := cs = [] ∨ ∃ body, cs = body ++ ['\n']

lemma WholeLines.drop {cs : List Char} (h : WholeLines cs) (n : Nat) : WholeLines (cs.drop n) := by
  rcases h with rfl | ⟨body, rfl⟩
  · exact .inl List.drop_nil
  · by_cases hn : n ≤ body.length
    · exact .inr ⟨body.drop n, List.drop_append_of_le_length hn⟩
    · refine .inl (List.drop_eq_nil_of_le ?_)
      simp only [List.length_append, List.length_singleton]
      omega

/-- The lexeme at the front of whole lines does not depend on what follows them. -/
lemma lexeme?_wholeLines {c : Char} {cs : List Char} (h : WholeLines (c :: cs))
    (ds : List Char) : lexeme? c (cs ++ ds) = lexeme? c cs := by
  rcases h with h | ⟨body, h⟩
  · cases h
  · cases body with
    | nil =>
      obtain ⟨rfl, rfl⟩ := List.cons.inj h
      rfl
    | cons d body =>
      rw [List.cons_append] at h
      obtain ⟨rfl, rfl⟩ := List.cons.inj h
      rw [List.append_assoc, List.singleton_append, lexeme?_append_newline]

/-- Whole lines are cut apart from what follows them. -/
theorem lexemes_append {cs : List Char} (h : WholeLines cs) (ds : List Char) :
    lexemes (cs ++ ds) =
      (lexemes cs).bind fun first => (lexemes ds).map fun later => first ++ later := by
  induction cs using lexemes.induct with
  | case1 => simp [lexemes]
  | case2 c cs hnone => simp [lexemes, lexeme?_wholeLines h, hnone]
  | case3 c cs x n hlexeme ih =>
    have hle := (spelled_of_lexeme? hlexeme).1
    have hrest : WholeLines (cs.drop n) := h.drop (n + 1)
    rw [List.cons_append, lexemes, lexemes]
    simp only [lexeme?_wholeLines h, hlexeme, List.drop_append_of_le_length hle, ih hrest,
      List.take_append_of_le_length hle]
    cases lexemes (cs.drop n) with
    | none => rfl
    | some first => cases lexemes ds <;> rfl

/-- The lexemes of lines are those of each line. -/
theorem lexemes_flatten {lines : List (List Char)} (h : ∀ line ∈ lines, WholeLines line)
    {pieces : List (List Char × Lexeme)} :
    lexemes lines.flatten = some pieces ↔
      ∃ groups, List.Forall₂ (fun line group => lexemes line = some group) lines groups ∧
        groups.flatten = pieces := by
  induction lines generalizing pieces with
  | nil => simp [lexemes]
  | cons line lines ih =>
    obtain ⟨hline, hlines⟩ := List.forall_mem_cons.mp h
    rw [List.flatten_cons, lexemes_append hline, Option.bind_eq_some_iff]
    constructor
    · rintro ⟨first, hfirst, hmap⟩
      obtain ⟨later, hlater, rfl⟩ := Option.map_eq_some_iff.mp hmap
      obtain ⟨groups, hgroups, rfl⟩ := (ih hlines).mp hlater
      exact ⟨first :: groups, .cons hfirst hgroups, rfl⟩
    · rintro ⟨_, hgroups, rfl⟩
      cases hgroups with
      | @cons _ first _ groups hfirst hgroups =>
        exact ⟨first, hfirst, Option.map_eq_some_iff.mpr
          ⟨_, (ih hlines).mpr ⟨groups, hgroups, rfl⟩, rfl⟩⟩

/-! ### Tokens of lines -/

/-- The kind of a lexeme that is a token. -/
def Lexeme.kind? : Lexeme → Option Kind
  | .gap => none
  | .token kind => some kind

/-- The kinds of the tokens among lexemes. -/
def kindsOf (pieces : List (List Char × Lexeme)) : List Kind :=
  pieces.filterMap fun x => x.2.kind?

lemma map_kind_tokensOf (p : Position) (pieces : List (List Char × Lexeme)) :
    (p.tokensOf pieces).map Token.kind = kindsOf pieces := by
  induction pieces generalizing p with
  | nil => rfl
  | cons x pieces ih =>
    obtain ⟨text, lexeme⟩ := x
    rw [Position.tokensOf, List.map_append, ih]
    cases lexeme <;> rfl

lemma tokensOf_flatten (p : Position) (groups : List (List (List Char × Lexeme))) :
    ∃ blocks, p.tokensOf groups.flatten = blocks.flatten ∧
      List.Forall₂ (fun group block => block.map Token.kind = kindsOf group) groups blocks := by
  induction groups generalizing p with
  | nil => exact ⟨[], rfl, .nil⟩
  | cons group groups ih =>
    obtain ⟨blocks, hblocks, hkinds⟩ := ih (p.afterAll group)
    refine ⟨p.tokensOf group :: blocks, ?_, .cons (map_kind_tokensOf p group) hkinds⟩
    rw [List.flatten_cons, Position.tokensOf_append, hblocks, List.flatten_cons]

/-- The tokens of a line are its own and then one line break. -/
lemma kinds_of_line {body : List Char} (hbody : '\n' ∉ body)
    {pieces : List (List Char × Lexeme)} (h : lexemes (body ++ ['\n']) = some pieces) :
    ∃ kinds, kindsOf pieces = kinds ++ [.newline] ∧ .newline ∉ kinds := by
  obtain ⟨htext, hspelled⟩ := spelled_of_lexemes h
  rcases List.eq_nil_or_concat pieces with rfl | ⟨first, ⟨text, lexeme⟩, rfl⟩
  · simp at htext
  · rw [List.concat_eq_append] at htext hspelled ⊢
    obtain ⟨hfirst, hlast⟩ := List.forall_mem_append.mp hspelled
    have hlast : Spelled text lexeme := hlast _ List.mem_cons_self
    rw [List.flatMap_append, List.flatMap_singleton] at htext
    -- The line feed is the last character, so it is in the last lexeme.
    obtain ⟨start, rfl⟩ : ∃ start, text = start ++ ['\n'] := by
      obtain ⟨c, cs, rfl, -⟩ := lexeme?_of_spelled hlast
      rcases List.eq_nil_or_concat (c :: cs) with hnil | ⟨start, d, hconcat⟩
      · cases hnil
      · rw [List.concat_eq_append] at hconcat
        rw [hconcat, ← List.append_assoc] at htext
        exact ⟨start, by rw [hconcat, (List.append_inj' htext rfl).2]⟩
    rw [← List.append_assoc] at htext
    have hbefore : body = first.flatMap Prod.fst ++ start := (List.append_inj' htext rfl).1
    have hnewline : lexeme = .token .newline := hlast.newline_of_mem (by simp)
    refine ⟨kindsOf first, ?_, fun hmem => ?_⟩
    · simp [kindsOf, hnewline, Lexeme.kind?]
    · obtain ⟨⟨text, x⟩, hx, hkind⟩ := List.mem_filterMap.mp hmem
      obtain rfl : x = .token .newline := by
        cases x with
        | gap => cases hkind
        | token kind => rw [Option.some.inj hkind]
      have hbreak : Spelled text (.token .newline) := hfirst _ hx
      have hmem : '\n' ∈ text := by rcases hbreak.eq_of_newline with rfl | rfl <;> simp
      refine hbody ?_
      rw [hbefore]
      exact List.mem_append_left _ (List.mem_flatMap.mpr ⟨_, hx, hmem⟩)

end Scan

end LineBasic
