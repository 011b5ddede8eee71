import LineBasic.Machine.Run
import LineBasic.Code.Lower
import LineBasic.Check
import LineBasic.Proofs.Scan.Lines
import LineBasic.Proofs.Scan.Places

/-!
# Letters have no case

Outside string literals a text can be written in capitals or in small letters. A class of
characters does not tell the two apart, so the lexemes of a text in capitals are those of the text
itself, with the literals in capitals.

* `lexeme?_toUpper`: the lexeme at the front of a text in capitals;
* `lexemes_toUpper`: the lexemes of a text in capitals;
* `Recased`: a text with the case of some letters changed, but of none in a string literal;
* `Recased.text_eq`: the literals are the same in both texts;
* `scan_recased`: both texts have the same tokens, and so the same program, report, code and runs.
-/

namespace LineBasic

namespace Scan

/-! ### Characters in capitals -/

/-- A character that is no letter is the capital of itself only. -/
lemma toUpper_eq_iff {c d : Char} (hd : d.isAlpha = false) : c.toUpper = d ↔ c = d := by
  rw [← Char.toNat_inj, ← Char.toNat_inj, toNat_toUpper]
  rw [Bool.eq_false_iff, Ne, isAlpha_iff] at hd
  split <;> omega

lemma toUpper_of_isAlpha_eq_false {c : Char} (h : c.isAlpha = false) : c.toUpper = c :=
  (toUpper_eq_iff h).mpr rfl

lemma beq_toUpper (c : Char) {d : Char} (hd : d.isAlpha = false) : (c.toUpper == d) = (c == d) := by
  rw [Bool.eq_iff_iff, beq_iff_eq, beq_iff_eq, toUpper_eq_iff hd]

lemma isDigit_iff (c : Char) : c.isDigit = true ↔ 48 ≤ c.toNat ∧ c.toNat ≤ 57 := by
  simp only [Char.isDigit, Bool.and_eq_true, decide_eq_true_eq, ge_iff_le, UInt32.le_iff_toNat_le]
  exact Iff.rfl

lemma toUpper_of_isDigit {c : Char} (h : c.isDigit = true) : c.toUpper = c := by
  rw [isDigit_iff] at h
  rw [← Char.toNat_inj, toNat_toUpper, if_neg (by omega)]

lemma isAlpha_toUpper (c : Char) : c.toUpper.isAlpha = c.isAlpha := by
  rw [Bool.eq_iff_iff, isAlpha_iff, isAlpha_iff, toNat_toUpper]
  split <;> omega

lemma toUpper_toUpper (c : Char) : c.toUpper.toUpper = c.toUpper := by
  have hsmall := isLower_toUpper c
  rw [Bool.eq_false_iff, Ne, isLower_iff] at hsmall
  rw [← Char.toNat_inj, toNat_toUpper c.toUpper, if_neg hsmall]

lemma isDigit_toUpper (c : Char) : c.toUpper.isDigit = c.isDigit := by
  rw [Bool.eq_iff_iff, isDigit_iff, isDigit_iff, toNat_toUpper]
  split <;> omega

/-- A letter has one byte in either case. -/
lemma utf8Size_toUpper (c : Char) : c.toUpper.utf8Size = c.utf8Size := by
  by_cases hc : 97 ≤ c.toNat ∧ c.toNat ≤ 122
  · have hascii {d : Char} (hd : d.toNat ≤ 122) : d.utf8Size = 1 := by
      have hmax : (127 : UInt32).toNat = 127 := rfl
      refine Char.utf8Size_eq_one_iff.mpr (UInt32.le_iff_toNat_le.mpr ?_)
      show d.toNat ≤ _
      omega
    have hupper : c.toUpper.toNat = c.toNat - 32 := by rw [toNat_toUpper, if_pos hc]
    rw [hascii hc.2, hascii (by omega)]
  · have hsame : c.toUpper = c := by rw [← Char.toNat_inj, toNat_toUpper, if_neg hc]
    rw [hsame]

lemma byteLength_toUpper (cs : List Char) :
    Text.byteLength (cs.map Char.toUpper) = Text.byteLength cs := by
  induction cs with
  | nil => rfl
  | cons c cs ih => simp [utf8Size_toUpper, ih]

lemma capitals_toUpper (cs : List Char) : capitals (cs.map Char.toUpper) = capitals cs := by
  simp only [capitals, List.map_map, Function.comp_def, toUpper_toUpper]

/-! ### Classes of characters -/

/-- A class of characters that does not tell capitals from small letters. -/
def IgnoresCase (p : Char → Bool) : Prop := ∀ c : Char, p c.toUpper = p c

lemma ignoresCase_isGap : IgnoresCase isGap := by
  intro c
  rw [isGap, isGap, beq_toUpper c rfl, beq_toUpper c rfl, beq_toUpper c rfl]

lemma ignoresCase_isWordStart : IgnoresCase isWordStart := by
  intro c
  rw [isWordStart, isWordStart, isAlpha_toUpper, beq_toUpper c rfl]

lemma ignoresCase_isWordRest : IgnoresCase isWordRest := by
  intro c
  rw [isWordRest, isWordRest, ignoresCase_isWordStart c, isDigit_toUpper]

lemma ignoresCase_inRemark : IgnoresCase inRemark := by
  intro c
  rw [inRemark, inRemark, bne, bne, bne, bne, beq_toUpper c rfl, beq_toUpper c rfl]

lemma ignoresCase_inString : IgnoresCase inString := by
  intro c
  rw [inString, inString, bne, bne, beq_toUpper c rfl, ignoresCase_inRemark c]

lemma IgnoresCase.takeWhile {p : Char → Bool} (hp : IgnoresCase p) (cs : List Char) :
    (cs.map Char.toUpper).takeWhile p = (cs.takeWhile p).map Char.toUpper := by
  rw [List.takeWhile_map, show p ∘ Char.toUpper = p from funext hp]

lemma IgnoresCase.dropWhile {p : Char → Bool} (hp : IgnoresCase p) (cs : List Char) :
    (cs.map Char.toUpper).dropWhile p = (cs.dropWhile p).map Char.toUpper := by
  rw [List.dropWhile_map, show p ∘ Char.toUpper = p from funext hp]

lemma map_toUpper_of_isDigit {cs : List Char} (h : ∀ d ∈ cs, d.isDigit = true) :
    cs.map Char.toUpper = cs :=
  (List.map_congr_left fun d hd => toUpper_of_isDigit (h d hd)).trans (List.map_id cs)

/-! ### Lexemes in capitals -/

/-- A lexeme with a string literal in capitals. No other lexeme shows the case of letters. -/
def Lexeme.capital : Lexeme → Lexeme
  | .token (.string s) => .token (.string (capitals s.toList))
  | x => x

/-- The result of reading a lexeme, in capitals. -/
abbrev capitalResult : Lexeme × Nat → Lexeme × Nat := Prod.map Lexeme.capital id

lemma remarkLength_toUpper (cs : List Char) :
    remarkLength (cs.map Char.toUpper) = remarkLength cs := by
  cases cs with
  | nil => rfl
  | cons c cs =>
    rw [List.map_cons, remarkLength, remarkLength, beq_toUpper c rfl, beq_toUpper c rfl,
      ignoresCase_inRemark.takeWhile, List.length_map]

lemma wordLexeme_toUpper (c : Char) (cs : List Char) :
    wordLexeme c.toUpper (cs.map Char.toUpper) = capitalResult (wordLexeme c cs) := by
  have hword : capitals (c.toUpper :: (cs.takeWhile isWordRest).map Char.toUpper) =
      capitals (c :: cs.takeWhile isWordRest) := capitals_toUpper (c :: cs.takeWhile isWordRest)
  simp only [wordLexeme, ignoresCase_isWordRest.takeWhile, ignoresCase_isWordRest.dropWhile, hword,
    List.length_map, remarkLength_toUpper]
  split
  · rfl
  · split <;> rfl

lemma numberLexeme_toUpper {c : Char} (hc : c.isDigit = true) (cs : List Char) :
    numberLexeme c.toUpper (cs.map Char.toUpper) = capitalResult (numberLexeme c cs) := by
  have hdigits (ds : List Char) :
      (ds.map Char.toUpper).takeWhile Char.isDigit = ds.takeWhile Char.isDigit := by
    rw [IgnoresCase.takeWhile isDigit_toUpper]
    exact map_toUpper_of_isDigit fun d => List.mem_takeWhile_imp
  rw [numberLexeme, numberLexeme, hdigits, IgnoresCase.dropWhile isDigit_toUpper,
    toUpper_of_isDigit hc]
  cases cs.dropWhile Char.isDigit with
  | nil => rfl
  | cons d ds =>
    by_cases hd : d = '.'
    · subst hd
      have hpoint : '.'.toUpper = '.' := by decide
      simp only [List.map_cons, hpoint, hdigits]
      rfl
    · have hd' : d.toUpper ≠ '.' := fun h => hd ((toUpper_eq_iff rfl).mp h)
      simp [hd, hd', Lexeme.capital]

lemma stringLexeme?_toUpper (cs : List Char) :
    stringLexeme? (cs.map Char.toUpper) = (stringLexeme? cs).map capitalResult := by
  rw [stringLexeme?, stringLexeme?, ignoresCase_inString.takeWhile, ignoresCase_inString.dropWhile]
  cases cs.dropWhile inString with
  | nil => rfl
  | cons d ds =>
    by_cases hd : d = '"'
    · subst hd
      have hquote : '"'.toUpper = '"' := by decide
      simp [hquote, Lexeme.capital, capitals]
    · have hd' : d.toUpper ≠ '"' := fun h => hd ((toUpper_eq_iff rfl).mp h)
      simp [hd, hd']

/-- A letter is no mark. -/
lemma markLexeme?_of_isAlpha {c : Char} (hc : c.isAlpha = true) (cs : List Char) :
    markLexeme? c cs = none := by
  unfold markLexeme?
  split <;> simp_all

/-- A letter is no part of a mark. -/
lemma markLexeme?_cons_of_isAlpha (c : Char) {d : Char} (hd : d.isAlpha = true) (cs : List Char) :
    markLexeme? c (d :: cs) = markLexeme? c [] := by
  unfold markLexeme?
  split <;> simp_all

lemma markLexeme?_toUpper (c : Char) (cs : List Char) :
    markLexeme? c.toUpper (cs.map Char.toUpper) = (markLexeme? c cs).map capitalResult := by
  have hcapital : (markLexeme? c cs).map capitalResult = markLexeme? c cs := by
    unfold markLexeme?
    split <;> rfl
  rw [hcapital]
  by_cases hc : c.isAlpha = true
  · have hupper : c.toUpper.isAlpha = true := (isAlpha_toUpper c).trans hc
    rw [markLexeme?_of_isAlpha hc, markLexeme?_of_isAlpha hupper]
  · rw [toUpper_of_isAlpha_eq_false (Bool.eq_false_iff.mpr hc)]
    cases cs with
    | nil => rfl
    | cons d ds =>
      by_cases hd : d.isAlpha = true
      · have hupper : d.toUpper.isAlpha = true := (isAlpha_toUpper d).trans hd
        rw [List.map_cons, markLexeme?_cons_of_isAlpha c hd, markLexeme?_cons_of_isAlpha c hupper]
      · rw [List.map_cons, toUpper_of_isAlpha_eq_false (Bool.eq_false_iff.mpr hd)]
        exact markLexeme?_cons ..

/-- The lexeme at the front of a text in capitals is that of the text, in capitals. -/
theorem lexeme?_toUpper (c : Char) (cs : List Char) :
    lexeme? c.toUpper (cs.map Char.toUpper) = (lexeme? c cs).map capitalResult := by
  rw [lexeme?, lexeme?, ignoresCase_isGap c, ignoresCase_isWordStart c, isDigit_toUpper,
    beq_toUpper c rfl, ignoresCase_isGap.takeWhile, List.length_map]
  split
  · rfl
  · split
    · rw [wordLexeme_toUpper]
      rfl
    · split
      next hc =>
        rw [numberLexeme_toUpper hc]
        rfl
      · split
        · exact stringLexeme?_toUpper cs
        · exact markLexeme?_toUpper c cs

/-- A piece of a text in capitals. -/
def capitalPiece (piece : List Char × Lexeme) : List Char × Lexeme :=
  (piece.1.map Char.toUpper, piece.2.capital)

/-- The lexemes of a text in capitals are those of the text, in capitals. -/
theorem lexemes_toUpper (cs : List Char) :
    lexemes (cs.map Char.toUpper) = (lexemes cs).map (List.map capitalPiece) := by
  induction cs using lexemes.induct with
  | case1 => simp [lexemes]
  | case2 c cs hnone => simp [lexemes, lexeme?_toUpper, hnone]
  | case3 c cs x n hlexeme ih =>
    rw [List.map_cons, lexemes, lexemes]
    simp only [lexeme?_toUpper, hlexeme, Option.map_some, Prod.map, id, ← List.map_drop, ih,
      ← List.map_take, Option.map_map]
    rfl

/-- A text that differs in the case of letters only has the same lexemes, up to the case of
letters. -/
lemma exists_lexemes_of_toUpper {cs ds : List Char} {pieces : List (List Char × Lexeme)}
    (h : ds.map Char.toUpper = cs.map Char.toUpper) (hcs : lexemes cs = some pieces) :
    ∃ others, lexemes ds = some others ∧
      others.map capitalPiece = pieces.map capitalPiece := by
  have hcapital : (lexemes ds).map (List.map capitalPiece) = some (pieces.map capitalPiece) := by
    rw [← lexemes_toUpper, h, lexemes_toUpper, hcs, Option.map_some]
  exact Option.map_eq_some_iff.mp hcapital

end Scan

/-! ### Changing the case of letters -/

/-- Whether a kind is that of a string literal. -/
def Kind.isString : Kind → Bool
  | .string _ => true
  | _ => false

/-- The byte at an offset is in a string literal. -/
def InLiteral (tokens : List Token) (offset : Nat) : Prop :=
  ∃ t ∈ tokens, t.kind.isString = true ∧ t.span.Covers offset

instance (tokens : List Token) (offset : Nat) : Decidable (InLiteral tokens offset) :=
  inferInstanceAs (Decidable (∃ t ∈ tokens, _ ∧ _ ∧ _))

/-- The text `other` is `source`, of which the tokens are given, with the case of some letters
changed: each character is the same, or the same but for its case and in no string literal. -/
structure Recased (tokens : List Token) (source other : List Char) : Prop where
  length_eq : other.length = source.length
  same : ∀ i < source.length, other[i]? = source[i]? ∨
    other[i]?.map Char.toUpper = source[i]?.map Char.toUpper ∧
      ¬ InLiteral tokens (Text.byteLength (source.take i))

namespace Recased

variable {tokens : List Token} {source other : List Char}

lemma toUpper_eq (h : Recased tokens source other) :
    other.map Char.toUpper = source.map Char.toUpper := by
  refine List.ext_getElem? fun i => ?_
  rw [List.getElem?_map, List.getElem?_map]
  by_cases hi : i < source.length
  · rcases h.same i hi with hsame | ⟨hcase, -⟩
    · rw [hsame]
    · exact hcase
  · rw [List.getElem?_eq_none (Nat.le_of_not_lt hi),
      List.getElem?_eq_none (h.length_eq.trans_le (Nat.le_of_not_lt hi))]

/-- A string literal is the same in both texts. -/
lemma text_eq {t : Token} {before text after before' text' after' : List Char}
    (h : Recased tokens (before ++ text ++ after) (before' ++ text' ++ after')) (ht : t ∈ tokens)
    (hstring : t.kind.isString = true)
    (hcut : t.span.CutsOut (before ++ text ++ after) before text after)
    (hbefore : before'.length = before.length) (htext : text'.length = text.length) :
    text' = text := by
  have hat {pre mid post : List Char} {i : Nat} (hi : i < mid.length) :
      (pre ++ mid ++ post)[pre.length + i]? = mid[i]? := by
    rw [List.append_assoc, List.getElem?_append_right (Nat.le_add_right ..),
      Nat.add_sub_cancel_left, List.getElem?_append_left hi]
  refine List.ext_getElem? fun i => ?_
  by_cases hi : i < text.length
  · have hin : before.length + i < (before ++ text ++ after).length := by
      simp only [List.length_append]
      omega
    have hcovers : InLiteral tokens
        (Text.byteLength ((before ++ text ++ after).take (before.length + i))) := by
      have hsplit : Text.byteLength text =
          Text.byteLength (text.take i) + Text.byteLength (text.drop i) := by
        rw [← Text.byteLength_append, List.take_append_drop]
      have hpos : 0 < Text.byteLength (text.drop i) :=
        Text.byteLength_pos (List.drop_eq_nil_iff.not.mpr (Nat.not_le.mpr hi))
      have htake : (before ++ text ++ after).take (before.length + i) = before ++ text.take i := by
        rw [List.append_assoc, List.take_length_add_append, List.take_append_of_le_length hi.le]
      refine ⟨t, ht, hstring, ?_, ?_⟩
      · rw [htake, hcut.start, Text.byteLength_append]
        omega
      · rw [htake, hcut.stop, Text.byteLength_append]
        omega
    have hsame := (h.same _ hin).resolve_right fun hother => hother.2 hcovers
    rwa [hat hi, ← hbefore, hat (htext ▸ hi)] at hsame
  · rw [List.getElem?_eq_none (Nat.le_of_not_lt hi),
      List.getElem?_eq_none (htext.trans_le (Nat.le_of_not_lt hi))]

end Recased

namespace Scan

open Position

variable {pieces others : List (List Char × Lexeme)}

/-- Texts of the same lengths with the same lexemes have the same tokens. -/
lemma tokensOf_congr {p : Position}
    (h : List.Forall₂ (fun x y => Text.byteLength x.1 = Text.byteLength y.1 ∧ x.2 = y.2)
      others pieces) : p.tokensOf others = p.tokensOf pieces := by
  induction h generalizing p with
  | nil => rfl
  | @cons x y others pieces hxy h ih =>
    obtain ⟨text, lexeme⟩ := x
    obtain ⟨text', lexeme'⟩ := y
    obtain ⟨hlength, rfl⟩ : Text.byteLength text = Text.byteLength text' ∧ lexeme = lexeme' := hxy
    have hspan : p.span text = p.span text' := by rw [Position.span, Position.span, hlength]
    have hafter : p.after text lexeme = p.after text' lexeme := by
      rw [Position.after, Position.after, hlength]
    have htokens : p.tokens text lexeme = p.tokens text' lexeme := by
      cases lexeme with
      | gap => rfl
      | token kind => rw [Position.tokens, Position.tokens, hspan]
    rw [Position.tokensOf, Position.tokensOf, htokens, hafter, ih]

/-- The token of a lexeme. -/
lemma mem_tokensOf_of_split {first : List (List Char × Lexeme)}
    (h : ∀ x ∈ first, Spelled x.1 x.2) (later : List (List Char × Lexeme)) (text : List Char)
    (kind : Kind) :
    ∃ t ∈ (past []).tokensOf (first ++ (text, .token kind) :: later), t.kind = kind ∧
      t.span = (past (first.flatMap Prod.fst)).span text := by
  rw [tokensOf_append, afterAll_past [] h, List.nil_append, Position.tokensOf]
  exact ⟨_, List.mem_append_right _ (List.mem_append_left _ (List.mem_singleton_self _)), rfl, rfl⟩

/-- Lexemes that differ in the case of letters only are the same, or both are string literals. -/
lemma Lexeme.eq_or_string_of_capital {x y : Lexeme} (h : x.capital = y.capital) :
    x = y ∨ ∃ s t, x = .token (.string s) ∧ y = .token (.string t) := by
  rw [Lexeme.capital.eq_def, Lexeme.capital.eq_def] at h
  split at h
  next s =>
    split at h
    next t => exact .inr ⟨s, t, rfl, rfl⟩
    next hy => exact absurd h.symm (hy _)
  next hx =>
    split at h
    next t => exact absurd h (hx _)
    next hy => exact .inl h

/-- A lexeme of a text with the case of some letters changed is the same as in the text. Here
`first` and `first'` are the lexemes before it. -/
lemma lexeme_eq_of_recased {first first' : List (List Char × Lexeme)}
    (later later' : List (List Char × Lexeme)) {text text' : List Char} {x x' : Lexeme}
    (hfirst : ∀ y ∈ first, Spelled y.1 y.2)
    (hbefore : (first'.flatMap Prod.fst).length = (first.flatMap Prod.fst).length)
    (hx : Spelled text x) (hx' : Spelled text' x')
    (hpiece : capitalPiece (text', x') = capitalPiece (text, x))
    (h : Recased ((past []).tokensOf (first ++ (text, x) :: later))
      (first.flatMap Prod.fst ++ text ++ later.flatMap Prod.fst)
      (first'.flatMap Prod.fst ++ text' ++ later'.flatMap Prod.fst)) : x' = x := by
  obtain ⟨hletters, hcapital⟩ := Prod.mk.inj hpiece
  rcases Lexeme.eq_or_string_of_capital hcapital with heq | ⟨s', s, rfl, rfl⟩
  · exact heq
  · obtain ⟨t, ht, hkind, hspan⟩ := mem_tokensOf_of_split hfirst later text (.string s)
    have hcut : t.span.CutsOut (first.flatMap Prod.fst ++ text ++ later.flatMap Prod.fst)
        (first.flatMap Prod.fst) text (later.flatMap Prod.fst) := by
      rw [hspan]
      exact ⟨rfl, rfl, rfl⟩
    have hlength : text'.length = text.length := by simpa using congrArg List.length hletters
    have htext : text' = text := h.text_eq ht (by rw [hkind]; rfl) hcut hbefore hlength
    have hquoted : '"' :: (s'.toList ++ ['"']) = '"' :: (s.toList ++ ['"']) :=
      hx'.eq_of_string.1.symm.trans (htext.trans hx.eq_of_string.1)
    have hsame : s' = s := String.toList_inj.mp (List.append_cancel_right (List.cons.inj hquoted).2)
    rw [hsame]

/-- A text with the case of some letters changed has the same lexemes. Here `first` and `first'` are
the lexemes of what is before. -/
lemma forall₂_of_recased (first first' : List (List Char × Lexeme))
    (hfirst : ∀ x ∈ first, Spelled x.1 x.2)
    (hbefore : (first'.flatMap Prod.fst).length = (first.flatMap Prod.fst).length)
    (hpieces : ∀ x ∈ pieces, Spelled x.1 x.2) (hothers : ∀ x ∈ others, Spelled x.1 x.2)
    (hcapital : others.map capitalPiece = pieces.map capitalPiece)
    (h : Recased ((past []).tokensOf (first ++ pieces)) ((first ++ pieces).flatMap Prod.fst)
      ((first' ++ others).flatMap Prod.fst)) :
    List.Forall₂ (fun x y => Text.byteLength x.1 = Text.byteLength y.1 ∧ x.2 = y.2)
      others pieces := by
  induction pieces generalizing first first' others with
  | nil =>
    rw [List.map_nil, List.map_eq_nil_iff] at hcapital
    rw [hcapital]
    exact .nil
  | cons x pieces ih =>
    cases others with
    | nil => cases hcapital
    | cons y others =>
      obtain ⟨text, lexeme⟩ := x
      obtain ⟨text', lexeme'⟩ := y
      rw [List.map_cons, List.map_cons] at hcapital
      obtain ⟨hpiece, hlater⟩ := List.cons.inj hcapital
      obtain ⟨hx, hpieces⟩ := List.forall_mem_cons.mp hpieces
      obtain ⟨hy, hothers⟩ := List.forall_mem_cons.mp hothers
      have hletters : text'.map Char.toUpper = text.map Char.toUpper := (Prod.mk.inj hpiece).1
      have hbytes : Text.byteLength text' = Text.byteLength text := by
        rw [← byteLength_toUpper, hletters, byteLength_toUpper]
      have hsame : lexeme' = lexeme := by
        refine lexeme_eq_of_recased pieces others hfirst hbefore hx hy hpiece ?_
        simpa using h
      refine .cons ⟨hbytes, hsame⟩ (ih (first ++ [(text, lexeme)]) (first' ++ [(text', lexeme')])
        ?_ ?_ hpieces hothers hlater ?_)
      · exact List.forall_mem_append.mpr ⟨hfirst, by simpa using hx⟩
      · have hlength : text'.length = text.length := by simpa using congrArg List.length hletters
        simp [hbefore, hlength]
      · simpa using h

end Scan

/-- Letters have no case outside string literals. If the case of letters in a text is changed, but
of none in a string literal, its tokens are the same, in kind and in place. So it is read as the
same program or refused with the same error; the check reports the same on it, it is lowered to the
same code and its runs are the same. -/
theorem scan_recased (source other : String) (tokens : List Token)
    (hscan : scan source = .ok tokens) (hcase : Recased tokens source.toList other.toList) :
    scan other = .ok tokens ∧ Program.ofText other = Program.ofText source ∧
      ∀ p q, Program.ofText source = .ok p → Program.ofText other = .ok q →
        q.check = p.check ∧ (∀ symbols, q.lower symbols = p.lower symbols) ∧
          ∀ (m : Machine) (fuel : Nat), m.run q fuel = m.run p fuel := by
  have hother : scan other = .ok tokens := by
    obtain ⟨pieces, hpieces, htokens⟩ := Scan.scanFrom_eq_ok_iff.mp hscan
    obtain ⟨others, hothers, hcapital⟩ :=
      Scan.exists_lexemes_of_toUpper hcase.toUpper_eq hpieces
    obtain ⟨hsource, hspelled⟩ := Scan.spelled_of_lexemes hpieces
    obtain ⟨hother, hspelled'⟩ := Scan.spelled_of_lexemes hothers
    rw [hsource, hother, ← htokens] at hcase
    have hsame := Scan.forall₂_of_recased [] [] (by simp) rfl hspelled hspelled' hcapital hcase
    exact Scan.scanFrom_eq_ok_iff.mpr ⟨others, hothers, (Scan.tokensOf_congr hsame).trans htokens⟩
  have hread : Program.ofText other = Program.ofText source := by
    rw [Program.ofText, Program.ofText, tokensOf, tokensOf, hscan, hother]
  refine ⟨hother, hread, fun p q hp hq => ?_⟩
  obtain rfl : q = p := Except.ok.inj (hq.symm.trans (hread.trans hp))
  exact ⟨rfl, fun symbols => rfl, fun m fuel => rfl⟩

/-- In a text of two lines, `10 Rem "x` and `20 Let aB="aB"`, every letter can change its case, but
for those of the literal. The quote in the remark starts no literal. -/
theorem mixedCase_scan_recased :
    let source := "10 Rem \"x\n20 Let aB=\"aB\""
    let other := "10 rEM \"X\n20 lET Ab=\"aB\""
    let tokens : List Token :=
      [⟨.number 10, ⟨0, 2⟩, 1, 1⟩, ⟨.newline, ⟨9, 10⟩, 1, 10⟩, ⟨.number 20, ⟨10, 12⟩, 2, 1⟩,
        ⟨.keyword .letKw, ⟨13, 16⟩, 2, 4⟩, ⟨.ident "AB", ⟨17, 19⟩, 2, 8⟩,
        ⟨.operator (.rel .eq), ⟨19, 20⟩, 2, 10⟩, ⟨.string "aB", ⟨20, 24⟩, 2, 11⟩]
    scan source = .ok tokens ∧ Recased tokens source.toList other.toList ∧
      scan other = .ok tokens ∧ Program.ofText other = Program.ofText source := by
  intro source other tokens
  have hscan : scan source = .ok tokens := by decide +kernel
  have hcase : Recased tokens source.toList other.toList :=
    ⟨by decide +kernel, by decide +kernel⟩
  obtain ⟨hother, hread, -⟩ := scan_recased source other tokens hscan hcase
  exact ⟨hscan, hcase, hother, hread⟩

end LineBasic
