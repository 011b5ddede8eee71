import LineBasic.Proofs.Reading.Source
import Mathlib.Data.List.TakeWhile

/-!
# The texts of lexemes

Which texts are lexemes, apart from what follows them.

* `Spelled`: a text is spelled as a lexeme, one case for each pattern;
* `spelled_of_lexeme?`: the scan takes such a text from the front;
* `lexeme?_of_spelled`: such a text on its own is taken as a whole;
* `Spelled.newline_of_mem`: a line feed stands only in a line break;
* `Spelled.eq_of_ident`, `Spelled.eq_of_string`, `Spelled.eq_of_number`: how names, string literals
  and numbers are spelled;
* `lexemes`: a text cut into lexemes, without their places;
* `scanFrom_eq_ok_iff`: a scan gives the tokens among them, each at its place.
-/

namespace LineBasic

namespace Scan

/-! ### Patterns -/

/-- The fixed texts: operators, punctuation and line breaks. -/
def marks : List (List Char × Kind) :=
  [(['+'], .operator (.arith .add)), (['-'], .operator (.arith .sub)),
   (['*'], .operator (.arith .mul)), (['/'], .operator (.arith .div)),
   (['='], .operator (.rel .eq)), (['<', '>'], .operator (.rel .ne)),
   (['<', '='], .operator (.rel .le)), (['<'], .operator (.rel .lt)),
   (['>', '<'], .operator (.rel .ne)), (['>', '='], .operator (.rel .ge)),
   (['>'], .operator (.rel .gt)), (['('], .leftParen), ([')'], .rightParen), ([','], .comma),
   (['\n'], .newline), (['\r', '\n'], .newline)]

/-- A word: a letter or an underscore, then letters, underscores and digits. -/
def IsWord : List Char → Prop
  | [] => False
  | c :: cs => isWordStart c = true ∧ ∀ d ∈ cs, isWordRest d = true

/-- The text of a remark: nothing, or a space or a tab with any characters of the same line. -/
def IsRemarkText : List Char → Prop
  | [] => True
  | c :: cs => (c = ' ' ∨ c = '\t') ∧ ∀ d ∈ cs, inRemark d = true

/-- A text is spelled as a lexeme. -/
inductive Spelled : List Char → Lexeme → Prop
  | blanks {c : Char} {cs : List Char} (h : ∀ d ∈ c :: cs, isGap d = true) : Spelled (c :: cs) .gap
  | remark {word text : List Char} (hword : IsWord word) (hrem : capitals word = "REM")
      (htext : IsRemarkText text) : Spelled (word ++ text) .gap
  | keyword {word : List Char} {k : Keyword} (hword : IsWord word)
      (hk : Keyword.ofWord? (capitals word) = some k) : Spelled word (.token (.keyword k))
  | ident {word : List Char} (hword : IsWord word) (hrem : capitals word ≠ "REM")
      (hk : Keyword.ofWord? (capitals word) = none) : Spelled word (.token (.ident (capitals word)))
  | whole {c : Char} {cs : List Char} (h : ∀ d ∈ c :: cs, d.isDigit = true) :
      Spelled (c :: cs) (.token (.number (Number.ofDecimal (c :: cs) [] 0)))
  | decimal {c : Char} {cs fraction : List Char} (h : ∀ d ∈ c :: cs, d.isDigit = true)
      (hfraction : ∀ d ∈ fraction, d.isDigit = true) :
      Spelled (c :: cs ++ '.' :: fraction)
        (.token (.number (Number.ofDecimal (c :: cs) fraction 0)))
  | string {body : List Char} (h : ∀ d ∈ body, inString d = true) :
      Spelled ('"' :: (body ++ ['"'])) (.token (.string (String.ofList body)))
  | mark {text : List Char} {kind : Kind} (h : (text, kind) ∈ marks) : Spelled text (.token kind)

/-! ### Texts from the front -/

lemma take_length_takeWhile_add (p : Char → Bool) (cs : List Char) (n : Nat) :
    cs.take ((cs.takeWhile p).length + n) = cs.takeWhile p ++ (cs.dropWhile p).take n := by
  have htake : (cs.takeWhile p ++ cs.dropWhile p).take ((cs.takeWhile p).length + n) =
    cs.takeWhile p ++ (cs.dropWhile p).take n := List.take_length_add_append n
  rwa [List.takeWhile_append_dropWhile] at htake

lemma length_takeWhile_add_le {p : Char → Bool} {cs : List Char} {n : Nat}
    (h : n ≤ (cs.dropWhile p).length) : (cs.takeWhile p).length + n ≤ cs.length := by
  have hlength := congrArg List.length (List.takeWhile_append_dropWhile (p := p) (l := cs))
  rw [List.length_append] at hlength
  omega

/-- A text that starts with a class of characters, and its length. -/
lemma take_length_takeWhile (p : Char → Bool) (cs : List Char) :
    cs.take (cs.takeWhile p).length = cs.takeWhile p := by
  simpa using take_length_takeWhile_add p cs 0

lemma isRemarkText_take (cs : List Char) :
    remarkLength cs ≤ cs.length ∧ IsRemarkText (cs.take (remarkLength cs)) := by
  cases cs with
  | nil => exact ⟨Nat.le_refl _, trivial⟩
  | cons c cs =>
    rw [remarkLength]
    split
    next hc =>
      have hle : (cs.takeWhile inRemark).length + 0 ≤ cs.length :=
        length_takeWhile_add_le (Nat.zero_le _)
      rw [List.take_succ_cons, take_length_takeWhile]
      exact ⟨by simp only [List.length_cons]; omega, by simpa using hc,
        fun d => List.mem_takeWhile_imp⟩
    next => exact ⟨Nat.zero_le _, trivial⟩

lemma spelled_wordLexeme {c : Char} (cs : List Char) (hc : isWordStart c = true) :
    (wordLexeme c cs).2 ≤ cs.length ∧
      Spelled (c :: cs.take (wordLexeme c cs).2) (wordLexeme c cs).1 := by
  have hword : IsWord (c :: cs.takeWhile isWordRest) := ⟨hc, fun d => List.mem_takeWhile_imp⟩
  have hle : (cs.takeWhile isWordRest).length + 0 ≤ cs.length :=
    length_takeWhile_add_le (Nat.zero_le _)
  rw [wordLexeme]
  split
  next hrem =>
    obtain ⟨hlength, htext⟩ := isRemarkText_take (cs.dropWhile isWordRest)
    refine ⟨length_takeWhile_add_le hlength, ?_⟩
    rw [take_length_takeWhile_add, ← List.cons_append]
    exact .remark hword (by simpa using hrem) htext
  next hrem =>
    split
    next k hk =>
      refine ⟨hle, ?_⟩
      rw [take_length_takeWhile]
      exact .keyword hword hk
    next hk =>
      refine ⟨hle, ?_⟩
      rw [take_length_takeWhile]
      exact .ident hword (by simpa using hrem) hk

lemma spelled_numberLexeme {c : Char} (cs : List Char) (hc : c.isDigit = true) :
    (numberLexeme c cs).2 ≤ cs.length ∧
      Spelled (c :: cs.take (numberLexeme c cs).2) (numberLexeme c cs).1 := by
  have hwhole : ∀ d ∈ c :: cs.takeWhile Char.isDigit, d.isDigit = true :=
    List.forall_mem_cons.mpr ⟨hc, fun d => List.mem_takeWhile_imp⟩
  rw [numberLexeme]
  split
  next more hmore =>
    have hle : (more.takeWhile Char.isDigit).length + 0 ≤ more.length :=
      length_takeWhile_add_le (Nat.zero_le _)
    dsimp only
    rw [Nat.add_assoc, Nat.add_comm 1]
    refine ⟨length_takeWhile_add_le (by rw [hmore, List.length_cons]; omega), ?_⟩
    rw [take_length_takeWhile_add, hmore, List.take_succ_cons, take_length_takeWhile,
      ← List.cons_append]
    exact .decimal hwhole fun d => List.mem_takeWhile_imp
  next =>
    refine ⟨length_takeWhile_add_le (Nat.zero_le _), ?_⟩
    rw [take_length_takeWhile]
    exact .whole hwhole

lemma spelled_of_stringLexeme? {cs : List Char} {x : Lexeme} {n : Nat}
    (h : stringLexeme? cs = some (x, n)) : n ≤ cs.length ∧ Spelled ('"' :: cs.take n) x := by
  rw [stringLexeme?] at h
  split at h
  next more hmore =>
    cases h
    refine ⟨length_takeWhile_add_le (by simp [hmore]), ?_⟩
    rw [take_length_takeWhile_add, hmore, List.take_succ_cons, List.take_zero]
    exact .string fun d => List.mem_takeWhile_imp
  next => cases h

lemma spelled_of_markLexeme? {c : Char} {cs : List Char} {x : Lexeme} {n : Nat}
    (h : markLexeme? c cs = some (x, n)) : n ≤ cs.length ∧ Spelled (c :: cs.take n) x := by
  unfold markLexeme? at h
  split at h <;> cases h <;> exact ⟨by simp, .mark (by simp [marks])⟩

/-- The scan takes a text that is spelled as the lexeme. -/
theorem spelled_of_lexeme? {c : Char} {cs : List Char} {x : Lexeme} {n : Nat}
    (h : lexeme? c cs = some (x, n)) : n ≤ cs.length ∧ Spelled (c :: cs.take n) x := by
  rw [lexeme?] at h
  split at h
  next hc =>
    cases h
    refine ⟨length_takeWhile_add_le (Nat.zero_le _), ?_⟩
    rw [take_length_takeWhile]
    exact .blanks (List.forall_mem_cons.mpr ⟨hc, fun d => List.mem_takeWhile_imp⟩)
  next =>
    split at h
    next hc =>
      have hword := spelled_wordLexeme cs hc
      rwa [Option.some.inj h] at hword
    next =>
      split at h
      next hc =>
        have hnumber := spelled_numberLexeme cs hc
        rwa [Option.some.inj h] at hnumber
      next =>
        split at h
        next hc =>
          rw [beq_iff_eq.mp hc]
          exact spelled_of_stringLexeme? h
        next => exact spelled_of_markLexeme? h

/-! ### Texts on their own -/

lemma isGap_iff {c : Char} : isGap c = true ↔ c = ' ' ∨ c = '\t' ∨ c = '\x0c' := by
  simp [isGap, or_assoc]

lemma isGap_of_isWordStart {c : Char} (h : isWordStart c = true) : isGap c = false := by
  rw [Bool.eq_false_iff, Ne, isGap_iff]
  rintro (rfl | rfl | rfl) <;> exact absurd h (by decide)

lemma isGap_of_isDigit {c : Char} (h : c.isDigit = true) : isGap c = false := by
  rw [Bool.eq_false_iff, Ne, isGap_iff]
  rintro (rfl | rfl | rfl) <;> exact absurd h (by decide)

lemma isWordStart_of_isDigit {c : Char} (h : c.isDigit = true) : isWordStart c = false := by
  rw [Bool.eq_false_iff]
  intro hc
  rw [isDigit_of_isWordStart hc] at h
  cases h

lemma lexeme?_word {c : Char} (cs : List Char) (hc : isWordStart c = true) :
    lexeme? c cs = some (wordLexeme c cs) := by
  rw [lexeme?, isGap_of_isWordStart hc, hc]
  simp

lemma lexeme?_number {c : Char} (cs : List Char) (hc : c.isDigit = true) :
    lexeme? c cs = some (numberLexeme c cs) := by
  rw [lexeme?, isGap_of_isDigit hc, isWordStart_of_isDigit hc, hc]
  simp

/-- A remark's text does not go on with its word and is taken as a whole. -/
lemma IsRemarkText.takeWhile {text : List Char} (h : IsRemarkText text) :
    text.takeWhile isWordRest = [] ∧ text.dropWhile isWordRest = text ∧
      remarkLength text = text.length := by
  cases text with
  | nil => exact ⟨rfl, rfl, rfl⟩
  | cons c cs =>
    obtain ⟨hc, hcs⟩ := h
    have hrest : isWordRest c = false := by rcases hc with rfl | rfl <;> decide
    have hblank : (c == ' ' || c == '\t') = true := by simpa using hc
    refine ⟨by simp [hrest], by simp [hrest], ?_⟩
    rw [remarkLength, if_pos hblank, List.takeWhile_eq_self_iff.mpr hcs, List.length_cons]

/-- Every mark is taken as a whole. -/
lemma lexeme?_marks : ∀ m ∈ marks,
    (match m.1 with
      | [] => none
      | c :: cs => lexeme? c cs) = some (.token m.2, m.1.length - 1) := by
  decide

/-- A text that is spelled as a lexeme is taken as a whole, if nothing follows it. -/
theorem lexeme?_of_spelled {text : List Char} {x : Lexeme} (h : Spelled text x) :
    ∃ c cs, text = c :: cs ∧ lexeme? c cs = some (x, cs.length) := by
  cases h with
  | @blanks c cs h =>
    refine ⟨c, cs, rfl, ?_⟩
    rw [lexeme?, if_pos (h c List.mem_cons_self),
      List.takeWhile_eq_self_iff.mpr fun d hd => h d (List.mem_cons_of_mem _ hd)]
  | @remark word text hword hrem htext =>
    cases word with
    | nil => cases hword
    | cons c cs =>
      obtain ⟨hc, hcs⟩ := hword
      obtain ⟨htake, hdrop, hlength⟩ := htext.takeWhile
      refine ⟨c, cs ++ text, rfl, ?_⟩
      rw [lexeme?_word _ hc, wordLexeme, List.takeWhile_append_of_pos hcs,
        List.dropWhile_append_of_pos hcs, htake, hdrop, hlength, List.append_nil]
      simp [hrem]
  | @keyword _ k hword hk =>
    cases text with
    | nil => cases hword
    | cons c cs =>
      obtain ⟨hc, hcs⟩ := hword
      have hrem : capitals (c :: cs) ≠ "REM" := by
        intro hrem
        have hnone : Keyword.ofWord? "REM" = none := by decide
        rw [hrem, hnone] at hk
        cases hk
      refine ⟨c, cs, rfl, ?_⟩
      rw [lexeme?_word _ hc, wordLexeme, List.takeWhile_eq_self_iff.mpr hcs]
      simp [hrem, hk]
  | ident hword hrem hk =>
    cases text with
    | nil => cases hword
    | cons c cs =>
      obtain ⟨hc, hcs⟩ := hword
      refine ⟨c, cs, rfl, ?_⟩
      rw [lexeme?_word _ hc, wordLexeme, List.takeWhile_eq_self_iff.mpr hcs]
      simp [hrem, hk]
  | @whole c cs h =>
    obtain ⟨hc, hcs⟩ := List.forall_mem_cons.mp h
    refine ⟨c, cs, rfl, ?_⟩
    rw [lexeme?_number _ hc, numberLexeme, List.takeWhile_eq_self_iff.mpr hcs,
      List.dropWhile_eq_nil_iff.mpr hcs]
  | @decimal c cs fraction h hfraction =>
    obtain ⟨hc, hcs⟩ := List.forall_mem_cons.mp h
    have hpoint : '.'.isDigit = false := by decide
    refine ⟨c, cs ++ '.' :: fraction, rfl, ?_⟩
    rw [lexeme?_number _ hc, numberLexeme, List.takeWhile_append_of_pos hcs,
      List.dropWhile_append_of_pos hcs]
    simp [hpoint, List.takeWhile_eq_self_iff.mpr hfraction, Nat.add_assoc, Nat.add_comm 1]
  | @string body h =>
    have hquote : inString '"' = false := by decide
    refine ⟨'"', body ++ ['"'], rfl, ?_⟩
    have hlexeme : lexeme? '"' (body ++ ['"']) = stringLexeme? (body ++ ['"']) := rfl
    rw [hlexeme, stringLexeme?, List.takeWhile_append_of_pos h, List.dropWhile_append_of_pos h]
    simp [hquote]
  | @mark _ kind h =>
    have hwhole := lexeme?_marks _ h
    cases text with
    | nil => cases hwhole
    | cons c cs => exact ⟨c, cs, rfl, hwhole⟩

/-! ### Line feeds -/

lemma IsWord.isWordRest {word : List Char} (h : IsWord word) : ∀ d ∈ word, isWordRest d = true := by
  cases word with
  | nil => cases h
  | cons c cs =>
    refine List.forall_mem_cons.mpr ⟨?_, h.2⟩
    rw [Scan.isWordRest, h.1, Bool.true_or]

lemma not_mem_of_forall {p : Char → Bool} {cs : List Char} {c : Char} (hcs : ∀ d ∈ cs, p d = true)
    (hc : p c = false) : c ∉ cs := by
  intro hmem
  cases hc.symm.trans (hcs c hmem)

/-- A line feed stands only in a line break. -/
theorem Spelled.newline_of_mem {text : List Char} {x : Lexeme} (h : Spelled text x)
    (hmem : '\n' ∈ text) : x = .token .newline := by
  have hword {word : List Char} (hword : IsWord word) : '\n' ∉ word :=
    not_mem_of_forall hword.isWordRest (by decide)
  cases h with
  | blanks h => exact absurd hmem (not_mem_of_forall h (by decide))
  | @remark word text hw hrem htext =>
    rcases List.mem_append.mp hmem with hmem | hmem
    · exact absurd hmem (hword hw)
    · cases text with
      | nil => cases hmem
      | cons c cs =>
        rcases List.mem_cons.mp hmem with rfl | hmem
        · exact absurd htext.1 (by decide)
        · exact absurd hmem (not_mem_of_forall htext.2 (by decide))
  | keyword hw hk => exact absurd hmem (hword hw)
  | ident hw hrem hk => exact absurd hmem (hword hw)
  | whole h => exact absurd hmem (not_mem_of_forall h (by decide))
  | decimal h hfraction =>
    rcases List.mem_append.mp hmem with hmem | hmem
    · exact absurd hmem (not_mem_of_forall h (by decide))
    · rcases List.mem_cons.mp hmem with heq | hmem
      · cases heq
      · exact absurd hmem (not_mem_of_forall hfraction (by decide))
  | @string body h =>
    have hbody : '\n' ∈ body := by simpa using hmem
    exact absurd hbody (not_mem_of_forall h (by decide))
  | mark h =>
    have hmarks : ∀ m ∈ marks, '\n' ∈ m.1 → m.2 = .newline := by decide
    exact congrArg Lexeme.token (hmarks _ h hmem)

/-- A line break is a line feed, perhaps after a carriage return. -/
lemma Spelled.eq_of_newline {text : List Char} (h : Spelled text (.token .newline)) :
    text = ['\n'] ∨ text = ['\r', '\n'] := by
  cases h with
  | mark h =>
    have hmarks : ∀ m ∈ marks, m.2 = .newline → m.1 = ['\n'] ∨ m.1 = ['\r', '\n'] := by decide
    exact hmarks _ h rfl

/-- A name is spelled as a word that is neither `REM` nor a keyword. -/
lemma Spelled.eq_of_ident {text : List Char} {name : String}
    (h : Spelled text (.token (.ident name))) :
    name = capitals text ∧ IsWord text ∧ name ≠ "REM" ∧ Keyword.ofWord? name = none := by
  generalize hx : Lexeme.token (.ident name) = x at h
  cases h with
  | ident hword hrem hk =>
    cases hx
    exact ⟨rfl, hword, hrem, hk⟩
  | mark h =>
    have hmarks : ∀ m ∈ marks, ∀ name, m.2 ≠ .ident name := by simp [marks]
    cases hx
    exact absurd rfl (hmarks _ h name)
  | _ => cases hx

/-- The text of a string literal has its characters between quotes, and no quote or line break is
among them. -/
lemma Spelled.eq_of_string {text : List Char} {s : String}
    (h : Spelled text (.token (.string s))) :
    text = '"' :: (s.toList ++ ['"']) ∧ ∀ c ∈ s.toList, inString c = true := by
  generalize hx : Lexeme.token (.string s) = x at h
  cases h with
  | string hbody =>
    cases hx
    rw [String.toList_ofList]
    exact ⟨rfl, hbody⟩
  | mark h =>
    have hmarks : ∀ m ∈ marks, ∀ s, m.2 ≠ .string s := by simp [marks]
    cases hx
    exact absurd rfl (hmarks _ h s)
  | _ => cases hx

/-- A number is nearest to the decimal that it is spelled as. -/
lemma Spelled.eq_of_number {text : List Char} {x : Number}
    (h : Spelled text (.token (.number x))) :
    ∃ whole fraction, x = Number.ofDecimal whole fraction 0 := by
  generalize hlexeme : Lexeme.token (.number x) = lexeme at h
  cases h with
  | whole h =>
    cases hlexeme
    exact ⟨_, _, rfl⟩
  | decimal h hfraction =>
    cases hlexeme
    exact ⟨_, _, rfl⟩
  | mark h =>
    have hmarks : ∀ m ∈ marks, ∀ x, m.2 ≠ .number x := by simp [marks]
    cases hlexeme
    exact absurd rfl (hmarks _ h x)
  | _ => cases hlexeme

/-! ### Cutting a text -/

/-- The lexemes of a text, each with its own text. -/
def lexemes : List Char → Option (List (List Char × Lexeme))
  | [] => some []
  | c :: cs =>
    match lexeme? c cs with
    | none => none
    | some (x, n) => (lexemes (cs.drop n)).map fun pieces => (c :: cs.take n, x) :: pieces
termination_by cs => cs.length
decreasing_by
  simp only [List.length_drop, List.length_cons]
  omega

/-- The tokens among lexemes that stand from a place on. -/
def Position.tokensOf (p : Position) : List (List Char × Lexeme) → List Token
  | [] => []
  | (text, x) :: pieces => p.tokens text x ++ (p.after text x).tokensOf pieces

/-- The place after lexemes. -/
def Position.afterAll (p : Position) : List (List Char × Lexeme) → Position
  | [] => p
  | (text, x) :: pieces => (p.after text x).afterAll pieces

/-- The tokens of lexemes that follow others start where these end. -/
lemma Position.tokensOf_append (p : Position) (first later : List (List Char × Lexeme)) :
    p.tokensOf (first ++ later) = p.tokensOf first ++ (p.afterAll first).tokensOf later := by
  induction first generalizing p with
  | nil => rfl
  | cons x first ih => rw [List.cons_append, tokensOf, tokensOf, afterAll, ih, List.append_assoc]

/-- The lexemes of a text make up all of it. -/
lemma spelled_of_lexemes {cs : List Char} {pieces : List (List Char × Lexeme)}
    (h : lexemes cs = some pieces) :
    cs = pieces.flatMap Prod.fst ∧ ∀ x ∈ pieces, Spelled x.1 x.2 := by
  fun_induction lexemes cs generalizing pieces with
  | case1 =>
    cases h
    exact ⟨rfl, by simp⟩
  | case2 c cs hnone => cases h
  | case3 c cs x n hlexeme ih =>
    obtain ⟨rest, hrest, rfl⟩ := Option.map_eq_some_iff.mp h
    obtain ⟨hcs, hspelled⟩ := ih hrest
    refine ⟨?_, List.forall_mem_cons.mpr ⟨(spelled_of_lexeme? hlexeme).2, hspelled⟩⟩
    rw [List.flatMap_cons, ← hcs, List.cons_append, List.take_append_drop]

/-- A scan gives the tokens among the lexemes of a text, each at its place. -/
theorem scanFrom_eq_ok_iff {p : Position} {cs : List Char} {tokens : List Token} :
    scanFrom p cs = .ok tokens ↔
      ∃ pieces, lexemes cs = some pieces ∧ p.tokensOf pieces = tokens := by
  induction cs using lexemes.induct generalizing p tokens with
  | case1 => simp [scanFrom, lexemes, Position.tokensOf]
  | case2 c cs hnone => simp [scanFrom, lexemes, hnone]
  | case3 c cs x n hlexeme ih =>
    rw [scanFrom, lexemes]
    simp only [hlexeme, Option.map_eq_some_iff]
    constructor
    · intro h
      split at h
      next => cases h
      next rest hrest =>
        cases h
        obtain ⟨pieces, hpieces, rfl⟩ := ih.mp hrest
        exact ⟨_, ⟨pieces, hpieces, rfl⟩, rfl⟩
    · rintro ⟨_, ⟨pieces, hpieces, rfl⟩, rfl⟩
      rw [ih.mpr ⟨pieces, hpieces, rfl⟩]
      rfl

end Scan

end LineBasic
