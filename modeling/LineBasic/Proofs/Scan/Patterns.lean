import LineBasic.Proofs.Scan.LetterCase
import Mathlib.Computability.Language

/-!
# Patterns of lexemes

The lexemes once more, said by regular expressions.

* `Pattern`: regular expressions over classes of characters, and the texts that they match;
* `rules`: the patterns of blanks, remarks and tokens, with what their texts stand for;
* `Yields`: what a text stands for, by the pattern of the highest priority that matches it;
* `yields_iff_spelled`: that is what the text is spelled as.
-/

namespace LineBasic

namespace Scan

/-! ### Regular expressions -/

/-- A regular expression over classes of characters. -/
inductive Pattern where
  /-- The empty text. -/
  | empty
  /-- One character of a class. -/
  | one (p : Char → Bool)
  /-- One text after the other. -/
  | seq (first second : Pattern)
  /-- One text or the other. -/
  | either (first second : Pattern)
  /-- Any number of texts, one after the other. -/
  | star (each : Pattern)

namespace Pattern

/-- The texts that a pattern matches. -/
def language : Pattern → Language Char
  | .empty => 1
  | .one p => {text | ∃ c, p c = true ∧ text = [c]}
  | .seq a b => a.language * b.language
  | .either a b => a.language + b.language
  | .star a => KStar.kstar a.language

/-- One text of a pattern, or more. -/
def plus (a : Pattern) : Pattern := .seq a (.star a)

/-- A text of a pattern, or nothing. -/
def optional (a : Pattern) : Pattern := .either .empty a

/-- A fixed text. -/
def literal : List Char → Pattern
  | [] => .empty
  | c :: cs => .seq (.one (· == c)) (literal cs)

/-- A fixed text in capitals, of which each letter may be small. -/
def anyCase : List Char → Pattern
  | [] => .empty
  | c :: cs => .seq (.one fun d => d == c || d == c.toLower) (anyCase cs)

variable {p : Char → Bool} {a b : Pattern} {text : List Char}

lemma mem_empty : text ∈ empty.language ↔ text = [] := Iff.rfl

lemma mem_one : text ∈ (one p).language ↔ ∃ c, p c = true ∧ text = [c] := Iff.rfl

lemma mem_seq :
    text ∈ (seq a b).language ↔ ∃ x ∈ a.language, ∃ y ∈ b.language, x ++ y = text := Iff.rfl

lemma mem_optional : text ∈ (optional a).language ↔ text = [] ∨ text ∈ a.language := Iff.rfl

lemma mem_one_seq :
    text ∈ (seq (one p) b).language ↔ ∃ c cs, text = c :: cs ∧ p c = true ∧ cs ∈ b.language := by
  constructor
  · rintro ⟨_, ⟨c, hc, rfl⟩, cs, hcs, rfl⟩
    exact ⟨c, cs, rfl, hc, hcs⟩
  · rintro ⟨c, cs, rfl, hc, hcs⟩
    exact ⟨[c], ⟨c, hc, rfl⟩, cs, hcs, rfl⟩

/-- Any number of characters of a class. -/
lemma mem_star_one : text ∈ (star (one p)).language ↔ ∀ c ∈ text, p c = true := by
  constructor
  · rintro ⟨parts, rfl, hparts⟩ c hc
    obtain ⟨part, hpart, hc⟩ := List.mem_flatten.mp hc
    obtain ⟨d, hd, rfl⟩ := hparts part hpart
    rwa [List.mem_singleton.mp hc]
  · intro h
    refine ⟨text.map fun c => [c], by simp [← List.flatMap_def], fun part hpart => ?_⟩
    obtain ⟨c, hc, rfl⟩ := List.mem_map.mp hpart
    exact ⟨c, h c hc, rfl⟩

lemma mem_plus_one :
    text ∈ (plus (one p)).language ↔ ∃ c cs, text = c :: cs ∧ ∀ d ∈ c :: cs, p d = true := by
  rw [plus, mem_one_seq]
  simp only [mem_star_one, List.forall_mem_cons]

lemma mem_literal {word : List Char} : text ∈ (literal word).language ↔ text = word := by
  induction word generalizing text with
  | nil => exact mem_empty
  | cons c cs ih =>
    rw [literal, mem_one_seq]
    simp only [ih, beq_iff_eq]
    constructor
    · rintro ⟨d, ds, rfl, rfl, rfl⟩
      rfl
    · rintro rfl
      exact ⟨c, cs, rfl, rfl, rfl⟩

lemma toNat_toLower {c : Char} (hc : c.isUpper = true) : c.toLower.toNat = c.toNat + 32 := by
  rw [isUpper_iff] at hc
  have hrange : 'A'.val ≤ c.val ∧ c.val ≤ 'Z'.val := by
    simp only [UInt32.le_iff_toNat_le]
    exact hc
  have hshift : ('a'.val - 'A'.val : UInt32).toNat = 32 := rfl
  have hsum : (c.val + ('a'.val - 'A'.val)).toNat = c.val.toNat + 32 := by
    have hval : c.val.toNat ≤ 90 := hc.2
    rw [UInt32.toNat_add, hshift]
    omega
  unfold Char.toLower
  rw [dif_pos hrange]
  exact hsum

/-- A character is a capital letter or the small one exactly if it is that letter in capitals. -/
lemma eq_or_eq_toLower_iff {c d : Char} (hc : c.isUpper = true) :
    (d == c || d == c.toLower) = true ↔ d.toUpper = c := by
  have hlower := toNat_toLower hc
  rw [isUpper_iff] at hc
  rw [Bool.or_eq_true, beq_iff_eq, beq_iff_eq, ← Char.toNat_inj, ← Char.toNat_inj,
    ← Char.toNat_inj, hlower, toNat_toUpper]
  split <;> omega

/-- A fixed text in any case. -/
lemma mem_anyCase {word : List Char} (h : ∀ c ∈ word, c.isUpper = true) :
    text ∈ (anyCase word).language ↔ text.map Char.toUpper = word := by
  induction word generalizing text with
  | nil => rw [anyCase, mem_empty, List.map_eq_nil_iff]
  | cons c cs ih =>
    obtain ⟨hc, hcs⟩ := List.forall_mem_cons.mp h
    rw [anyCase, mem_one_seq, List.map_eq_cons_iff]
    simp only [ih hcs, eq_or_eq_toLower_iff hc]

end Pattern

/-! ### The patterns of the language -/

/-- A pattern and what a text that it matches stands for. Of two patterns that match the same text,
the one of higher priority is taken. -/
structure Rule where
  pattern : Pattern
  lexeme? : List Char → Option Lexeme
  priority : Nat := 1

open Pattern

/-- Spaces, tabs and form feeds. -/
def blankRule : Rule where
  pattern := plus (one fun c => c == ' ' || c == '\t' || c == '\x0c')
  lexeme? _ := some .gap

/-- The word `REM`, perhaps with a space or a tab and the rest of the line. -/
def remarkRule : Rule where
  pattern := seq (anyCase "REM".toList) <| optional <|
    seq (one fun c => c == ' ' || c == '\t') (star (one fun c => c != '\r' && c != '\n'))
  lexeme? _ := some .gap

def keywordRule (k : Keyword) : Rule where
  pattern := anyCase k.spelling.toList
  lexeme? _ := some (.token (.keyword k))

/-- Digits, perhaps with a point, after which there may be more digits. The text is read as a
number. -/
def numberRule : Rule where
  pattern := seq (plus (one Char.isDigit)) <| optional <|
    seq (one (· == '.')) (star (one Char.isDigit))
  lexeme? text := (Number.ofChars? text).map fun x => .token (.number x)

/-- What is between two quotes on a line. -/
def stringRule : Rule where
  pattern := seq (one (· == '"'))
    (seq (star (one fun c => c != '"' && (c != '\r' && c != '\n'))) (one (· == '"')))
  lexeme? text := some (.token (.string (String.ofList text.tail.dropLast)))

/-- Letters, underscores and digits, of which the first is no digit. A name gives way to a remark
and to a keyword. -/
def nameRule : Rule where
  pattern := seq (one fun c => c.isAlpha || c == '_') (star (one fun c => c.isAlphanum || c == '_'))
  lexeme? text := some (.token (.ident (capitals text)))
  priority := 0

/-- The texts of operators and punctuation, and what they are. -/
def symbols : List (String × Kind) :=
  [("+", .operator (.arith .add)), ("-", .operator (.arith .sub)), ("*", .operator (.arith .mul)),
   ("/", .operator (.arith .div)), ("=", .operator (.rel .eq)), ("<>", .operator (.rel .ne)),
   ("><", .operator (.rel .ne)), ("<", .operator (.rel .lt)), ("<=", .operator (.rel .le)),
   (">", .operator (.rel .gt)), (">=", .operator (.rel .ge)), ("(", .leftParen), (")", .rightParen),
   (",", .comma)]

def symbolRule (s : String × Kind) : Rule where
  pattern := literal s.1.toList
  lexeme? _ := some (.token s.2)

/-- A line feed, perhaps after a carriage return. -/
def breakRule : Rule where
  pattern := seq (optional (one (· == '\r'))) (one (· == '\n'))
  lexeme? _ := some (.token .newline)

/-- All patterns. -/
def rules : List Rule :=
  [blankRule, remarkRule] ++ Keyword.all.map keywordRule ++ [numberRule, stringRule, nameRule] ++
    symbols.map symbolRule ++ [breakRule]

/-- A rule matches a text, which then stands for the lexeme. -/
def Rule.Gives (r : Rule) (text : List Char) (x : Lexeme) : Prop :=
  text ∈ r.pattern.language ∧ r.lexeme? text = some x

/-- Some pattern matches the text. -/
def Matched (text : List Char) : Prop := ∃ r ∈ rules, text ∈ r.pattern.language

/-- What a text stands for, by the pattern of the highest priority that matches it. -/
def Yields (text : List Char) (x : Lexeme) : Prop :=
  ∃ r ∈ rules, r.Gives text x ∧ ∀ s ∈ rules, text ∈ s.pattern.language → s.priority ≤ r.priority

/-- What holds of every kind of rule holds of all rules. -/
lemma forall_mem_rules {P : Rule → Prop} (hblank : P blankRule) (hremark : P remarkRule)
    (hkeyword : ∀ k, P (keywordRule k)) (hnumber : P numberRule) (hstring : P stringRule)
    (hname : P nameRule) (hsymbol : ∀ s ∈ symbols, P (symbolRule s)) (hbreak : P breakRule) :
    ∀ r ∈ rules, P r := by
  simp only [rules, List.forall_mem_append, List.forall_mem_cons, List.forall_mem_map]
  exact ⟨⟨⟨⟨⟨hblank, hremark, by simp⟩, fun k _ => hkeyword k⟩, hnumber, hstring, hname, by simp⟩,
    hsymbol⟩, hbreak, by simp⟩

variable {text : List Char} {x : Lexeme}

/-! ### Words -/

lemma isUpper_of_mem_spelling (k : Keyword) : ∀ c ∈ k.spelling.toList, c.isUpper = true := by
  have hall : k.spelling.toList.all Char.isUpper = true := by cases k <;> decide
  exact List.all_eq_true.mp hall

lemma capitals_eq_iff {word : String} :
    capitals text = word ↔ text.map Char.toUpper = word.toList := by
  rw [capitals, ← String.toList_inj, String.toList_ofList]

/-- A text of capital letters, in any case, is a word. -/
lemma isWord_of_capitals {word : String} (hword : ∀ c ∈ word.toList, c.isUpper = true)
    (hne : word.toList ≠ []) (h : capitals text = word) : IsWord text := by
  rw [capitals_eq_iff] at h
  have hstart : ∀ d ∈ text, isWordStart d = true := by
    intro d hd
    have hupper : d.toUpper.isUpper = true := hword _ (h ▸ List.mem_map_of_mem hd)
    have halpha : d.toUpper.isAlpha = true :=
      (isAlpha_iff _).mpr (.inl ((isUpper_iff _).mp hupper))
    rw [← ignoresCase_isWordStart, isWordStart, halpha]
    rfl
  cases text with
  | nil => exact absurd h.symm hne
  | cons c cs =>
    refine ⟨hstart c List.mem_cons_self, fun d hd => ?_⟩
    rw [isWordRest, hstart d (List.mem_cons_of_mem _ hd)]
    rfl

lemma mem_keywordRule {k : Keyword} :
    text ∈ (keywordRule k).pattern.language ↔
      IsWord text ∧ Keyword.ofWord? (capitals text) = some k := by
  have hupper := isUpper_of_mem_spelling k
  refine (mem_anyCase hupper).trans (capitals_eq_iff.symm.trans ?_)
  constructor
  · intro h
    refine ⟨isWord_of_capitals hupper (by cases k <;> decide) h, ?_⟩
    rw [h, Keyword.ofWord?_spelling]
  · rintro ⟨-, h⟩
    exact (Keyword.spelling_of_ofWord? h).symm

lemma mem_nameRule : text ∈ nameRule.pattern.language ↔ IsWord text := by
  have hrest (c : Char) : (c.isAlphanum || c == '_') = isWordRest c := by
    rw [isWordRest, isWordStart, Char.isAlphanum, Bool.or_right_comm]
  refine mem_one_seq.trans ?_
  simp only [mem_star_one, hrest]
  cases text with
  | nil => simp [IsWord]
  | cons c cs => simp [IsWord, isWordStart]

lemma mem_remarkRule :
    text ∈ remarkRule.pattern.language ↔
      ∃ word more, text = word ++ more ∧ IsWord word ∧ capitals word = "REM" ∧
        IsRemarkText more := by
  have hupper : ∀ c ∈ "REM".toList, c.isUpper = true := by simp
  have hmore {more : List Char} :
      more ∈ (optional (seq (one fun c => c == ' ' || c == '\t')
        (star (one fun c => c != '\r' && c != '\n')))).language ↔ IsRemarkText more := by
    rw [mem_optional, mem_one_seq]
    cases more with
    | nil => simp [IsRemarkText]
    | cons c cs => simp [IsRemarkText, mem_star_one, inRemark]
  refine mem_seq.trans ?_
  simp only [mem_anyCase hupper, hmore]
  constructor
  · rintro ⟨word, hword, more, htext, rfl⟩
    have hrem : capitals word = "REM" := capitals_eq_iff.mpr hword
    exact ⟨word, more, rfl, isWord_of_capitals hupper (by decide) hrem, hrem, htext⟩
  · rintro ⟨word, more, rfl, -, hrem, htext⟩
    exact ⟨word, capitals_eq_iff.mp hrem, more, htext, rfl⟩

/-! ### Numbers -/

lemma toLower_of_isDigit {c : Char} (h : c.isDigit = true) : c.toLower = c := by
  rw [isDigit_iff] at h
  have hrange : ¬ ('A'.val ≤ c.val ∧ c.val ≤ 'Z'.val) := by
    simp only [UInt32.le_iff_toNat_le]
    show ¬ (65 ≤ c.toNat ∧ c.toNat ≤ 90)
    omega
  unfold Char.toLower
  rw [dif_neg hrange]

/-- A text that starts with a digit is read as a number by its digits. -/
lemma ofChars?_of_isDigit {c : Char} (cs : List Char) (hc : c.isDigit = true) :
    Number.ofChars? (c :: cs) = Number.ofDigits? (c :: cs) := by
  have hnot {d : Char} (hd : d.isDigit = false) : c ≠ d := by
    rintro rfl
    rw [hc] at hd
    cases hd
  have hword (word : String) {d : Char} {ds : List Char} (hlist : word.toList = d :: ds)
      (hd : d.isDigit = false) : (String.ofList ((c :: cs).map Char.toLower) == word) = false := by
    rw [beq_eq_false_iff_ne, Ne, ← String.toList_inj, String.toList_ofList, hlist, List.map_cons,
      toLower_of_isDigit hc]
    exact fun h => hnot hd (List.cons.inj h).1
  have hsign : Number.ofChars? (c :: cs) = Number.ofUnsigned? (c :: cs) := by
    rw [Number.ofChars?.eq_def]
    split
    next heq => exact absurd (List.cons.inj heq).1 (hnot (by decide))
    next heq => exact absurd (List.cons.inj heq).1 (hnot (by decide))
    next => rfl
  rw [hsign, Number.ofUnsigned?, hword "inf" rfl (by decide), hword "infinity" rfl (by decide),
    hword "nan" rfl (by decide)]
  rfl

lemma mem_numberRule :
    text ∈ numberRule.pattern.language ↔
      ∃ c cs, (∀ d ∈ c :: cs, d.isDigit = true) ∧
        (text = c :: cs ∨
          ∃ fraction, (∀ d ∈ fraction, d.isDigit = true) ∧ text = c :: cs ++ '.' :: fraction) := by
  refine mem_seq.trans ?_
  simp only [mem_plus_one, mem_optional, mem_one_seq, mem_star_one, beq_iff_eq]
  constructor
  · rintro ⟨_, ⟨c, cs, rfl, h⟩, more, rfl | ⟨_, fraction, rfl, rfl, hfraction⟩, rfl⟩
    · exact ⟨c, cs, h, .inl (List.append_nil _)⟩
    · exact ⟨c, cs, h, .inr ⟨fraction, hfraction, rfl⟩⟩
  · rintro ⟨c, cs, h, rfl | ⟨fraction, hfraction, rfl⟩⟩
    · exact ⟨_, ⟨c, cs, rfl, h⟩, [], .inl rfl, List.append_nil _⟩
    · exact ⟨_, ⟨c, cs, rfl, h⟩, _, .inr ⟨_, _, rfl, rfl, hfraction⟩, rfl⟩

lemma lexeme?_numberRule (text : List Char) :
    numberRule.lexeme? text = (Number.ofChars? text).map fun x => .token (.number x) := rfl

lemma lexeme?_whole {c : Char} {cs : List Char} (h : ∀ d ∈ c :: cs, d.isDigit = true) :
    numberRule.lexeme? (c :: cs) = some (.token (.number (Number.ofDecimal (c :: cs) [] 0))) := by
  have hdigits : Number.ofDigits? (c :: cs) = some (Number.ofDecimal (c :: cs) [] 0) := by
    rw [Number.ofDigits?, List.dropWhile_eq_nil_iff.mpr h, List.takeWhile_eq_self_iff.mpr h]
    rfl
  rw [lexeme?_numberRule, ofChars?_of_isDigit cs (h c List.mem_cons_self), hdigits]
  rfl

lemma lexeme?_decimal {c : Char} {cs fraction : List Char}
    (h : ∀ d ∈ c :: cs, d.isDigit = true) (hfraction : ∀ d ∈ fraction, d.isDigit = true) :
    numberRule.lexeme? (c :: cs ++ '.' :: fraction) =
      some (.token (.number (Number.ofDecimal (c :: cs) fraction 0))) := by
  have hpoint : '.'.isDigit = false := by decide
  have hdigits : Number.ofDigits? (c :: cs ++ '.' :: fraction) =
      some (Number.ofDecimal (c :: cs) fraction 0) := by
    rw [Number.ofDigits?, List.takeWhile_append_of_pos h, List.dropWhile_append_of_pos h]
    simp [hpoint, List.takeWhile_eq_self_iff.mpr hfraction,
      List.dropWhile_eq_nil_iff.mpr hfraction, Number.powerOfTen?]
  rw [lexeme?_numberRule, List.cons_append, ofChars?_of_isDigit _ (h c List.mem_cons_self),
    ← List.cons_append, hdigits]
  rfl

/-! ### Other texts -/

lemma mem_blankRule :
    text ∈ blankRule.pattern.language ↔ ∃ c cs, text = c :: cs ∧ ∀ d ∈ c :: cs, isGap d = true :=
  mem_plus_one

lemma mem_stringRule :
    text ∈ stringRule.pattern.language ↔
      ∃ body, text = '"' :: (body ++ ['"']) ∧ ∀ d ∈ body, inString d = true := by
  refine mem_one_seq.trans ?_
  simp only [mem_seq, mem_star_one, mem_one, beq_iff_eq]
  constructor
  · rintro ⟨_, _, rfl, rfl, body, hbody, _, ⟨_, rfl, rfl⟩, rfl⟩
    exact ⟨body, rfl, hbody⟩
  · rintro ⟨body, rfl, hbody⟩
    exact ⟨_, _, rfl, rfl, body, hbody, _, ⟨_, rfl, rfl⟩, rfl⟩

/-- The quotes do not belong to the text that a literal stands for. -/
lemma lexeme?_string (body : List Char) :
    stringRule.lexeme? ('"' :: (body ++ ['"'])) =
      some (.token (.string (String.ofList body))) := by
  have htext : (body ++ ['"']).dropLast = body := List.dropLast_concat
  show some (Lexeme.token (.string (String.ofList (body ++ ['"']).dropLast))) = _
  rw [htext]

lemma mem_breakRule :
    text ∈ breakRule.pattern.language ↔ text = ['\n'] ∨ text = ['\r', '\n'] := by
  refine mem_seq.trans ?_
  simp only [mem_optional, mem_one, beq_iff_eq]
  constructor
  · rintro ⟨_, rfl | ⟨_, rfl, rfl⟩, _, ⟨_, rfl, rfl⟩, rfl⟩
    · exact .inl rfl
    · exact .inr rfl
  · rintro (rfl | rfl)
    · exact ⟨[], .inl rfl, _, ⟨_, rfl, rfl⟩, rfl⟩
    · exact ⟨_, .inr ⟨_, rfl, rfl⟩, _, ⟨_, rfl, rfl⟩, rfl⟩

/-! ### What texts stand for -/

/-- A rule but that of names gives a text the lexeme that it is spelled as. -/
lemma spelled_of_gives : ∀ r ∈ rules, r.priority = 1 → r.Gives text x → Spelled text x := by
  refine forall_mem_rules ?_ ?_ (fun k => ?_) ?_ ?_ ?_ (fun s hs => ?_) ?_
  · rintro - ⟨h, hx⟩
    obtain ⟨c, cs, rfl, hblank⟩ := mem_blankRule.mp h
    cases hx
    exact .blanks hblank
  · rintro - ⟨h, hx⟩
    obtain ⟨word, more, rfl, hword, hrem, hmore⟩ := mem_remarkRule.mp h
    cases hx
    exact .remark hword hrem hmore
  · rintro - ⟨h, hx⟩
    obtain ⟨hword, hk⟩ := mem_keywordRule.mp h
    cases hx
    exact .keyword hword hk
  · rintro - ⟨h, hx⟩
    obtain ⟨c, cs, hdigits, rfl | ⟨fraction, hfraction, rfl⟩⟩ := mem_numberRule.mp h
    · cases (lexeme?_whole hdigits).symm.trans hx
      exact .whole hdigits
    · cases (lexeme?_decimal hdigits hfraction).symm.trans hx
      exact .decimal hdigits hfraction
  · rintro - ⟨h, hx⟩
    obtain ⟨body, rfl, hbody⟩ := mem_stringRule.mp h
    cases (lexeme?_string body).symm.trans hx
    exact .string hbody
  · intro h
    cases h
  · rintro - ⟨h, hx⟩
    have hmarks : ∀ s ∈ symbols, (s.1.toList, s.2) ∈ marks := by decide
    obtain rfl := mem_literal.mp h
    cases hx
    exact .mark (hmarks s hs)
  · rintro - ⟨h, hx⟩
    cases hx
    rcases mem_breakRule.mp h with rfl | rfl
    · exact .mark (by decide)
    · exact .mark (by decide)

/-- A rule but that of names gives every text that it matches a lexeme, which is no name. -/
lemma exists_gives : ∀ r ∈ rules, r.priority = 1 → text ∈ r.pattern.language →
    ∃ x, r.Gives text x ∧ ∀ name, x ≠ .token (.ident name) := by
  refine forall_mem_rules ?_ ?_ (fun k => ?_) ?_ ?_ ?_ (fun s hs => ?_) ?_
  · exact fun _ h => ⟨_, ⟨h, rfl⟩, by simp⟩
  · exact fun _ h => ⟨_, ⟨h, rfl⟩, by simp⟩
  · exact fun _ h => ⟨_, ⟨h, rfl⟩, by simp⟩
  · intro _ h
    obtain ⟨c, cs, hdigits, rfl | ⟨fraction, hfraction, rfl⟩⟩ := mem_numberRule.mp h
    · exact ⟨_, ⟨h, lexeme?_whole hdigits⟩, by simp⟩
    · exact ⟨_, ⟨h, lexeme?_decimal hdigits hfraction⟩, by simp⟩
  · exact fun _ h => ⟨_, ⟨h, rfl⟩, by simp⟩
  · intro h
    cases h
  · have hnames : ∀ s ∈ symbols, ∀ name, s.2 ≠ .ident name := by simp [symbols]
    exact fun _ h => ⟨_, ⟨h, rfl⟩, fun name hx => hnames s hs name (by simpa using hx)⟩
  · exact fun _ h => ⟨_, ⟨h, rfl⟩, by simp⟩

lemma eq_nameRule_or_priority : ∀ r ∈ rules, r = nameRule ∨ r.priority = 1 :=
  forall_mem_rules (.inr rfl) (.inr rfl) (fun _ => .inr rfl) (.inr rfl) (.inr rfl) (.inl rfl)
    (fun _ _ => .inr rfl) (.inr rfl)

/-- A text is spelled in one way only. -/
lemma Spelled.unique {y : Lexeme} (h : Spelled text x) (h' : Spelled text y) : x = y := by
  obtain ⟨c, cs, rfl, hx⟩ := lexeme?_of_spelled h
  obtain ⟨d, ds, heq, hy⟩ := lexeme?_of_spelled h'
  cases heq
  cases hx.symm.trans hy
  rfl

/-- A rule of priority 1 is taken for every text that it matches. -/
lemma Rule.Gives.yields {r : Rule} (hr : r ∈ rules) (hpriority : r.priority = 1)
    (h : r.Gives text x) : Yields text x := by
  refine ⟨r, hr, h, fun s hs _ => ?_⟩
  rw [hpriority]
  rcases eq_nameRule_or_priority s hs with rfl | h
  · exact Nat.zero_le _
  · exact Nat.le_of_eq h

/-- **What a text stands for** is what it is spelled as. -/
theorem yields_iff_spelled : Yields text x ↔ Spelled text x := by
  constructor
  · rintro ⟨r, hr, h, hbest⟩
    rcases eq_nameRule_or_priority r hr with rfl | hpriority
    · obtain ⟨hword, hx⟩ := h
      have hword := mem_nameRule.mp hword
      cases hx
      refine .ident hword (fun hrem => ?_) ?_
      · -- then the pattern of remarks matches too, and it has the higher priority
        have hmatch : text ∈ remarkRule.pattern.language :=
          mem_remarkRule.mpr ⟨text, [], (List.append_nil _).symm, hword, hrem, trivial⟩
        exact absurd (hbest remarkRule (by simp [rules]) hmatch) (by decide)
      · cases hk : Keyword.ofWord? (capitals text) with
        | none => rfl
        | some k =>
          have hmatch : text ∈ (keywordRule k).pattern.language := mem_keywordRule.mpr ⟨hword, hk⟩
          have hmem : keywordRule k ∈ rules := by simp [rules, Keyword.mem_all]
          exact absurd (hbest _ hmem hmatch) (by simp [keywordRule, nameRule])
    · exact spelled_of_gives r hr hpriority h
  · intro h
    cases h with
    | blanks h =>
      exact Rule.Gives.yields (r := blankRule) (by simp [rules]) rfl
        ⟨mem_blankRule.mpr ⟨_, _, rfl, h⟩, rfl⟩
    | remark hword hrem htext =>
      exact Rule.Gives.yields (r := remarkRule) (by simp [rules]) rfl
        ⟨mem_remarkRule.mpr ⟨_, _, rfl, hword, hrem, htext⟩, rfl⟩
    | @keyword _ k hword hk =>
      exact Rule.Gives.yields (r := keywordRule k) (by simp [rules, Keyword.mem_all]) rfl
        ⟨mem_keywordRule.mpr ⟨hword, hk⟩, rfl⟩
    | ident hword hrem hk =>
      refine ⟨nameRule, by simp [rules], ⟨mem_nameRule.mpr hword, rfl⟩, fun s hs hmatch => ?_⟩
      rcases eq_nameRule_or_priority s hs with rfl | hpriority
      · exact Nat.le_refl _
      · -- no other rule matches, since it would give another lexeme
        obtain ⟨x, hx, hnot⟩ := exists_gives s hs hpriority hmatch
        have hspelled := spelled_of_gives s hs hpriority hx
        exact absurd (hspelled.unique (.ident hword hrem hk)) (hnot _)
    | whole h =>
      exact Rule.Gives.yields (r := numberRule) (by simp [rules]) rfl
        ⟨mem_numberRule.mpr ⟨_, _, h, .inl rfl⟩, lexeme?_whole h⟩
    | decimal h hfraction =>
      exact Rule.Gives.yields (r := numberRule) (by simp [rules]) rfl
        ⟨mem_numberRule.mpr ⟨_, _, h, .inr ⟨_, hfraction, rfl⟩⟩, lexeme?_decimal h hfraction⟩
    | string h =>
      exact Rule.Gives.yields (r := stringRule) (by simp [rules]) rfl
        ⟨mem_stringRule.mpr ⟨_, rfl, h⟩, lexeme?_string _⟩
    | @mark _ kind h =>
      have hmarks : ∀ m ∈ marks, m.2 = .newline ∧ (m.1 = ['\n'] ∨ m.1 = ['\r', '\n']) ∨
          (String.ofList m.1, m.2) ∈ symbols := by decide
      rcases hmarks _ h with ⟨rfl, hbreak⟩ | hsymbol
      · exact Rule.Gives.yields (r := breakRule) (by simp [rules]) rfl
          ⟨mem_breakRule.mpr hbreak, rfl⟩
      · refine Rule.Gives.yields (r := symbolRule (String.ofList text, kind)) ?_ rfl
          ⟨mem_literal.mpr String.toList_ofList.symm, rfl⟩
        exact List.mem_append_left _ (List.mem_append_right _ (List.mem_map_of_mem hsymbol))

lemma IsWord.exists_spelled (h : IsWord text) : ∃ x, Spelled text x := by
  by_cases hrem : capitals text = "REM"
  · have hremark : Spelled (text ++ []) .gap := .remark h hrem trivial
    rw [List.append_nil] at hremark
    exact ⟨_, hremark⟩
  · cases hk : Keyword.ofWord? (capitals text) with
    | none => exact ⟨_, .ident h hrem hk⟩
    | some k => exact ⟨_, .keyword h hk⟩

/-- Some pattern matches a text exactly if the text is spelled as a lexeme. -/
lemma matched_iff : Matched text ↔ ∃ x, Spelled text x := by
  constructor
  · rintro ⟨r, hr, h⟩
    rcases eq_nameRule_or_priority r hr with rfl | hpriority
    · exact (mem_nameRule.mp h).exists_spelled
    · obtain ⟨x, hx, -⟩ := exists_gives r hr hpriority h
      exact ⟨x, spelled_of_gives r hr hpriority hx⟩
  · rintro ⟨x, h⟩
    obtain ⟨r, hr, hx, -⟩ := yields_iff_spelled.mpr h
    exact ⟨r, hr, hx.1⟩

end Scan

end LineBasic
