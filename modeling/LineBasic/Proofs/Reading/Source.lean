import LineBasic.Proofs.Reading.Program

/-!
# Programs that come from a text

What can be said of every program that is read from a text, whatever the text:

* `IsName`: a word in capitals, which is what the scan takes a name for;
* `Statement.WellFormed`: every name that is assigned is such a word, and an `INPUT` has a name;
* `Program.FromText`: line numbers are in range and statements are well formed;
* `Program.readFrom_of_ofText`: every line of a program that is read is read from tokens of the
  text;
* `Program.written_of_ofText`: and it is written by tokens with such names;
* `Program.fromText_of_ofText`: all this holds of a program that is read.
-/

namespace LineBasic

/-! ### Names -/

/-- A name of a program: a word that starts with a letter or an underscore and has no small
letters. -/
structure IsName (name : String) : Prop where
  start : ∃ c cs, name.toList = c :: cs ∧ Scan.isWordStart c = true
  capital : ∀ c ∈ name.toList, c.isLower = false

namespace Scan

lemma isLower_iff (c : Char) : c.isLower = true ↔ 97 ≤ c.toNat ∧ c.toNat ≤ 122 := by
  unfold Char.isLower
  simp only [Bool.and_eq_true, decide_eq_true_eq, ge_iff_le, UInt32.le_iff_toNat_le]
  exact Iff.rfl

lemma isUpper_iff (c : Char) : c.isUpper = true ↔ 65 ≤ c.toNat ∧ c.toNat ≤ 90 := by
  unfold Char.isUpper
  simp only [decide_eq_true_eq, ge_iff_le, UInt32.le_iff_toNat_le]
  exact Iff.rfl

lemma isAlpha_iff (c : Char) :
    c.isAlpha = true ↔ 65 ≤ c.toNat ∧ c.toNat ≤ 90 ∨ 97 ≤ c.toNat ∧ c.toNat ≤ 122 := by
  unfold Char.isAlpha
  rw [Bool.or_eq_true, isUpper_iff, isLower_iff]

/-- What starts a word is no digit. -/
lemma isDigit_of_isWordStart {c : Char} (h : isWordStart c = true) : c.isDigit = false := by
  rw [Bool.eq_false_iff]
  intro hdigit
  simp only [Char.isDigit, Bool.and_eq_true, decide_eq_true_eq, ge_iff_le,
    UInt32.le_iff_toNat_le] at hdigit
  have hrange : 48 ≤ c.toNat ∧ c.toNat ≤ 57 := hdigit
  simp only [isWordStart, Bool.or_eq_true, beq_iff_eq, isAlpha_iff] at h
  rcases h with hletter | rfl
  · omega
  · exact absurd hrange (by decide)

lemma toNat_toUpper (c : Char) :
    c.toUpper.toNat = if 97 ≤ c.toNat ∧ c.toNat ≤ 122 then c.toNat - 32 else c.toNat := by
  unfold Char.toUpper
  simp only [UInt32.le_iff_toNat_le]
  split
  next h =>
    have hrange : 97 ≤ c.val.toNat ∧ c.val.toNat ≤ 122 := h
    have hshift : ('A'.val - 'a'.val : UInt32).toNat = 4294967264 := rfl
    have hsum : (c.val + ('A'.val - 'a'.val)).toNat = c.val.toNat - 32 := by
      rw [UInt32.toNat_add, hshift]
      omega
    rw [if_pos (show 97 ≤ c.toNat ∧ c.toNat ≤ 122 from h)]
    exact hsum
  next h =>
    have hrange : ¬ (97 ≤ c.toNat ∧ c.toNat ≤ 122) := h
    rw [if_neg hrange]

lemma isLower_toUpper (c : Char) : c.toUpper.isLower = false := by
  rw [Bool.eq_false_iff, Ne, isLower_iff, toNat_toUpper]
  split <;> omega

lemma isWordStart_toUpper {c : Char} (h : isWordStart c = true) : isWordStart c.toUpper = true := by
  simp only [isWordStart, Bool.or_eq_true, beq_iff_eq, isAlpha_iff, toNat_toUpper] at h ⊢
  rcases h with hletter | rfl
  · left
    split <;> omega
  · exact .inr (by decide)

/-- A word in capitals is a name. -/
lemma isName_capitals {c : Char} {cs : List Char} (hc : isWordStart c = true) :
    IsName (capitals (c :: cs)) := by
  refine ⟨⟨c.toUpper, cs.map Char.toUpper, by simp [capitals], isWordStart_toUpper hc⟩, ?_⟩
  intro d hd
  simp only [capitals, String.toList_ofList, List.mem_map] at hd
  obtain ⟨e, -, rfl⟩ := hd
  exact isLower_toUpper e

end Scan

/-- The name that a token may carry is a name of a program. -/
def Token.Named (t : Token) : Prop := ∀ name, t.kind = .ident name → IsName name

namespace Scan

lemma isName_of_lexeme? {c : Char} {cs : List Char} {name : String} {n : Nat}
    (h : lexeme? c cs = some (.token (.ident name), n)) : IsName name := by
  rw [lexeme?] at h
  split at h
  · cases h
  · split at h
    next hstart =>
      simp only [wordLexeme, Option.some.injEq] at h
      split at h
      · cases h
      · split at h
        · cases h
        · cases h
          exact isName_capitals hstart
    · split at h
      · simp only [numberLexeme] at h
        split at h <;> cases h
      · split at h
        · simp only [stringLexeme?] at h
          split at h <;> cases h
        · simp only [markLexeme?] at h
          split at h <;> cases h

/-- Every name that a scan finds is a word in capitals. -/
lemma named_of_scanFrom {cs : List Char} {p : Position} {tokens : List Token}
    (h : scanFrom p cs = .ok tokens) : ∀ t ∈ tokens, t.Named := by
  fun_induction scanFrom p cs generalizing tokens with
  | case1 =>
    cases h
    simp
  | case2 => cases h
  | case3 => cases h
  | case4 p c cs lexeme n hlex text tokens hrest =>
    rename_i ih
    cases h
    intro t ht name hname
    rcases List.mem_append.mp ht with hfirst | hlater
    · cases lexeme with
      | gap => simp [Position.tokens] at hfirst
      | token kind =>
        simp only [Position.tokens, List.mem_singleton] at hfirst
        subst hfirst
        cases hname
        exact isName_of_lexeme? hlex
    · exact ih hrest t hlater name hname

end Scan

/-! ### Statements -/

/-- Every name that a statement assigns is a name of a program, and an `INPUT` has one. -/
def Statement.WellFormed : Statement → Prop
  | .assign name _ _ => IsName name
  | .input names _ => names ≠ [] ∧ ∀ name ∈ names, IsName name
  | .ifThen _ t _ => t.WellFormed
  | .ifThenElse _ t e _ => t.WellFormed ∧ e.WellFormed
  | _ => True

lemma NamesPhrase.wellFormed {ts : List Token} {names : List String} (h : NamesPhrase ts names)
    (hts : ∀ t ∈ ts, t.Named) : names ≠ [] ∧ ∀ name ∈ names, IsName name := by
  induction h with
  | one ht =>
    refine ⟨by simp, fun name hname => ?_⟩
    rw [List.mem_singleton.mp hname]
    exact hts _ List.mem_cons_self _ ht
  | more ht hu _ ih =>
    refine ⟨by simp, fun name hname => ?_⟩
    rcases List.mem_cons.mp hname with rfl | hlater
    · exact hts _ List.mem_cons_self _ ht
    · exact (ih fun t ht => hts t (by simp [ht])).2 name hlater

/-- A statement that tokens with proper names write is well formed. -/
lemma Statement.Phrase.wellFormed {k : Place} {ts : List Token} {s : Statement}
    (h : Statement.Phrase k ts s) (hts : ∀ t ∈ ts, t.Named) : s.WellFormed := by
  induction h with
  | assign h =>
    obtain ⟨ht, -, -⟩ := h
    exact hts _ List.mem_cons_self _ ht
  | letAssign hw h =>
    obtain ⟨ht, -, -⟩ := h
    exact hts _ (by simp) _ ht
  | ifThen hw hc hu hb ih => exact ih fun t ht => hts t (by simp [ht])
  | ifThenElse hw hc hu ha closed hv hb iha ihb =>
    exact ⟨iha fun t ht => hts t (by simp [ht]), ihb fun t ht => hts t (by simp [ht])⟩
  | input hw h => exact h.wellFormed fun t ht => hts t (List.mem_cons_of_mem _ ht)
  | branch h ih => exact ih hts
  | _ => trivial

lemma Statement.WellFormed.isName {s : Statement} (h : s.WellFormed) :
    ∀ name ∈ s.assigned, IsName name := by
  induction s with
  | assign n e span =>
    have hname : IsName n := h
    simpa [assigned] using hname
  | input names span => exact h.2
  | ifThen c t span ih => exact ih h
  | ifThenElse c t e span iht ihe =>
    intro name hname
    rcases List.mem_append.mp hname with ht | he
    · exact iht h.1 name ht
    · exact ihe h.2 name he
  | _ => simp [assigned]

/-- A statement that tokens with proper names write. -/
def Statement.Written (s : Statement) : Prop :=
  ∃ ts, (∀ t ∈ ts, t.Named) ∧ Statement.Phrase .line ts s

lemma Statement.Written.wellFormed {s : Statement} (h : s.Written) : s.WellFormed := by
  obtain ⟨ts, hts, hphrase⟩ := h
  exact hphrase.wellFormed hts

/-! ### Programs -/

/-- A line whose number is in range and whose statement is well formed. -/
structure Line.WellFormed (l : Line) : Prop where
  le_max : l.number ≤ maxLineNumber
  statement : l.statement.WellFormed

/-- All lines of a program are well formed. -/
def Program.FromText (p : Program) : Prop := ∀ l ∈ p.lines, l.WellFormed

/-- A line whose number is in range and whose statement is written by tokens. -/
structure Line.Written (l : Line) : Prop where
  le_max : l.number ≤ maxLineNumber
  statement : l.statement.Written

lemma lineNumber?_le {x : Number} {n : Nat} (h : lineNumber? x = some n) : n ≤ maxLineNumber := by
  rw [lineNumber?] at h
  split at h
  next hrange =>
    simp only [Bool.and_eq_true, decide_eq_true_eq] at hrange
    have hn : x.wholePart.toNat = n := Option.some.inj h
    omega
  next => cases h

namespace Line

/-- A line that is read from tokens with proper names is written by them. -/
lemma ReadFrom.written {ts : List Token} {l : Line} (h : ReadFrom ts l)
    (hts : ∀ t ∈ ts, t.Named) : l.Written := by
  obtain ⟨hx, hst⟩ := h
  exact ⟨lineNumber?_le hx, _, fun t ht => hts t (List.mem_cons_of_mem _ ht), hst⟩

end Line

namespace Program

/-- A line that is read is one of those read before, or it is read from tokens of the text. -/
lemma readFrom_of_readLines (c : Cursor) (p : Program) :
    ∀ p', readLines p c = .ok p' → ∀ l ∈ p'.lines,
      l ∈ p.lines ∨ ∃ ts, (∀ t ∈ ts, t ∈ c.rest) ∧ Line.ReadFrom ts l := by
  induction c using Cursor.shorterInduction generalizing p with
  | _ c ih =>
    intro p' h l hl
    obtain ⟨bs, -, hpass⟩ := c.skipBreaks_passes
    rcases readLines_cases h with ⟨-, rfl⟩ | ⟨us, m, next, hus, hpass', -, hshort, fresh, h⟩
    · exact .inl hl
    · have hrest : c.rest = bs ++ (us ++ next.rest) :=
        hpass.rest.trans (congrArg (bs ++ ·) hpass'.rest)
      rcases ih next hshort _ p' h l hl with hold | ⟨ts, hts, hread⟩
      · rcases (mem_insertLine m l p.lines).mp hold with rfl | hold
        · exact .inr ⟨us, fun t ht => by simp [hrest, ht], hus⟩
        · exact .inl hold
      · exact .inr ⟨ts, fun t ht => by simp [hrest, hts t ht], hread⟩

/-- The line numbers of a program that tokens write are in range. -/
lemma le_max_of_ofTokens {tokens : List Token} {p : Program} (h : ofTokens tokens = .ok p) :
    ∀ l ∈ p.lines, l.number ≤ maxLineNumber := by
  intro l hl
  rcases readFrom_of_readLines (.start tokens) empty p h l hl with hold | ⟨ts, -, hread⟩
  · cases hold
  · obtain ⟨hx, -⟩ := hread
    exact lineNumber?_le hx

lemma ofText_eq_ok_iff {source : String} {p : Program} :
    ofText source = .ok p ↔ ∃ tokens, scan source = .ok tokens ∧ ofTokens tokens = .ok p := by
  have hparse (tokens : List Token) :
      (ofTokens tokens).mapError SourceError.parse = .ok p ↔ ofTokens tokens = .ok p := by
    cases ofTokens tokens with
    | error e => constructor <;> intro h <;> cases h
    | ok q => constructor <;> intro h <;> cases h <;> rfl
  rw [ofText, tokensOf]
  cases scan source with
  | error e =>
    constructor
    · intro h
      cases h
    · rintro ⟨tokens, h, -⟩
      cases h
  | ok tokens =>
    refine (hparse tokens).trans ⟨fun h => ⟨tokens, rfl, h⟩, ?_⟩
    rintro ⟨other, hscan, h⟩
    cases hscan
    exact h

/-- Every line of a program that is read from a text is read from tokens that the scan finds. -/
lemma readFrom_of_ofText {source : String} {p : Program} (h : ofText source = .ok p) :
    ∃ tokens, scan source = .ok tokens ∧
      ∀ l ∈ p.lines, ∃ ts, (∀ t ∈ ts, t ∈ tokens) ∧ Line.ReadFrom ts l := by
  obtain ⟨tokens, hscan, hread⟩ := ofText_eq_ok_iff.mp h
  refine ⟨tokens, hscan, fun l hl => ?_⟩
  exact (readFrom_of_readLines (.start tokens) empty p hread l hl).resolve_left (by simp [empty])

/-- Every line of a program that is read from a text is written by tokens of the text. -/
theorem written_of_ofText {source : String} {p : Program} (h : ofText source = .ok p) :
    ∀ l ∈ p.lines, l.Written := by
  obtain ⟨tokens, hscan, hlines⟩ := readFrom_of_ofText h
  intro l hl
  obtain ⟨ts, hts, hread⟩ := hlines l hl
  exact hread.written fun t ht => Scan.named_of_scanFrom hscan t (hts t ht)

/-- Every program that is read from a text has line numbers in range and well-formed
statements. -/
theorem fromText_of_ofText {source : String} {p : Program} (h : ofText source = .ok p) :
    p.FromText := by
  intro l hl
  have hwritten := written_of_ofText h l hl
  exact ⟨hwritten.le_max, hwritten.statement.wellFormed⟩

end Program

end LineBasic
