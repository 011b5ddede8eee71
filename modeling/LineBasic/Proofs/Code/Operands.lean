import LineBasic.Proofs.Code.FlatMachine
import LineBasic.Proofs.Reading.Source

/-!
# What operands stand for

The texts of operands do not get in each other's way: texts in quotes, names of the program,
temporaries and numbers all look different.

* `Text.unquoted?_quoted`: a text in quotes is read back;
* `isNumeral_numberText`: how numbers are written;
* `looksNumeric_numberText`: what the text of a number looks like, which is neither a name nor a
  temporary;
* `FlatMachine.Names`: which names a unit has;
* `FlatMachine.value_quoted`, `FlatMachine.value_given`, `FlatMachine.value_temp`,
  `FlatMachine.value_number`: the value of each kind of operand.
-/

namespace LineBasic

/-! ### Texts in quotes -/

namespace Text

lemma unescape_cons {c : Char} (hc : c ≠ '\\') (cs : List Char) :
    unescape (c :: cs) = c :: unescape cs := by
  rw [unescape.eq_def]
  split
  next heq => cases heq
  next heq =>
    cases heq
    exact absurd rfl hc
  next heq =>
    cases heq
    rfl

lemma unescape_flatMap_escape (cs : List Char) : unescape (cs.flatMap escape) = cs := by
  induction cs with
  | nil => rfl
  | cons c cs ih =>
    rw [List.flatMap_cons, escape]
    by_cases hc : c = '"' ∨ c = '\\'
    · have hescaped : (c == '"' || c == '\\') = true := by simpa using hc
      rw [if_pos hescaped]
      simp [unescape, ih]
    · have hplain : (c == '"' || c == '\\') = false := by simpa using hc
      rw [hplain, if_neg (by simp), List.singleton_append, unescape_cons (fun h => hc (.inr h)), ih]

/-- A text in quotes is read back. -/
lemma unquoted?_quoted (s : String) : unquoted? (quoted s) = some s := by
  have htext : (quoted s).toList = '"' :: (s.toList.flatMap escape ++ ['"']) := by simp [quoted]
  rw [unquoted?, htext]
  simp [unescape_flatMap_escape]

/-- A text that does not start with a quote is not in quotes. -/
lemma unquoted?_eq_none {text : String} {c : Char} {cs : List Char} (h : text.toList = c :: cs)
    (hc : c ≠ '"') : unquoted? text = none := by
  rw [unquoted?, h]
  split
  next heq =>
    cases heq
    exact absurd rfl hc
  next => rfl

end Text

/-! ### Names and temporaries -/

lemma Symbol.toList_text_temp (i : Nat) :
    (Symbol.temp i).text.toList = 't' :: Nat.toDigits 10 i := by
  simp [Symbol.text]

lemma Symbol.toList_text_label (i : Nat) :
    (Symbol.label i).text.toList = 'L' :: Nat.toDigits 10 i := by
  simp [Symbol.text]

lemma toDigits_injective {m n : Nat} (h : Nat.toDigits 10 m = Nat.toDigits 10 n) : m = n := by
  rw [← Nat.ofDigitChars_ten_toDigits (n := m), h, Nat.ofDigitChars_ten_toDigits]

lemma Symbol.text_temp_injective {i j : Nat} (h : (Symbol.temp i).text = (Symbol.temp j).text) :
    i = j := by
  have hlist := congrArg String.toList h
  rw [toList_text_temp, toList_text_temp] at hlist
  exact toDigits_injective (List.cons.inj hlist).2

lemma Symbol.text_label_injective {i j : Nat}
    (h : (Symbol.label i).text = (Symbol.label j).text) : i = j := by
  have hlist := congrArg String.toList h
  rw [toList_text_label, toList_text_label] at hlist
  exact toDigits_injective (List.cons.inj hlist).2

lemma IsName.ne_temp {name : String} (h : IsName name) (i : Nat) : name ≠ (Symbol.temp i).text := by
  rintro rfl
  have hsmall := h.capital 't' (by rw [Symbol.toList_text_temp]; exact List.mem_cons_self)
  exact absurd hsmall (by decide)

lemma IsName.unquoted? {name : String} (h : IsName name) : Text.unquoted? name = none := by
  obtain ⟨c, cs, hlist, hstart⟩ := h.start
  refine Text.unquoted?_eq_none hlist ?_
  rintro rfl
  exact absurd hstart (by decide)

lemma unquoted?_temp (i : Nat) : Text.unquoted? (Symbol.temp i).text = none :=
  Text.unquoted?_eq_none (Symbol.toList_text_temp i) (by decide)

/-! ### Numbers -/

/-- A list of characters that starts with a digit. -/
def StartsWithDigit (cs : List Char) : Prop := ∃ c ds, cs = c :: ds ∧ c.isDigit = true

lemma startsWithDigit_toDigits (n : Nat) : StartsWithDigit (Nat.toDigits 10 n) := by
  cases hdigits : Nat.toDigits 10 n with
  | nil => exact absurd hdigits Nat.toDigits_ne_nil
  | cons c ds =>
    refine ⟨c, ds, rfl, ?_⟩
    exact Nat.isDigit_of_mem_toDigits (by decide) (by decide) (hdigits ▸ List.mem_cons_self)

lemma StartsWithDigit.append {cs : List Char} (h : StartsWithDigit cs) (ds : List Char) :
    StartsWithDigit (cs ++ ds) := by
  obtain ⟨c, cs, rfl, hc⟩ := h
  exact ⟨c, cs ++ ds, rfl, hc⟩

/-- Digits, at least one. -/
def IsDigits (cs : List Char) : Prop := cs ≠ [] ∧ ∀ c ∈ cs, c.isDigit = true

/-- Digits with an optional fraction. -/
inductive IsDecimal : List Char → Prop
  | whole {cs : List Char} (h : IsDigits cs) : IsDecimal cs
  | fraction {cs ds : List Char} (h : IsDigits cs) (hd : IsDigits ds) : IsDecimal (cs ++ '.' :: ds)

/-- How a number is written that is not a NaN: an optional minus sign, and an infinity or a
decimal. -/
def IsNumeral (text : String) : Prop :=
  ∃ cs, (cs = "inf".toList ∨ IsDecimal cs) ∧ (text.toList = cs ∨ text.toList = '-' :: cs)

lemma isDigits_toDigits (n : Nat) : IsDigits (Nat.toDigits 10 n) :=
  ⟨Nat.toDigits_ne_nil, fun _ hc => Nat.isDigit_of_mem_toDigits (by decide) (by decide) hc⟩

lemma isDigit_of_mem_replicate {n : Nat} {c : Char} (h : c ∈ List.replicate n '0') :
    c.isDigit = true := by
  rw [List.eq_of_mem_replicate h]
  decide

lemma IsDecimal.startsWithDigit {cs : List Char} (h : IsDecimal cs) : StartsWithDigit cs := by
  have hdigits {ds : List Char} (h : IsDigits ds) : StartsWithDigit ds := by
    obtain ⟨c, ds, rfl⟩ := List.exists_cons_of_ne_nil h.1
    exact ⟨c, ds, rfl, h.2 c List.mem_cons_self⟩
  cases h with
  | whole h => exact hdigits h
  | fraction h _ => exact (hdigits h).append _

namespace Number

/-- A decimal that is written out has digits before its point, and after it if there is one. -/
lemma isDecimal_positional (n : Nat) (k : Int) : IsDecimal (positional n k) := by
  have hall : IsDigits (digits n ++ List.replicate k.toNat '0') := by
    refine ⟨List.append_ne_nil_of_left_ne_nil Nat.toDigits_ne_nil _, fun c hc => ?_⟩
    rcases List.mem_append.mp hc with hc | hc
    · exact (isDigits_toDigits n).2 c hc
    · exact isDigit_of_mem_replicate hc
  simp only [positional]
  generalize digits n ++ List.replicate k.toNat '0' = all at hall
  split
  · exact .whole hall
  · have hlength : (-k).toNat <
        (List.replicate ((-k).toNat + 1 - all.length) '0' ++ all).length := by
      simp only [List.length_append, List.length_replicate]
      omega
    have hpadded : ∀ c ∈ List.replicate ((-k).toNat + 1 - all.length) '0' ++ all,
        c.isDigit = true := by
      intro c hc
      rcases List.mem_append.mp hc with hc | hc
      · exact isDigit_of_mem_replicate hc
      · exact hall.2 c hc
    generalize List.replicate ((-k).toNat + 1 - all.length) '0' ++ all = padded
      at hlength hpadded
    refine .fraction ⟨?_, fun c hc => hpadded c (List.mem_of_mem_take hc)⟩
      ⟨?_, fun c hc => hpadded c (List.mem_of_mem_drop hc)⟩
    · rw [← List.length_pos_iff, List.length_take]
      omega
    · rw [← List.length_pos_iff, List.length_drop]
      omega

lemma isDecimal_unsignedText (m : Nat) (q : Int) : IsDecimal (unsignedText m q) := by
  rw [unsignedText]
  split
  · exact .whole (isDigits_toDigits 0)
  · exact isDecimal_positional _ _

end Number

/-- How a number is written. -/
lemma isNumeral_numberText (x : Number) :
    IsNumeral (Value.numberText x) ∨ x.form = .notANumber ∧ Value.numberText x = "NaN" := by
  rw [Value.numberText]
  split
  · cases x.wholePart with
    | ofNat n => exact .inl ⟨_, .inr (.whole (isDigits_toDigits n)), .inl Nat.toList_repr⟩
    | negSucc n =>
      refine .inl ⟨_, .inr (.whole (isDigits_toDigits (n + 1))), .inr ?_⟩
      show ("-" ++ (n + 1).repr).toList = _
      simp
  · rw [Number.text, Number.chars]
    split
    next hnan => exact .inr ⟨hnan, rfl⟩
    next negative _ =>
      cases negative with
      | true => exact .inl ⟨_, .inl rfl, .inr rfl⟩
      | false => exact .inl ⟨_, .inl rfl, .inl rfl⟩
    next negative m q _ =>
      have hdecimal := Number.isDecimal_unsignedText m q
      cases negative with
      | true => exact .inl ⟨_, .inr hdecimal, .inr (by simp)⟩
      | false => exact .inl ⟨_, .inr hdecimal, .inl (by simp)⟩

/-- What the text of a number can be: it starts with a digit or a minus sign, or it is the name of
an infinity or of a NaN. -/
def LooksNumeric (text : String) : Prop :=
  (∃ c cs, text.toList = c :: cs ∧ (c.isDigit = true ∨ c = '-')) ∨ text = "inf" ∨ text = "NaN"

lemma looksNumeric_numberText (x : Number) : LooksNumeric (Value.numberText x) := by
  rcases isNumeral_numberText x with ⟨cs, hcs, hlist | hlist⟩ | ⟨-, hnan⟩
  · rcases hcs with rfl | hdecimal
    · exact .inr (.inl (String.toList_inj.mp hlist))
    · obtain ⟨c, ds, rfl, hc⟩ := hdecimal.startsWithDigit
      exact .inl ⟨c, ds, hlist, .inl hc⟩
  · exact .inl ⟨'-', cs, hlist, .inr rfl⟩
  · exact .inr (.inr hnan)

namespace LooksNumeric

variable {text : String}

lemma not_isName (h : LooksNumeric text) : ¬ IsName text := by
  intro hname
  rcases h with ⟨c, cs, hlist, hc⟩ | rfl | rfl
  · obtain ⟨d, ds, hlist', hstart⟩ := hname.start
    obtain ⟨rfl, -⟩ := List.cons.inj (hlist.symm.trans hlist')
    rcases hc with hdigit | rfl
    · exact absurd hdigit (by simp [Scan.isDigit_of_isWordStart hstart])
    · exact absurd hstart (by decide)
  · exact absurd (hname.capital 'i' (by decide)) (by decide)
  · exact absurd (hname.capital 'a' (by decide)) (by decide)

lemma ne_temp (h : LooksNumeric text) (i : Nat) : text ≠ (Symbol.temp i).text := by
  intro heq
  have hlist' : text.toList = 't' :: Nat.toDigits 10 i := by rw [heq, Symbol.toList_text_temp]
  rcases h with ⟨c, cs, hlist, hc⟩ | rfl | rfl
  · obtain ⟨rfl, -⟩ := List.cons.inj (hlist.symm.trans hlist')
    exact absurd hc (by decide)
  · cases hlist'
  · cases hlist'

lemma unquoted? (h : LooksNumeric text) : Text.unquoted? text = none := by
  rcases h with ⟨c, cs, hlist, hc⟩ | rfl | rfl
  · refine Text.unquoted?_eq_none hlist ?_
    rintro rfl
    exact absurd hc (by decide)
  · decide
  · decide

end LooksNumeric

/-! ### Values of operands -/

namespace FlatMachine

/-- The names of a unit: those that a program assigns, as many temporaries as were taken, and
nothing that could be taken for a number. -/
structure Names (f : FlatMachine) (known : List String) : Prop where
  isName : ∀ name ∈ known, IsName name
  known : ∀ name ∈ known, name ∈ f.unit.symbols.names
  temp : ∀ i < f.unit.temps, (Symbol.temp i).text ∈ f.unit.symbols.names
  only : ∀ name ∈ f.unit.symbols.names, IsName name ∨ ∃ i, name = (Symbol.temp i).text

/-- The machine reads numbers back from the texts that they are written as. -/
def ReadsBack (f : FlatMachine) (xs : List Number) : Prop :=
  ∀ x ∈ xs, f.readNumber? (Value.numberText x) = some x

variable {f : FlatMachine} {known : List String} {s : FlatState}

lemma ReadsBack.left {xs ys : List Number} (h : f.ReadsBack (xs ++ ys)) : f.ReadsBack xs :=
  fun x hx => h x (List.mem_append_left _ hx)

lemma ReadsBack.right {xs ys : List Number} (h : f.ReadsBack (xs ++ ys)) : f.ReadsBack ys :=
  fun x hx => h x (List.mem_append_right _ hx)

lemma valueOf_name {text : String} (hquote : Text.unquoted? text = none)
    (hname : text ∈ f.unit.symbols.names) : f.valueOf s text = s.values text := by
  rw [valueOf, hquote]
  exact if_pos ((Symbols.contains_iff ..).mpr hname)

lemma value_quoted (f : FlatMachine) (s : FlatState) (x : String) :
    f.value s (some (.quoted x)) = .string x := by
  rw [value, Operand.text, valueOf, Text.unquoted?_quoted]

lemma value_given (h : f.Names known) {name : String} (hname : name ∈ known) :
    f.value s (some (.symbol (.given name))) = s.values name :=
  valueOf_name (h.isName name hname).unquoted? (h.known name hname)

lemma value_temp (h : f.Names known) {i : Nat} (hi : i < f.unit.temps) :
    f.value s (some (.symbol (.temp i))) = s.values (Symbol.temp i).text :=
  valueOf_name (unquoted?_temp i) (h.temp i hi)

lemma value_number (h : f.Names known) {x : Number}
    (hread : f.readNumber? (Value.numberText x) = some x) :
    f.value s (some (.number x)) = .number x := by
  have hnumeric := looksNumeric_numberText x
  have hnot : f.unit.symbols.contains (Value.numberText x) = false := by
    rw [Bool.eq_false_iff, Ne, Symbols.contains_iff]
    intro hmem
    rcases h.only _ hmem with hname | ⟨i, htemp⟩
    · exact hnumeric.not_isName hname
    · exact hnumeric.ne_temp i htemp
  rw [value, Operand.text, valueOf, hnumeric.unquoted?]
  simp only [hnot, hread]
  rfl

end FlatMachine

end LineBasic
