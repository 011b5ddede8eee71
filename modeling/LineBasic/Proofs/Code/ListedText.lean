import LineBasic.Code.Listing
import LineBasic.Proofs.Code.Operands

/-!
# The texts in a listing

A listing has no frames around the parts of an instruction.  Each part still ends where it must,
so that a listing can be read in one way only.

* `Text.Bare`, `Text.Bare.append_inj`: a word is determined by a text that it starts;
* `Text.quoted_append_inj`: so is a text in quotes, whatever it has inside;
* `Instruction.Texts`: an instruction with the texts of its parts in place of the parts;
* `Instruction.Texts.Regular`: the parts are of the kinds that lowering makes;
* `Instruction.Texts.Regular.line_inj`: such an instruction is determined by a text that it starts;
* `listed_inj`, `CodeUnit.toList_listing`: a listing determines its instructions and the markers
  between them.
-/

namespace LineBasic

/-! ### Words and quotes -/

namespace Text

/-- What the words of a listing are made of: letters, digits, underscores, points and minus
signs. -/
def inWord (c : Char) : Bool := c.isAlphanum || c == '_' || c == '.' || c == '-'

/-- A text is at its end, or it goes on with a character outside of a class. -/
def Stops (p : Char → Bool) (x : List Char) : Prop := ∀ c ∈ x.head?, p c = false

lemma stops_cons {p : Char → Bool} {c : Char} (hc : p c = false) (x : List Char) :
    Stops p (c :: x) := by
  intro d hd
  cases hd
  exact hc

/-- A text of one class of characters is determined, with what follows, by a text that it
starts. -/
lemma append_inj_of_stops {p : Char → Bool} {a b x y : List Char} (ha : ∀ c ∈ a, p c = true)
    (hb : ∀ c ∈ b, p c = true) (hx : Stops p x) (hy : Stops p y) (h : a ++ x = b ++ y) :
    a = b ∧ x = y := by
  induction a generalizing b with
  | nil =>
    cases b with
    | nil => exact ⟨rfl, h⟩
    | cons d b =>
      obtain rfl : x = d :: (b ++ y) := h
      have hd := hx d rfl
      rw [hb d List.mem_cons_self] at hd
      cases hd
  | cons c a ih =>
    cases b with
    | nil =>
      obtain rfl : c :: (a ++ x) = y := h
      have hc := hy c rfl
      rw [ha c List.mem_cons_self] at hc
      cases hc
    | cons d b =>
      obtain ⟨rfl, hrest⟩ := List.cons.inj h
      obtain ⟨rfl, hxy⟩ := ih (fun c hc => ha c (List.mem_cons_of_mem _ hc))
        (fun c hc => hb c (List.mem_cons_of_mem _ hc)) hrest
      exact ⟨rfl, hxy⟩

/-- A text without line breaks. -/
def OneLine (s : String) : Prop := ∀ c ∈ s.toList, (c != '\n') = true

/-- A word of a listing. -/
structure Bare (s : String) : Prop where
  ne_nil : s.toList ≠ []
  inWord : ∀ c ∈ s.toList, inWord c = true

lemma bare_of_all {s : String} (hne : s.toList.isEmpty = false) (h : s.toList.all inWord = true) :
    Bare s :=
  ⟨List.isEmpty_eq_false_iff.mp hne, List.all_eq_true.mp h⟩

lemma Bare.append_inj {s t : String} {x y : List Char} (hs : Bare s) (ht : Bare t)
    (hx : Stops Text.inWord x) (hy : Stops Text.inWord y) (h : s.toList ++ x = t.toList ++ y) :
    s = t ∧ x = y := by
  obtain ⟨hlist, hxy⟩ := append_inj_of_stops hs.inWord ht.inWord hx hy h
  exact ⟨String.toList_inj.mp hlist, hxy⟩

lemma escape_append_inj {c d : Char} {x y : List Char} (h : escape c ++ x = escape d ++ y) :
    c = d ∧ x = y := by
  rw [escape, escape] at h
  split at h
  next hc =>
    split at h
    next hd =>
      cases h
      exact ⟨rfl, rfl⟩
    next hd =>
      cases h
      exact absurd rfl hd
  next hc =>
    split at h
    next hd =>
      cases h
      exact absurd rfl hc
    next hd =>
      cases h
      exact ⟨rfl, rfl⟩

lemma escape_ne_quote (c : Char) (x y : List Char) : escape c ++ x ≠ '"' :: y := by
  intro h
  rw [escape] at h
  split at h
  next => cases h
  next hc =>
    cases h
    exact absurd rfl hc

/-- The text after an opening quote is determined, with what follows the closing quote. -/
lemma flatMap_escape_append_inj {a b x y : List Char}
    (h : a.flatMap escape ++ '"' :: x = b.flatMap escape ++ '"' :: y) : a = b ∧ x = y := by
  induction a generalizing b with
  | nil =>
    cases b with
    | nil => exact ⟨rfl, (List.cons.inj h).2⟩
    | cons d b =>
      rw [List.flatMap_cons, List.append_assoc] at h
      exact absurd h.symm (escape_ne_quote d _ x)
  | cons c a ih =>
    rw [List.flatMap_cons, List.append_assoc] at h
    cases b with
    | nil => exact absurd h (escape_ne_quote c _ y)
    | cons d b =>
      rw [List.flatMap_cons, List.append_assoc] at h
      obtain ⟨rfl, hrest⟩ := escape_append_inj h
      obtain ⟨rfl, hxy⟩ := ih hrest
      exact ⟨rfl, hxy⟩

lemma toList_quoted_append (s : String) (x : List Char) :
    (quoted s).toList ++ x = '"' :: (s.toList.flatMap escape ++ '"' :: x) := by
  simp [quoted]

lemma quoted_append_inj {s t : String} {x y : List Char}
    (h : (quoted s).toList ++ x = (quoted t).toList ++ y) : s = t ∧ x = y := by
  rw [toList_quoted_append, toList_quoted_append] at h
  obtain ⟨hlist, hxy⟩ := flatMap_escape_append_inj (List.cons.inj h).2
  exact ⟨String.toList_inj.mp hlist, hxy⟩

lemma Bare.not_quoted_append {s t : String} {x y : List Char} (hs : Bare s) :
    s.toList ++ x ≠ (quoted t).toList ++ y := by
  obtain ⟨c, cs, hlist⟩ := List.exists_cons_of_ne_nil hs.ne_nil
  have hc := hs.inWord c (hlist ▸ List.mem_cons_self)
  rw [toList_quoted_append, hlist]
  intro h
  obtain rfl : c = '"' := (List.cons.inj h).1
  exact absurd hc (by decide)

/-- The text of an operand: a word, or a text in quotes. -/
def IsOperand (s : String) : Prop := Bare s ∨ ∃ t, s = quoted t

lemma IsOperand.append_inj {s t : String} {x y : List Char} (hs : IsOperand s) (ht : IsOperand t)
    (hx : Stops inWord x) (hy : Stops inWord y) (h : s.toList ++ x = t.toList ++ y) :
    s = t ∧ x = y := by
  rcases hs with hs | ⟨s, rfl⟩
  · rcases ht with ht | ⟨t, rfl⟩
    · exact hs.append_inj ht hx hy h
    · exact absurd h hs.not_quoted_append
  · rcases ht with ht | ⟨t, rfl⟩
    · exact absurd h.symm ht.not_quoted_append
    · obtain ⟨rfl, hxy⟩ := quoted_append_inj h
      exact ⟨rfl, hxy⟩

/-! ### Optional parts -/

/-- A part that may be missing, after the marker that introduces it. -/
def field (marker : List Char) : Option String → List Char
  | none => []
  | some s => marker ++ s.toList

/-- A part that may be missing is determined by a text that it starts, if its marker cannot be
taken for the start of what follows. -/
lemma field_append_inj {marker : List Char} {o o' : Option String} {x y : List Char}
    (hsome : ∀ s ∈ o, ∀ t ∈ o', s.toList ++ x = t.toList ++ y → s = t ∧ x = y)
    (hx : ∀ t ∈ o', marker ++ (t.toList ++ y) ≠ x)
    (hy : ∀ s ∈ o, marker ++ (s.toList ++ x) ≠ y)
    (h : field marker o ++ x = field marker o' ++ y) : o = o' ∧ x = y := by
  cases o with
  | none =>
    cases o' with
    | none => exact ⟨rfl, h⟩
    | some t =>
      rw [field, field, List.nil_append, List.append_assoc] at h
      exact absurd h.symm (hx t rfl)
  | some s =>
    rw [field, List.append_assoc] at h
    cases o' with
    | none => exact absurd h (hy s rfl)
    | some t =>
      rw [field, List.append_assoc] at h
      obtain ⟨rfl, hxy⟩ := hsome s rfl t rfl (List.append_cancel_left h)
      exact ⟨rfl, hxy⟩

end Text

/-! ### Instructions -/

namespace Instruction

/-- An instruction with the texts of its parts. -/
@[ext]
structure Texts where
  opcode : Opcode
  operand1 : Option String
  operand2 : Option String
  result : Option String
  target : Option String
  comment : Option String
deriving DecidableEq

/-- The texts of the parts of an instruction. -/
def texts (i : Instruction) : Texts where
  opcode := i.opcode
  operand1 := i.operand1.map Operand.text
  operand2 := i.operand2.map Operand.text
  result := i.result.map Symbol.text
  target := i.target.map Symbol.text
  comment := i.comment.map Comment.text

namespace Texts

/-- The parts of an instruction are of the kinds that lowering makes.  An instruction that defines a
label has no other part but its remark. -/
structure Regular (x : Texts) : Prop where
  second : x.operand1 = none → x.operand2 = none
  operand1 : ∀ s ∈ x.operand1, Text.IsOperand s
  operand2 : ∀ s ∈ x.operand2, Text.IsOperand s
  result : ∀ s ∈ x.result, Text.Bare s
  target : ∀ s ∈ x.target, Text.Bare s
  comment : ∃ s, x.comment = some s ∧ Text.OneLine s
  label : x.opcode = .label → ∃ s, x.operand1 = some s ∧ Text.Bare s ∧
    x.operand2 = none ∧ x.result = none ∧ x.target = none

/-- The remark on an instruction, before the rest of a listing. -/
def remarkOn (x : Texts) (rest : List Char) : List Char :=
  Text.field [' ', ' ', ';', ' '] x.comment ++ '\n' :: rest

/-- An instruction from its branch target on. -/
def targetOn (x : Texts) (rest : List Char) : List Char :=
  Text.field [' ', '@'] x.target ++ x.remarkOn rest

/-- An instruction from its result on. -/
def resultOn (x : Texts) (rest : List Char) : List Char :=
  Text.field [' ', '-', '>', ' '] x.result ++ x.targetOn rest

/-- An instruction from its second operand on. -/
def secondOn (x : Texts) (rest : List Char) : List Char :=
  Text.field [',', ' '] x.operand2 ++ x.resultOn rest

/-- An instruction and its remark, before the rest of a listing. -/
def line (x : Texts) (rest : List Char) : List Char :=
  if x.opcode = .label then (x.operand1.getD "").toList ++ ':' :: x.remarkOn rest
  else x.opcode.mnemonic.toList ++ (Text.field [' '] x.operand1 ++ x.secondOn rest)

variable {x y : Texts} {a b : List Char}

/-! How each part starts. -/

lemma Regular.remarkOn_eq (h : x.Regular) (a : List Char) :
    ∃ w, x.remarkOn a = ' ' :: ' ' :: w := by
  obtain ⟨s, hs, -⟩ := h.comment
  rw [remarkOn, hs]
  exact ⟨_, rfl⟩

lemma Regular.targetOn_eq (h : x.Regular) (a : List Char) :
    ∃ c w, x.targetOn a = ' ' :: c :: w ∧ (c = '@' ∨ c = ' ') := by
  rw [targetOn]
  cases x.target with
  | none =>
    obtain ⟨w, hw⟩ := h.remarkOn_eq a
    exact ⟨' ', w, hw, .inr rfl⟩
  | some s => exact ⟨'@', _, rfl, .inl rfl⟩

lemma Regular.resultOn_eq (h : x.Regular) (a : List Char) :
    (∃ w, x.resultOn a = ' ' :: '-' :: '>' :: w) ∨
      ∃ c w, x.resultOn a = ' ' :: c :: w ∧ (c = '@' ∨ c = ' ') := by
  rw [resultOn]
  cases x.result with
  | none => exact .inr (h.targetOn_eq a)
  | some s => exact .inl ⟨_, rfl⟩

lemma Regular.resultOn_eq_cons (h : x.Regular) (a : List Char) : ∃ w, x.resultOn a = ' ' :: w := by
  rcases h.resultOn_eq a with ⟨w, hw⟩ | ⟨c, w, hw, -⟩
  · exact ⟨_, hw⟩
  · exact ⟨_, hw⟩

lemma secondOn_eq (x : Texts) (a : List Char) :
    (∃ w, x.secondOn a = ',' :: w) ∨ x.secondOn a = x.resultOn a := by
  rw [secondOn]
  cases x.operand2 with
  | none => exact .inr rfl
  | some s => exact .inl ⟨_, rfl⟩

lemma Regular.stops_remarkOn (h : x.Regular) (a : List Char) :
    Text.Stops Text.inWord (x.remarkOn a) := by
  obtain ⟨w, hw⟩ := h.remarkOn_eq a
  rw [hw]
  exact Text.stops_cons (by decide) _

lemma Regular.stops_targetOn (h : x.Regular) (a : List Char) :
    Text.Stops Text.inWord (x.targetOn a) := by
  obtain ⟨c, w, hw, -⟩ := h.targetOn_eq a
  rw [hw]
  exact Text.stops_cons (by decide) _

lemma Regular.stops_resultOn (h : x.Regular) (a : List Char) :
    Text.Stops Text.inWord (x.resultOn a) := by
  obtain ⟨w, hw⟩ := h.resultOn_eq_cons a
  rw [hw]
  exact Text.stops_cons (by decide) _

lemma Regular.stops_secondOn (h : x.Regular) (a : List Char) :
    Text.Stops Text.inWord (x.secondOn a) := by
  rcases x.secondOn_eq a with ⟨w, hw⟩ | hw
  · rw [hw]
    exact Text.stops_cons (by decide) _
  · rw [hw]
    exact h.stops_resultOn a

/-! Each part is determined by a text that it starts. -/

lemma Regular.remarkOn_inj (hx : x.Regular) (hy : y.Regular) (h : x.remarkOn a = y.remarkOn b) :
    x.comment = y.comment ∧ a = b := by
  obtain ⟨s, hs, hsline⟩ := hx.comment
  obtain ⟨t, ht, htline⟩ := hy.comment
  rw [remarkOn, remarkOn, hs, ht, Text.field, Text.field, List.append_assoc, List.append_assoc] at h
  have hstop (z : List Char) : Text.Stops (fun c => c != '\n') ('\n' :: z) :=
    Text.stops_cons (by decide) z
  obtain ⟨hlist, hrest⟩ := Text.append_inj_of_stops hsline htline (hstop a) (hstop b)
    (List.append_cancel_left h)
  rw [hs, ht, String.toList_inj.mp hlist]
  exact ⟨rfl, (List.cons.inj hrest).2⟩

lemma Regular.targetOn_inj (hx : x.Regular) (hy : y.Regular) (h : x.targetOn a = y.targetOn b) :
    x.target = y.target ∧ x.remarkOn a = y.remarkOn b := by
  refine Text.field_append_inj (fun s hs t ht => ?_) (fun t _ => ?_) (fun s _ => ?_) h
  · exact (hx.target s hs).append_inj (hy.target t ht) (hx.stops_remarkOn a) (hy.stops_remarkOn b)
  · obtain ⟨w, hw⟩ := hx.remarkOn_eq a
    rw [hw]
    exact fun h => by cases h
  · obtain ⟨w, hw⟩ := hy.remarkOn_eq b
    rw [hw]
    exact fun h => by cases h

lemma Regular.arrow_ne_targetOn (hx : x.Regular) (a w : List Char) :
    [' ', '-', '>', ' '] ++ w ≠ x.targetOn a := by
  obtain ⟨c, v, hv, hc⟩ := hx.targetOn_eq a
  rw [hv]
  intro h
  cases h
  revert hc
  decide

lemma Regular.resultOn_inj (hx : x.Regular) (hy : y.Regular) (h : x.resultOn a = y.resultOn b) :
    x.result = y.result ∧ x.targetOn a = y.targetOn b := by
  refine Text.field_append_inj (fun s hs t ht => ?_) (fun t _ => hx.arrow_ne_targetOn a _)
    (fun s _ => hy.arrow_ne_targetOn b _) h
  exact (hx.result s hs).append_inj (hy.result t ht) (hx.stops_targetOn a) (hy.stops_targetOn b)

lemma Regular.comma_ne_resultOn (hx : x.Regular) (a w : List Char) :
    [',', ' '] ++ w ≠ x.resultOn a := by
  obtain ⟨v, hv⟩ := hx.resultOn_eq_cons a
  rw [hv]
  exact fun h => by cases h

lemma Regular.secondOn_inj (hx : x.Regular) (hy : y.Regular) (h : x.secondOn a = y.secondOn b) :
    x.operand2 = y.operand2 ∧ x.resultOn a = y.resultOn b := by
  refine Text.field_append_inj (fun s hs t ht => ?_) (fun t _ => hx.comma_ne_resultOn a _)
    (fun s _ => hy.comma_ne_resultOn b _) h
  exact (hx.operand2 s hs).append_inj (hy.operand2 t ht) (hx.stops_resultOn a)
    (hy.stops_resultOn b)

/-- A blank and an operand cannot be taken for what follows the first operand.  An operand that
starts with a minus sign goes on as a number, and not as an arrow. -/
lemma Regular.operand_ne_secondOn (hx : x.Regular) (a : List Char) {s : String} {z : List Char}
    (hs : Text.IsOperand s) (hz : Text.Stops Text.inWord z) (harrow : ∀ w, z ≠ '>' :: w) :
    [' '] ++ (s.toList ++ z) ≠ x.secondOn a := by
  have hmark {c : Char} {w : List Char} (hc : Text.inWord c = false) (hquote : c ≠ '"') :
      s.toList ++ z ≠ c :: w := by
    intro h
    rcases hs with hs | ⟨t, rfl⟩
    · obtain ⟨d, ds, hlist⟩ := List.exists_cons_of_ne_nil hs.ne_nil
      have hd := hs.inWord d (hlist ▸ List.mem_cons_self)
      rw [hlist] at h
      obtain rfl : d = c := (List.cons.inj h).1
      rw [hc] at hd
      cases hd
    · rw [Text.toList_quoted_append] at h
      exact hquote (List.cons.inj h).1.symm
  intro h
  rcases x.secondOn_eq a with ⟨w, hw⟩ | hw
  · rw [hw] at h
    cases h
  · rw [hw] at h
    rcases hx.resultOn_eq a with ⟨w, hw⟩ | ⟨c, w, hw, hc⟩
    · rw [hw] at h
      -- A word that starts as an arrow does is the minus sign alone, and `>` follows it.
      have h : s.toList ++ z = "-".toList ++ '>' :: w := (List.cons.inj h).2
      rcases hs with hs | ⟨t, rfl⟩
      · have hminus : Text.Bare "-" := Text.bare_of_all (by decide +kernel) (by decide +kernel)
        obtain ⟨-, hrest⟩ := hs.append_inj hminus hz (Text.stops_cons (by decide) w) h
        exact harrow w hrest
      · rw [Text.toList_quoted_append] at h
        cases h
    · rw [hw] at h
      have h : s.toList ++ z = c :: w := (List.cons.inj h).2
      rcases hc with rfl | rfl
      · exact hmark (by decide) (by decide) h
      · exact hmark (by decide) (by decide) h

lemma Regular.secondOn_ne_arrow (hx : x.Regular) (a w : List Char) : x.secondOn a ≠ '>' :: w := by
  rcases x.secondOn_eq a with ⟨v, hv⟩ | hv
  · rw [hv]
    exact fun h => by cases h
  · obtain ⟨v, hw⟩ := hx.resultOn_eq_cons a
    rw [hv, hw]
    exact fun h => by cases h

lemma Regular.firstOn_inj (hx : x.Regular) (hy : y.Regular)
    (h : Text.field [' '] x.operand1 ++ x.secondOn a =
      Text.field [' '] y.operand1 ++ y.secondOn b) :
    x.operand1 = y.operand1 ∧ x.secondOn a = y.secondOn b := by
  refine Text.field_append_inj (fun s hs t ht => ?_) (fun t ht => ?_) (fun s hs => ?_) h
  · exact (hx.operand1 s hs).append_inj (hy.operand1 t ht) (hx.stops_secondOn a)
      (hy.stops_secondOn b)
  · exact hx.operand_ne_secondOn a (hy.operand1 t ht) (hy.stops_secondOn b)
      (hy.secondOn_ne_arrow b)
  · exact hy.operand_ne_secondOn b (hx.operand1 s hs) (hx.stops_secondOn a)
      (hx.secondOn_ne_arrow a)

lemma bare_mnemonic (op : Opcode) : Text.Bare op.mnemonic := by
  cases op <;> exact Text.bare_of_all (by decide +kernel) (by decide +kernel)

lemma mnemonic_injective {op op' : Opcode} (h : op.mnemonic = op'.mnemonic) : op = op' := by
  have hread := Opcode.ofMnemonic?_mnemonic op
  rw [h, Opcode.ofMnemonic?_mnemonic] at hread
  exact (Option.some.inj hread).symm

lemma Regular.stops_firstOn (hx : x.Regular) (a : List Char) :
    Text.Stops Text.inWord (Text.field [' '] x.operand1 ++ x.secondOn a) := by
  cases x.operand1 with
  | none => exact hx.stops_secondOn a
  | some s => exact Text.stops_cons (by decide) _

lemma Regular.firstOn_ne_colon (hx : x.Regular) (a w : List Char) :
    Text.field [' '] x.operand1 ++ x.secondOn a ≠ ':' :: w := by
  cases x.operand1 with
  | none =>
    rcases x.secondOn_eq a with ⟨v, hv⟩ | hv
    · rw [hv]
      exact fun h => by cases h
    · obtain ⟨v, hw⟩ := hx.resultOn_eq_cons a
      rw [hv, hw]
      exact fun h => by cases h
  | some s => exact fun h => by cases h

/-- The definition of a label starts with the word and a colon. -/
lemma Regular.line_of_label (hx : x.Regular) (hlabel : x.opcode = .label) :
    ∃ s, Text.Bare s ∧ x = ⟨.label, some s, none, none, none, x.comment⟩ ∧
      ∀ a, x.line a = s.toList ++ ':' :: x.remarkOn a := by
  obtain ⟨s, hs, hbare, hsecond, hresult, htarget⟩ := hx.label hlabel
  refine ⟨s, hbare, ?_, fun a => ?_⟩
  · exact Texts.ext hlabel hs hsecond hresult htarget rfl
  · rw [line, if_pos hlabel, hs]
    rfl

/-- Any other instruction starts with its mnemonic. -/
lemma line_of_ne_label (hx : x.opcode ≠ .label) (a : List Char) :
    x.line a = x.opcode.mnemonic.toList ++ (Text.field [' '] x.operand1 ++ x.secondOn a) :=
  if_neg hx

lemma stops_colon (w : List Char) : Text.Stops Text.inWord (':' :: w) :=
  Text.stops_cons (by decide) w

lemma Regular.line_label_ne (hx : x.Regular) (hy : y.Regular) (hlabel : x.opcode = .label)
    (hop : y.opcode ≠ .label) : x.line a ≠ y.line b := by
  obtain ⟨s, hs, -, hline⟩ := hx.line_of_label hlabel
  rw [hline, line_of_ne_label hop]
  intro h
  obtain ⟨-, hrest⟩ := hs.append_inj (bare_mnemonic y.opcode) (stops_colon _) (hy.stops_firstOn b) h
  exact hy.firstOn_ne_colon b _ hrest.symm

/-- An instruction is determined by a text that it starts, with what follows. -/
theorem Regular.line_inj (hx : x.Regular) (hy : y.Regular) (h : x.line a = y.line b) :
    x = y ∧ a = b := by
  by_cases hlabel : x.opcode = .label
  · by_cases hlabel' : y.opcode = .label
    · obtain ⟨s, hs, hparts, hline⟩ := hx.line_of_label hlabel
      obtain ⟨t, ht, hparts', hline'⟩ := hy.line_of_label hlabel'
      rw [hline, hline'] at h
      obtain ⟨rfl, hrest⟩ := hs.append_inj ht (stops_colon _) (stops_colon _) h
      obtain ⟨hcomment, hab⟩ := hx.remarkOn_inj hy (List.cons.inj hrest).2
      rw [hparts, hparts', hcomment]
      exact ⟨rfl, hab⟩
    · exact absurd h (hx.line_label_ne hy hlabel hlabel')
  · by_cases hlabel' : y.opcode = .label
    · exact absurd h.symm (hy.line_label_ne hx hlabel' hlabel)
    · rw [line_of_ne_label hlabel, line_of_ne_label hlabel'] at h
      obtain ⟨hop, h⟩ := (bare_mnemonic x.opcode).append_inj (bare_mnemonic y.opcode)
        (hx.stops_firstOn a) (hy.stops_firstOn b) h
      obtain ⟨hfirst, h⟩ := hx.firstOn_inj hy h
      obtain ⟨hsecond, h⟩ := hx.secondOn_inj hy h
      obtain ⟨hresult, h⟩ := hx.resultOn_inj hy h
      obtain ⟨htarget, h⟩ := hx.targetOn_inj hy h
      obtain ⟨hcomment, h⟩ := hx.remarkOn_inj hy h
      refine ⟨?_, h⟩
      exact Texts.ext (mnemonic_injective hop) hfirst hsecond hresult htarget hcomment

end Texts

variable {i : Instruction}

lemma toList_operandsText (h : i.texts.Regular) :
    i.operandsText.toList =
      Text.field [' '] i.texts.operand1 ++ Text.field [',', ' '] i.texts.operand2 := by
  have hsecond : i.operand1 = none → i.operand2 = none := by simpa [texts] using h.second
  rw [operandsText, texts]
  cases hfirst : i.operand1 with
  | none =>
    rw [hsecond hfirst]
    rfl
  | some o =>
    cases i.operand2 with
    | none => simp [Text.field]
    | some o' => simp [Text.field]

lemma toList_resultText (i : Instruction) :
    i.resultText.toList = Text.field [' ', '-', '>', ' '] i.texts.result := by
  rw [resultText, texts]
  cases i.result with
  | none => rfl
  | some r => simp [Text.field]

lemma toList_targetText (i : Instruction) :
    i.targetText.toList = Text.field [' ', '@'] i.texts.target := by
  rw [targetText, texts]
  cases i.target with
  | none => rfl
  | some l => simp [Text.field]

/-- An instruction is listed as the texts of its parts say. -/
lemma toList_text (h : i.texts.Regular) (rest : List Char) :
    i.text.toList ++ i.texts.remarkOn rest = i.texts.line rest := by
  have hop : i.texts.opcode = i.opcode := rfl
  rw [text, Texts.line, hop]
  split
  next =>
    rw [String.toList_append, List.append_assoc]
    rfl
  next =>
    rw [String.toList_append, String.toList_append, String.toList_append, toList_operandsText h,
      toList_resultText, toList_targetText]
    simp only [Texts.secondOn, Texts.resultOn, Texts.targetOn, List.append_assoc]

end Instruction

/-! ### Listings -/

/-- The marker before the first instruction of a line. -/
def lineMarker : Option Nat → List Char
  | none => []
  | some n => [';', ' ', 'l', 'i', 'n', 'e', ' '] ++ (Nat.toDigits 10 n ++ ['\n'])

/-- A marker is determined by a text that it starts, if a digit follows it. -/
lemma lineMarker_append_inj {m n : Option Nat} {x y : List Char} (hx : StartsWithDigit x)
    (hy : StartsWithDigit y) (h : lineMarker m ++ x = lineMarker n ++ y) : m = n ∧ x = y := by
  have hmark (k : Nat) {z w : List Char} (hz : StartsWithDigit z) :
      lineMarker (some k) ++ w ≠ z := by
    obtain ⟨c, cs, rfl, hc⟩ := hz
    intro h
    cases h
    exact absurd hc (by decide)
  cases m with
  | none =>
    cases n with
    | none => exact ⟨rfl, h⟩
    | some k => exact absurd h.symm (hmark k hx)
  | some j =>
    cases n with
    | none => exact absurd (h.trans (List.nil_append y)) (hmark j hy)
    | some k =>
      simp only [lineMarker, List.append_assoc] at h
      have hdigits (k : Nat) : ∀ c ∈ Nat.toDigits 10 k, c.isDigit = true :=
        fun c hc => Nat.isDigit_of_mem_toDigits (by decide) (by decide) hc
      have hstop (z : List Char) : Text.Stops Char.isDigit (['\n'] ++ z) :=
        Text.stops_cons (by decide) z
      obtain ⟨hlist, hrest⟩ := Text.append_inj_of_stops (hdigits j) (hdigits k) (hstop x) (hstop y)
        (List.append_cancel_left h)
      rw [toDigits_injective hlist]
      exact ⟨rfl, (List.cons.inj hrest).2⟩

lemma startsWithDigit_fourDigits (k : Nat) : StartsWithDigit (fourDigits k).toList := by
  have hlist : (fourDigits k).toList =
      List.replicate (4 - (toString k).length) '0' ++ Nat.toDigits 10 k := by
    simp [fourDigits]
  rw [hlist]
  cases 4 - (toString k).length with
  | zero => exact startsWithDigit_toDigits k
  | succ n => exact ⟨'0', _, rfl, by decide⟩

/-- Instructions as they are listed from an index on, with the lines that start at each index. -/
def listed (starts : Nat → Option Nat) (k : Nat) : List Instruction.Texts → List Char
  | [] => []
  | x :: xs =>
    lineMarker (starts k) ++
      ((fourDigits k).toList ++ ([' ', ' '] ++ x.line (listed starts (k + 1) xs)))

/-- What is listed determines the instructions and the lines that start at them. -/
theorem listed_inj {starts starts' : Nat → Option Nat} {xs ys : List Instruction.Texts} {k : Nat}
    (hxs : ∀ x ∈ xs, x.Regular) (hys : ∀ y ∈ ys, y.Regular)
    (h : listed starts k xs = listed starts' k ys) :
    xs = ys ∧ ∀ j, k ≤ j → j < k + xs.length → starts j = starts' j := by
  have hne (starts : Nat → Option Nat) (k : Nat) (x : Instruction.Texts)
      (xs : List Instruction.Texts) : listed starts k (x :: xs) ≠ [] := by
    intro h
    have hdigits := (List.append_eq_nil_iff.mp (List.append_eq_nil_iff.mp h).2).1
    obtain ⟨c, cs, hlist, -⟩ := startsWithDigit_fourDigits k
    rw [hlist] at hdigits
    cases hdigits
  induction xs generalizing ys k with
  | nil =>
    cases ys with
    | nil => exact ⟨rfl, fun j hle hlt => absurd hlt (by simpa using hle)⟩
    | cons y ys => exact absurd h.symm (hne starts' k y ys)
  | cons x xs ih =>
    cases ys with
    | nil => exact absurd h (hne starts k x xs)
    | cons y ys =>
      obtain ⟨hx, hxs'⟩ := List.forall_mem_cons.mp hxs
      obtain ⟨hy, hys'⟩ := List.forall_mem_cons.mp hys
      have hdigit := startsWithDigit_fourDigits k
      -- The index itself is known on both sides, so that its digits need no reading.
      rw [listed, listed] at h
      obtain ⟨hstart, hentry⟩ := lineMarker_append_inj (hdigit.append _) (hdigit.append _) h
      rw [List.append_cancel_left_eq, List.append_cancel_left_eq] at hentry
      obtain ⟨rfl, hlater⟩ := hx.line_inj hy hentry
      obtain ⟨rfl, hstarts⟩ := ih hxs' hys' hlater
      refine ⟨rfl, fun j hle hlt => ?_⟩
      rcases Nat.eq_or_lt_of_le hle with rfl | hlater
      · exact hstart
      · exact hstarts j hlater (by simp only [List.length_cons] at hlt; omega)

namespace CodeUnit

lemma toList_entryText {u : CodeUnit} {i : Instruction} (h : i.texts.Regular) (k : Nat)
    (rest : List Char) :
    (u.entryText k i).toList ++ rest = lineMarker (u.lineMap.lineAt? k) ++
      ((fourDigits k).toList ++ ([' ', ' '] ++ i.texts.line rest)) := by
  obtain ⟨s, hs, -⟩ := h.comment
  obtain ⟨c, hc, rfl⟩ := Option.map_eq_some_iff.mp hs
  have hremark : i.texts.remarkOn rest =
      [' ', ' ', ';', ' '] ++ (c.text.toList ++ '\n' :: rest) := by
    rw [Instruction.Texts.remarkOn, hs, Text.field, List.append_assoc]
  rw [← Instruction.toList_text h, hremark, entryText, hc]
  cases u.lineMap.lineAt? k with
  | none => simp [lineMarker]
  | some n => simp [lineMarker]

/-- The listing of a unit, if all its instructions are regular. -/
theorem toList_listing {u : CodeUnit} (h : ∀ i ∈ u.code.toList, i.texts.Regular) :
    u.listing.toList = listed u.lineMap.lineAt? 0 (u.code.toList.map Instruction.texts) := by
  have hfrom (k : Nat) (is : List Instruction) (his : ∀ i ∈ is, i.texts.Regular) :
      ((is.zipIdx k).map fun x => u.entryText x.2 x.1).flatMap String.toList =
        listed u.lineMap.lineAt? k (is.map Instruction.texts) := by
    induction is generalizing k with
    | nil => rfl
    | cons i is ih =>
      obtain ⟨hi, his⟩ := List.forall_mem_cons.mp his
      rw [List.zipIdx_cons, List.map_cons, List.flatMap_cons, ih (k + 1) his, toList_entryText hi]
      rfl
  rw [listing, String.toList_join]
  exact hfrom 0 _ h

end CodeUnit

end LineBasic
