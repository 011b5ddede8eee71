import LineBasic.Proofs.Code.Listing
import LineBasic.Proofs.Code.OperandKinds
import LineBasic.Proofs.Code.Temporaries

/-!
# Renumbering

Code in which the numbers of temporaries and labels start somewhere else.  A renumbering acts on
instructions and on their texts, and both agree on the code that lowering makes: a name, a number or
a text of the program is never taken for a temporary or a label.

* `Renumbering`, `Renumbering.instruction`: new numbers for the temporaries and labels of an
  instruction;
* `Renumbering.texts`: the same on the texts of its parts, where a temporary is known by its text;
* `Renumbering.Value`, `Renumbering.Fits`: operands and instructions whose numbers come from the
  units, and on which both agree;
* `Expr.fits_stringInstruction` and the lemmas after it: every kind of instruction fits.
-/

namespace LineBasic

open Text (Bare)

/-! ### Numbers in texts -/

namespace Text

/-- The number after a letter, if a text is that letter and a number. -/
def numberAfter? (c : Char) (s : String) : Option Nat :=
  let n := Nat.ofDigitChars 10 (s.toList.drop 1) 0
  if s.toList = c :: Nat.toDigits 10 n then some n else none

lemma numberAfter?_of_toList {c : Char} {s : String} {n : Nat}
    (h : s.toList = c :: Nat.toDigits 10 n) : numberAfter? c s = some n := by
  have hnumber : Nat.ofDigitChars 10 (s.toList.drop 1) 0 = n := by
    rw [h, List.drop_one, List.tail_cons, Nat.ofDigitChars_ten_toDigits]
  simp only [numberAfter?, hnumber]
  exact if_pos h

lemma numberAfter?_temp (i : Nat) : numberAfter? 't' (Symbol.temp i).text = some i :=
  numberAfter?_of_toList (Symbol.toList_text_temp i)

lemma numberAfter?_label (i : Nat) : numberAfter? 'L' (Symbol.label i).text = some i :=
  numberAfter?_of_toList (Symbol.toList_text_label i)

/-- A text that is not the text of a temporary has no such number. -/
lemma numberAfter?_eq_none {s : String} (h : ∀ i, s ≠ (Symbol.temp i).text) :
    numberAfter? 't' s = none := by
  refine if_neg fun hlist => ?_
  rw [← Symbol.toList_text_temp] at hlist
  exact h _ (String.toList_inj.mp hlist)

/-- No word of a text is the text of a temporary. -/
def Plain (s : String) : Prop :=
  ∀ word ∈ s.toList.splitOn ' ', numberAfter? 't' (String.ofList word) = none

instance (s : String) : Decidable (Plain s) :=
  inferInstanceAs (Decidable (∀ word ∈ s.toList.splitOn ' ', _))

end Text

/-- A name that is no temporary and stands on its own between spaces. -/
structure ClearName (name : String) : Prop where
  ne_temp : ∀ i, name ≠ (Symbol.temp i).text
  no_space : ' ' ∉ name.toList

lemma Text.Bare.no_space {s : String} (h : Bare s) : ' ' ∉ s.toList := fun hmem =>
  absurd (h.inWord ' ' hmem) (by decide)

lemma IsName.clear {name : String} (h : IsName name) (hbare : Bare name) : ClearName name :=
  ⟨h.ne_temp, hbare.no_space⟩

/-! ### New numbers -/

/-- Where the numbers of temporaries and labels start, and where they are to start. -/
structure Renumbering where
  temps : Nat
  labels : Nat
  newTemps : Nat
  newLabels : Nat

namespace Renumbering

variable (r : Renumbering)

/-- The new number of a temporary. -/
def temp (i : Nat) : Nat := i + r.newTemps - r.temps

/-- The new number of a label. -/
def label (i : Nat) : Nat := i + r.newLabels - r.labels

/-- A name with its new number. -/
def symbol : Symbol → Symbol
  | .given name => .given name
  | .temp i => .temp (r.temp i)
  | .label i => .label (r.label i)

/-- An operand with its new number. -/
def operand : Operand → Operand
  | .symbol s => .symbol (r.symbol s)
  | .number x => .number x
  | .quoted s => .quoted s

/-- A piece of a comment with its new number. -/
def piece : Piece → Piece
  | .words s => .words s
  | .operand o => .operand (r.operand o)

/-- An instruction with new numbers. -/
def instruction (i : Instruction) : Instruction where
  opcode := i.opcode
  operand1 := i.operand1.map r.operand
  operand2 := i.operand2.map r.operand
  result := i.result.map r.symbol
  target := i.target.map r.symbol
  comment := i.comment.map fun c => c.map r.piece

/-! ### New numbers in texts -/

/-- A text with a new number, if it is the text of a temporary. -/
def tempText (s : String) : String :=
  match Text.numberAfter? 't' s with
  | some i => (Symbol.temp (r.temp i)).text
  | none => s

/-- A text with a new number, if it is the text of a label. -/
def labelText (s : String) : String :=
  match Text.numberAfter? 'L' s with
  | some i => (Symbol.label (r.label i)).text
  | none => s

/-- Characters in which each word between spaces is replaced if it is the text of a temporary. -/
def wordChars (cs : List Char) : List Char :=
  [' '].intercalate ((cs.splitOn ' ').map fun word => (r.tempText (String.ofList word)).toList)

/-- A text in which each word between spaces is replaced if it is the text of a temporary. -/
def words (s : String) : String := String.ofList (r.wordChars s.toList)

/-- The texts of an instruction with new numbers.  Temporaries are found by their texts, in
operands, results and between the words of a comment.  Labels are found where an instruction defines
one or branches to one, and nowhere else: a variable may have the name of a label. -/
def texts (x : Instruction.Texts) : Instruction.Texts where
  opcode := x.opcode
  operand1 := x.operand1.map (if x.opcode = .label then r.labelText else r.tempText)
  operand2 := x.operand2.map r.tempText
  result := x.result.map r.tempText
  target := x.target.map r.labelText
  comment := x.comment.map r.words

lemma tempText_temp (i : Nat) :
    r.tempText (Symbol.temp i).text = (Symbol.temp (r.temp i)).text := by
  rw [tempText, Text.numberAfter?_temp]

lemma labelText_label (i : Nat) :
    r.labelText (Symbol.label i).text = (Symbol.label (r.label i)).text := by
  rw [labelText, Text.numberAfter?_label]

lemma tempText_of_none {s : String} (h : Text.numberAfter? 't' s = none) : r.tempText s = s := by
  rw [tempText, h]

lemma tempText_of_ne {s : String} (h : ∀ i, s ≠ (Symbol.temp i).text) : r.tempText s = s :=
  r.tempText_of_none (Text.numberAfter?_eq_none h)

/-! Words between spaces are replaced one by one. -/

lemma intercalate_append {sep : List Char} {xs ys : List (List Char)} (hxs : xs ≠ [])
    (hys : ys ≠ []) :
    sep.intercalate (xs ++ ys) = sep.intercalate xs ++ sep ++ sep.intercalate ys := by
  induction xs with
  | nil => exact absurd rfl hxs
  | cons x xs ih =>
    by_cases hnil : xs = []
    · rw [hnil, List.singleton_append, List.intercalate_cons_of_ne_nil hys,
        List.intercalate_singleton]
    · have hne : xs ++ ys ≠ [] := List.append_ne_nil_of_left_ne_nil hnil ys
      rw [List.cons_append, List.intercalate_cons_of_ne_nil hne, ih hnil,
        List.intercalate_cons_of_ne_nil hnil]
      simp only [List.append_assoc]

lemma wordChars_append (xs ys : List Char) :
    r.wordChars (xs ++ ' ' :: ys) = r.wordChars xs ++ ' ' :: r.wordChars ys := by
  have hne (cs : List Char) : ((cs.splitOn ' ').map fun word =>
      (r.tempText (String.ofList word)).toList) ≠ [] :=
    mt List.map_eq_nil_iff.mp (List.splitOn_ne_nil ' ' cs)
  rw [wordChars, List.splitOn_append_cons_self, List.map_append,
    intercalate_append (hne xs) (hne ys), List.append_assoc]
  rfl

/-- Words stay apart if there is a space between them. -/
lemma words_append {s t : String} (h : s.toList.getLast? = some ' ' ∨ t.toList.head? = some ' ') :
    r.words (s ++ t) = r.words s ++ r.words t := by
  have hnil : r.wordChars [] = [] := by
    rw [wordChars, List.splitOn_nil]
    rfl
  rw [words, words, words, ← String.ofList_append, String.toList_append]
  congr 1
  rcases h with hlast | hhead
  · obtain ⟨xs, hxs⟩ := List.getLast?_eq_some_iff.mp hlast
    have hend := r.wordChars_append xs []
    rw [hnil] at hend
    rw [hxs, List.append_assoc, List.singleton_append, r.wordChars_append, hend, List.append_assoc]
    rfl
  · obtain ⟨ys, hys⟩ := List.head?_eq_some_iff.mp hhead
    have hstart := r.wordChars_append [] ys
    rw [hnil, List.nil_append, List.nil_append] at hstart
    rw [hys, r.wordChars_append, hstart]

lemma words_of_no_space {s : String} (h : ' ' ∉ s.toList) : r.words s = r.tempText s := by
  rw [words, wordChars, List.splitOn_eq_singleton h]
  simp

/-- Words none of which is the text of a temporary stay as they are. -/
lemma words_of_plain {s : String} (h : Text.Plain s) : r.words s = s := by
  have hsame : (s.toList.splitOn ' ').map (fun word => (r.tempText (String.ofList word)).toList) =
      s.toList.splitOn ' ' := by
    rw [List.map_congr_left (g := id), List.map_id]
    intro word hword
    rw [r.tempText_of_none (h word hword), String.toList_ofList, id]
  rw [words, wordChars, hsame, List.intercalate_splitOn, String.ofList_toList]

/-- Words before a name. -/
lemma words_append_name {s name : String} (hs : Text.Plain s)
    (hspace : s.toList.getLast? = some ' ') (hname : ClearName name) :
    r.words (s ++ name) = s ++ name := by
  rw [r.words_append (.inl hspace), r.words_of_plain hs, r.words_of_no_space hname.no_space,
    r.tempText_of_ne hname.ne_temp]

/-! ### Operands and comments -/

/-- What the value of an expression can be in: a name of the program, a number, or a temporary from
the first one of a unit up to a bound. -/
inductive Value (n : Nat) : Operand → Prop
  | given {name : String} (h : ClearName name) : Value n (.symbol (.given name))
  | temp {i : Nat} (h : r.temps ≤ i) (hlt : i < n) : Value n (.symbol (.temp i))
  | number (x : Number) : Value n (.number x)

variable {r} {n m : Nat} {o : Operand} {c : Comment}

lemma Value.mono {n' : Nat} (h : r.Value n o) (hle : n ≤ n') : r.Value n' o := by
  cases h with
  | given hname => exact .given hname
  | temp hle' hlt => exact .temp hle' (Nat.lt_of_lt_of_le hlt hle)
  | number x => exact .number x

lemma Value.text_operand (h : r.Value n o) : (r.operand o).text = r.tempText o.text := by
  cases h with
  | given hname => exact (r.tempText_of_ne hname.ne_temp).symm
  | temp _ _ => exact (r.tempText_temp _).symm
  | number x => exact (r.tempText_of_ne (looksNumeric_numberText x).ne_temp).symm

lemma Value.words_text (h : r.Value n o) : r.words o.text = (r.operand o).text := by
  have hspace : ' ' ∉ o.text.toList := by
    cases h with
    | given hname => exact hname.no_space
    | temp _ _ => exact (Text.bare_temp _).no_space
    | number x => exact (Text.bare_numberText x).no_space
  rw [r.words_of_no_space hspace, h.text_operand]

/-- A comment in which the operands are values, and are found by their texts. -/
structure FitsIn (r : Renumbering) (n : Nat) (c : Comment) : Prop where
  words : r.words c.text = Comment.text (c.map r.piece)
  value : ∀ o, .operand o ∈ c → r.Value n o

lemma fitsIn_words {s : String} (hs : r.words s = s) : r.FitsIn n [.words s] := by
  refine ⟨?_, by simp⟩
  simpa [Comment.text, Piece.text, piece] using hs

lemma fitsIn_operand (ho : r.Value n o) : r.FitsIn n [.operand o] := by
  refine ⟨?_, by simpa using ho⟩
  simpa [Comment.text, Piece.text, piece] using ho.words_text

lemma text_cons (p : Piece) (c : Comment) : Comment.text (p :: c) = p.text ++ c.text := by
  apply String.toList_inj.mp
  simp [Comment.text, String.toList_join]

/-- Words before an operand end in a space. -/
lemma FitsIn.words_cons (h : r.FitsIn n c) {s : String} (hs : r.words s = s)
    (hspace : s.toList.getLast? = some ' ') : r.FitsIn n (.words s :: c) := by
  refine ⟨?_, by simpa using h.value⟩
  have happend : r.words (s ++ c.text) = r.words s ++ r.words c.text := r.words_append (.inl hspace)
  rw [text_cons, List.map_cons, text_cons, ← h.words]
  exact happend.trans (congrArg (· ++ _) hs)

/-- After an operand comes a space. -/
lemma FitsIn.operand_cons (h : r.FitsIn n c) (ho : r.Value n o)
    (hspace : c.text.toList.head? = some ' ') : r.FitsIn n (.operand o :: c) := by
  refine ⟨?_, ?_⟩
  · have happend := r.words_append (s := o.text) (.inr hspace)
    rw [text_cons, List.map_cons, text_cons, ← h.words]
    exact happend.trans (congrArg (· ++ _) ho.words_text)
  · intro o' ho'
    rcases List.mem_cons.mp ho' with heq | hmem
    · cases heq
      exact ho
    · exact h.value o' hmem

end Renumbering

/-! ### Instructions -/

/-- The name that an operand is. -/
def Operand.symbol? : Operand → Option Symbol
  | .symbol s => some s
  | _ => none

/-- The name in a piece of a comment. -/
def Piece.symbol? : Piece → Option Symbol
  | .words _ => none
  | .operand o => o.symbol?

/-- The names in an instruction. -/
def Instruction.symbols (i : Instruction) : List Symbol :=
  i.operands.filterMap Operand.symbol? ++ i.result.toList ++ i.target.toList ++
    (i.comment.getD []).filterMap Piece.symbol?

namespace Renumbering

/-- The number of a temporary or of a label is between the first one of a unit and a bound. -/
def Owns (r : Renumbering) (n m : Nat) : Symbol → Prop
  | .given _ => True
  | .temp i => r.temps ≤ i ∧ i < n
  | .label i => r.labels ≤ i ∧ i < m

/-- The temporaries and labels of an instruction are of a unit, and new numbers can be put into its
texts. -/
structure Fits (r : Renumbering) (n m : Nat) (i : Instruction) : Prop where
  owns : ∀ s ∈ i.symbols, r.Owns n m s
  texts : (r.instruction i).texts = r.texts i.texts

/-- The names in an instruction with new numbers. -/
lemma symbols_instruction (r : Renumbering) (i : Instruction) :
    (r.instruction i).symbols = i.symbols.map r.symbol := by
  have hoperand (o : Operand) : (r.operand o).symbol? = o.symbol?.map r.symbol := by
    cases o <;> rfl
  have hpiece (p : Piece) : (r.piece p).symbol? = p.symbol?.map r.symbol := by
    cases p with
    | words s => rfl
    | operand o => exact hoperand o
  have hoption {α β : Type} (g : α → β) (o : Option α) : (o.map g).toList = o.toList.map g := by
    cases o <;> rfl
  have hcomment : (i.comment.map fun c => c.map r.piece).getD [] =
      (i.comment.getD []).map r.piece := by
    cases i.comment <;> rfl
  simp only [Instruction.symbols, Instruction.operands, instruction, hcomment, hoption,
    List.map_append, List.filterMap_append, List.filterMap_map, List.map_filterMap,
    Function.comp_def, hoperand, hpiece]

variable {r : Renumbering} {n m : Nat}

lemma Owns.mono {n' m' : Nat} {s : Symbol} (h : r.Owns n m s) (hn : n ≤ n') (hm : m ≤ m') :
    r.Owns n' m' s := by
  cases s with
  | given name => trivial
  | temp i => exact ⟨h.1, Nat.lt_of_lt_of_le h.2 hn⟩
  | label i => exact ⟨h.1, Nat.lt_of_lt_of_le h.2 hm⟩

lemma Fits.mono {n' m' : Nat} {i : Instruction} (h : r.Fits n m i) (hn : n ≤ n') (hm : m ≤ m') :
    r.Fits n' m' i :=
  ⟨fun s hs => (h.owns s hs).mono hn hm, h.texts⟩

lemma Value.owns {s : Symbol} (h : r.Value n (.symbol s)) : r.Owns n m s := by
  cases h with
  | given _ => trivial
  | temp hle hlt => exact ⟨hle, hlt⟩

/-- The operand of an instruction: a value, or a text. -/
def IsOperand (r : Renumbering) (n : Nat) (o : Operand) : Prop := r.Value n o ∨ ∃ s, o = .quoted s

lemma IsOperand.text_operand {o : Operand} (h : r.IsOperand n o) :
    (r.operand o).text = r.tempText o.text := by
  rcases h with hvalue | ⟨s, rfl⟩
  · exact hvalue.text_operand
  · exact (r.tempText_of_ne (Text.quoted_ne_temp s)).symm

lemma IsOperand.owns {o : Operand} (h : r.IsOperand n o) {s : Symbol} (hs : o.symbol? = some s) :
    r.Owns n m s := by
  rcases h with hvalue | ⟨x, rfl⟩
  · cases o with
    | symbol s' =>
      cases hs
      exact hvalue.owns
    | _ => cases hs
  · cases hs

/-- An instruction that defines no label fits if its parts do. -/
lemma fits_of_parts {op : Opcode} {o o' : Option Operand} {result target : Option Symbol}
    {c : Comment} (hop : op ≠ .label) (ho : ∀ a ∈ o, r.IsOperand n a)
    (ho' : ∀ a ∈ o', r.IsOperand n a) (hresult : ∀ s ∈ result, r.Value n (.symbol s))
    (htarget : ∀ s ∈ target, ∃ k, s = .label k ∧ r.labels ≤ k ∧ k < m) (hc : r.FitsIn n c) :
    r.Fits n m ⟨op, o, o', result, target, some c⟩ := by
  constructor
  · intro s hs
    simp only [Instruction.symbols, Instruction.operands, List.mem_append, List.mem_filterMap,
      Option.mem_toList] at hs
    rcases hs with ((⟨a, ha | ha, hs⟩ | hs) | hs) | ⟨p, hp, hs⟩
    · exact (ho a ha).owns hs
    · exact (ho' a ha).owns hs
    · exact (hresult s hs).owns
    · obtain ⟨k, rfl, hle, hlt⟩ := htarget s hs
      exact ⟨hle, hlt⟩
    · cases p with
      | words text => cases hs
      | operand a => exact IsOperand.owns (.inl (hc.value a hp)) hs
  · have hoperand {o : Option Operand} (ho : ∀ a ∈ o, r.IsOperand n a) :
        (o.map r.operand).map Operand.text = (o.map Operand.text).map r.tempText := by
      cases o with
      | none => rfl
      | some a => exact congrArg some (ho a rfl).text_operand
    have hsymbol : (result.map r.symbol).map Symbol.text =
        (result.map Symbol.text).map r.tempText := by
      cases result with
      | none => rfl
      | some s => exact congrArg some (hresult s rfl).text_operand
    have hlabel : (target.map r.symbol).map Symbol.text =
        (target.map Symbol.text).map r.labelText := by
      cases target with
      | none => rfl
      | some s =>
        obtain ⟨k, rfl, -⟩ := htarget s rfl
        exact congrArg some (r.labelText_label k).symm
    refine Instruction.Texts.ext rfl ?_ (hoperand ho') hsymbol hlabel (congrArg some hc.words.symm)
    show (o.map r.operand).map Operand.text =
      (o.map Operand.text).map (if op = .label then r.labelText else r.tempText)
    rw [if_neg hop, hoperand ho]

/-- An instruction with one operand, which its comment names. -/
lemma fits_of_value {op : Opcode} (hop : op ≠ .label) {o : Operand} (ho : r.Value n o)
    {remark : String} (hremark : Text.Plain remark)
    (hspace : remark.toList.getLast? = some ' ') :
    r.Fits n m ⟨op, some o, none, none, none, some [.words remark, .operand o]⟩ :=
  fits_of_parts hop (forall_mem_some (.inl ho)) (by simp) (by simp) (by simp)
    ((fitsIn_operand ho).words_cons (r.words_of_plain hremark) hspace)

/-- An instruction that has only a comment. -/
lemma fits_of_remark {op : Opcode} (hop : op ≠ .label) {remark : String}
    (hremark : Text.Plain remark) :
    r.Fits n m ⟨op, none, none, none, none, some [.words remark]⟩ :=
  fits_of_parts hop (by simp) (by simp) (by simp) (by simp)
    (fitsIn_words (r.words_of_plain hremark))

/-- A branch to a label. -/
lemma fits_of_target {op : Opcode} (hop : op ≠ .label) {o : Option Operand}
    (ho : ∀ a ∈ o, r.Value n a) {k : Nat} (hle : r.labels ≤ k) (hlt : k < m) {remark : String}
    (hremark : Text.Plain remark) :
    r.Fits n m ⟨op, o, none, none, some (.label k), some [.words remark]⟩ :=
  fits_of_parts hop (fun a ha => .inl (ho a ha)) (by simp) (by simp)
    (forall_mem_some ⟨k, rfl, hle, hlt⟩) (fitsIn_words (r.words_of_plain hremark))

end Renumbering

open Renumbering

variable {r : Renumbering} {n m : Nat}

namespace Expr

lemma fits_stringInstruction {t : Nat} (hle : r.temps ≤ t) (hlt : t < n) (s : String) :
    r.Fits n m (stringInstruction t s) := by
  have hvalue : r.Value n (.symbol (.temp t)) := .temp hle hlt
  refine fits_of_parts (by decide) ?_ (by simp) (forall_mem_some hvalue) (by simp) ?_
  · exact forall_mem_some (.inr ⟨s, rfl⟩)
  · exact (fitsIn_operand hvalue).words_cons (r.words_of_plain (by decide +kernel))
      (by decide +kernel)

lemma fits_binaryInstruction {t : Nat} (hle : r.temps ≤ t) (hlt : t < n) {left right : Operand}
    (hleft : r.Value n left) (hright : r.Value n right) (op : BinaryOp) :
    r.Fits n m (binaryInstruction t op left right) := by
  have hverb : r.words op.verb = op.verb ∧ op.verb.toList.getLast? = some ' ' := by
    cases op with
    | arith op =>
      show r.words "compute " = "compute " ∧ "compute ".toList.getLast? = some ' '
      exact ⟨r.words_of_plain (by decide +kernel), by decide +kernel⟩
    | rel op =>
      show r.words "compare " = "compare " ∧ "compare ".toList.getLast? = some ' '
      exact ⟨r.words_of_plain (by decide +kernel), by decide +kernel⟩
  have hsymbol : r.words (" " ++ op.symbol ++ " ") = " " ++ op.symbol ++ " " := by
    rcases op with (_ | _ | _ | _) | (_ | _ | _ | _ | _ | _) <;>
      exact r.words_of_plain (by decide +kernel)
  refine fits_of_parts ?_ (forall_mem_some (.inl hleft)) (forall_mem_some (.inl hright))
    (forall_mem_some (.temp hle hlt)) (by simp) ?_
  · rcases op with (_ | _ | _ | _) | (_ | _ | _ | _ | _ | _) <;> decide
  · refine (((fitsIn_operand hright).words_cons hsymbol ?_).operand_cons hleft ?_).words_cons
      hverb.1 hverb.2
    · rw [String.toList_append]
      exact List.getLast?_concat
    · rw [text_cons]
      simp [Piece.text]

end Expr

namespace Statement

variable {value : Operand}

lemma fits_assignInstruction {name : String} (hname : ClearName name) (hvalue : r.Value n value) :
    r.Fits n m (assignInstruction name value) := by
  have hto : r.words (" to " ++ name) = " to " ++ name :=
    r.words_append_name (by decide +kernel) (by decide +kernel) hname
  refine fits_of_parts (by decide) (forall_mem_some (.inl hvalue)) (by simp)
    (forall_mem_some (.given hname)) (by simp) ?_
  refine ((fitsIn_words hto).operand_cons hvalue ?_).words_cons
    (r.words_of_plain (by decide +kernel)) (by decide +kernel)
  rw [text_cons]
  simp [Piece.text]

lemma fits_inputInstruction {name : String} (hname : ClearName name) :
    r.Fits n m (inputInstruction name) := by
  have hread : r.words ("read " ++ name) = "read " ++ name :=
    r.words_append_name (by decide +kernel) (by decide +kernel) hname
  exact fits_of_parts (by decide) (by simp) (by simp) (forall_mem_some (.given hname)) (by simp)
    (fitsIn_words hread)

/-- The definition of a label has the label as its first operand. -/
lemma fits_labelInstruction {k : Nat} (hle : r.labels ≤ k) (hlt : k < m) {remark : String}
    (hremark : Text.Plain remark) : r.Fits n m (labelInstruction k remark) := by
  constructor
  · intro s hs
    obtain rfl : s = .label k := by
      simpa [Instruction.symbols, Instruction.operands, labelInstruction, Operand.symbol?,
        Piece.symbol?] using hs
    exact ⟨hle, hlt⟩
  · have hcomment := (fitsIn_words (n := n) (r.words_of_plain hremark)).words
    exact Instruction.Texts.ext rfl (congrArg some (r.labelText_label k).symm) rfl rfl rfl
      (congrArg some hcomment.symm)

end Statement

end LineBasic
