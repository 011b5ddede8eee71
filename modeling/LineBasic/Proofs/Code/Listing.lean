import LineBasic.Proofs.Code.Agreement
import LineBasic.Proofs.Code.ListedText
import LineBasic.Proofs.Reading.Strings
import LineBasic.Proofs.Scan.LetterCase
import Mathlib.Data.List.Nodup

/-!
# Listings

Programs that are read from texts and lowered are compared by their listings.  The names of such a
program are words, so that every instruction is regular, and every line has code, so that its
marker is in the listing.

* `Text.bare_capitals`, `Text.bare_numberText`: names and numbers are words of a listing;
* `Statement.regular_code`: the code of a statement has regular instructions only;
* `LineMap.Indexed.eq_of_lineAt?`: a line map is determined by the lines that start at each index;
* `Line.indexed_mapped`: the lines of a program start one after another, inside the code;
* `Program.eq_of_listing`: the listing determines the instructions and the line map.
-/

namespace LineBasic

open Text (Bare inWord)

/-! ### Words -/

namespace Text

lemma inWord_of_isDigit {c : Char} (h : c.isDigit = true) : inWord c = true := by
  simp [inWord, Char.isAlphanum, h]

lemma inWord_of_isWordRest {c : Char} (h : Scan.isWordRest c = true) : inWord c = true := by
  simp only [Scan.isWordRest, Scan.isWordStart, Bool.or_eq_true] at h
  rcases h with (h | h) | h
  · simp [inWord, Char.isAlphanum, h]
  · simp [inWord, h]
  · exact inWord_of_isDigit h

/-- A word of a program in capitals is a word of a listing. -/
lemma bare_capitals {word : List Char} (h : Scan.IsWord word) : Bare (Scan.capitals word) := by
  have hlist : (Scan.capitals word).toList = word.map Char.toUpper := by simp [Scan.capitals]
  refine ⟨?_, fun c hc => ?_⟩
  · rw [hlist]
    cases word with
    | nil => exact h.elim
    | cons c cs => simp
  · rw [hlist] at hc
    obtain ⟨d, hd, rfl⟩ := List.mem_map.mp hc
    apply inWord_of_isWordRest
    rw [Scan.ignoresCase_isWordRest]
    exact h.isWordRest d hd

lemma inWord_of_mem_toDigits {n : Nat} {c : Char} (h : c ∈ Nat.toDigits 10 n) : inWord c = true :=
  inWord_of_isDigit (Nat.isDigit_of_mem_toDigits (by decide) (by decide) h)

/-- A letter and a number make a word. -/
lemma bare_of_numbered {s : String} {c : Char} {n : Nat} (hs : s.toList = c :: Nat.toDigits 10 n)
    (hc : inWord c = true) : Bare s := by
  refine ⟨?_, fun d hd => ?_⟩
  · rw [hs]
    exact List.cons_ne_nil _ _
  · rw [hs] at hd
    rcases List.mem_cons.mp hd with rfl | hd
    · exact hc
    · exact inWord_of_mem_toDigits hd

lemma bare_temp (i : Nat) : Bare (Symbol.temp i).text :=
  bare_of_numbered (Symbol.toList_text_temp i) (by decide)

lemma bare_label (i : Nat) : Bare (Symbol.label i).text :=
  bare_of_numbered (Symbol.toList_text_label i) (by decide)

lemma inWord_of_isDecimal {cs : List Char} (h : IsDecimal cs) : ∀ c ∈ cs, inWord c = true := by
  intro c hc
  cases h with
  | whole h => exact inWord_of_isDigit (h.2 c hc)
  | fraction h hd =>
    rcases List.mem_append.mp hc with hc | hc
    · exact inWord_of_isDigit (h.2 c hc)
    · rcases List.mem_cons.mp hc with rfl | hc
      · decide
      · exact inWord_of_isDigit (hd.2 c hc)

/-- A number is written as a word. -/
lemma bare_numberText (x : Number) : Bare (Value.numberText x) := by
  rcases isNumeral_numberText x with ⟨cs, hcs, hlist⟩ | ⟨-, hnan⟩
  · have hword : cs ≠ [] ∧ ∀ c ∈ cs, inWord c = true := by
      rcases hcs with rfl | hdecimal
      · exact ⟨by decide, List.all_eq_true.mp (by decide +kernel)⟩
      · obtain ⟨c, ds, hcons, -⟩ := hdecimal.startsWithDigit
        exact ⟨hcons ▸ List.cons_ne_nil _ _, inWord_of_isDecimal hdecimal⟩
    rcases hlist with hlist | hlist
    · exact ⟨hlist ▸ hword.1, hlist ▸ hword.2⟩
    · refine ⟨hlist ▸ List.cons_ne_nil _ _, ?_⟩
      rw [hlist, List.forall_mem_cons]
      exact ⟨by decide, hword.2⟩
  · rw [hnan]
    exact ⟨by decide +kernel, List.all_eq_true.mp (by decide +kernel)⟩

end Text

namespace Scan

/-- A name is a word of a listing. -/
lemma Spelled.bare {text : List Char} {name : String} (h : Spelled text (.token (.ident name))) :
    Bare name := by
  obtain ⟨rfl, hword, -⟩ := h.eq_of_ident
  exact Text.bare_capitals hword

end Scan

/-! ### Regular instructions -/

lemma forall_mem_some {α : Type} {p : α → Prop} {a : α} (h : p a) : ∀ b ∈ some a, p b := by
  intro b hb
  cases hb
  exact h

namespace Text

lemma Bare.oneLine {s : String} (h : Bare s) : OneLine s := by
  intro c hc
  have hword := h.inWord c hc
  rw [bne_iff_ne]
  rintro rfl
  exact absurd hword (by decide)

lemma oneLine_of_all {s : String} (h : (s.toList.all fun c => c != '\n') = true) : OneLine s :=
  List.all_eq_true.mp h

lemma OneLine.append {s t : String} (hs : OneLine s) (ht : OneLine t) : OneLine (s ++ t) := by
  intro c hc
  rw [String.toList_append] at hc
  rcases List.mem_append.mp hc with hc | hc
  · exact hs c hc
  · exact ht c hc

end Text

/-- A comment without line breaks. -/
def Comment.OneLine (c : Comment) : Prop := ∀ x ∈ c, Text.OneLine x.text

namespace Comment

lemma OneLine.text {c : Comment} (h : c.OneLine) : Text.OneLine c.text := by
  intro d hd
  rw [Comment.text, String.toList_join] at hd
  obtain ⟨s, hs, hd⟩ := List.mem_flatMap.mp hd
  obtain ⟨x, hx, rfl⟩ := List.mem_map.mp hs
  exact h x hx d hd

lemma oneLine_nil : OneLine [] := List.forall_mem_nil _

lemma OneLine.words {c : Comment} (h : c.OneLine) {s : String} (hs : Text.OneLine s) :
    OneLine (.words s :: c) :=
  List.forall_mem_cons.mpr ⟨hs, h⟩

lemma OneLine.operand {c : Comment} (h : c.OneLine) {o : Operand} (ho : Bare o.text) :
    OneLine (.operand o :: c) :=
  List.forall_mem_cons.mpr ⟨ho.oneLine, h⟩

end Comment

namespace Instruction

/-- An instruction that defines no label is regular if its parts are. -/
lemma regular_of_parts {op : Opcode} {o o' : Option Operand} {r l : Option Symbol} {c : Comment}
    (hop : op ≠ .label) (hsecond : o = none → o' = none) (ho : ∀ a ∈ o, Text.IsOperand a.text)
    (ho' : ∀ a ∈ o', Text.IsOperand a.text) (hr : ∀ a ∈ r, Bare a.text)
    (hl : ∀ a ∈ l, Bare a.text) (hc : c.OneLine) :
    (Instruction.mk op o o' r l (some c)).texts.Regular where
  second := by simpa [texts] using hsecond
  operand1 := by simpa [texts] using ho
  operand2 := by simpa [texts] using ho'
  result := by simpa [texts] using hr
  target := by simpa [texts] using hl
  comment := ⟨c.text, rfl, hc.text⟩
  label := fun h => absurd h hop

end Instruction

namespace Expr

/-- The value of an expression is in a name, a number or a temporary, which are words. -/
lemma bare_operand {e : Expr} (he : ∀ x ∈ e.reads, Bare x.1) (t : Nat) :
    Bare (e.operand t).text := by
  cases e with
  | ident name span => exact he (name, span) List.mem_cons_self
  | number x span => exact Text.bare_numberText x
  | string s span => exact Text.bare_temp t
  | binary op l r span => exact Text.bare_temp _

lemma regular_stringInstruction (t : Nat) (s : String) : (stringInstruction t s).texts.Regular := by
  refine Instruction.regular_of_parts (by simp) (by simp) ?_ (by simp) ?_ (by simp) ?_
  · exact forall_mem_some (.inr ⟨s, rfl⟩)
  · exact forall_mem_some (Text.bare_temp t)
  · exact (Comment.oneLine_nil.operand (o := .symbol (.temp t)) (Text.bare_temp t)).words
      (Text.oneLine_of_all (by decide +kernel))

lemma regular_binaryInstruction {left right : Operand} (hleft : Bare left.text)
    (hright : Bare right.text) (t : Nat) (op : BinaryOp) :
    (binaryInstruction t op left right).texts.Regular := by
  have hsymbol : Text.OneLine (" " ++ op.symbol ++ " ") ∧ Text.OneLine op.verb := by
    rcases op with (_ | _ | _ | _) | (_ | _ | _ | _ | _ | _) <;>
      exact ⟨Text.oneLine_of_all (by decide +kernel), Text.oneLine_of_all (by decide +kernel)⟩
  refine Instruction.regular_of_parts ?_ (by simp) ?_ ?_ ?_ (by simp) ?_
  · rcases op with (_ | _ | _ | _) | (_ | _ | _ | _ | _ | _) <;> decide
  · exact forall_mem_some (.inl hleft)
  · exact forall_mem_some (.inl hright)
  · exact forall_mem_some (Text.bare_temp t)
  · exact ((Comment.oneLine_nil.operand hright).words hsymbol.1).operand hleft |>.words hsymbol.2

/-- The code of an expression with proper names is regular. -/
lemma regular_code {e : Expr} (he : ∀ x ∈ e.reads, Bare x.1) (t : Nat) :
    ∀ i ∈ e.code t, i.texts.Regular := by
  induction e generalizing t with
  | ident name span => simp [code]
  | number x span => simp [code]
  | string s span =>
    intro i hi
    rw [List.mem_singleton.mp hi]
    exact regular_stringInstruction t s
  | binary op l r span ihl ihr =>
    have hl : ∀ x ∈ l.reads, Bare x.1 := fun x hx => he x (List.mem_append_left _ hx)
    have hr : ∀ x ∈ r.reads, Bare x.1 := fun x hx => he x (List.mem_append_right _ hx)
    rw [code, List.forall_mem_append, List.forall_mem_append, List.forall_mem_singleton]
    exact ⟨⟨ihl hl _, ihr hr _⟩,
      regular_binaryInstruction (bare_operand hl _) (bare_operand hr _) _ op⟩

end Expr

namespace Statement

variable {value : Operand}

lemma regular_assignInstruction {name : String} (hname : Bare name) (hvalue : Bare value.text) :
    (assignInstruction name value).texts.Regular := by
  refine Instruction.regular_of_parts (by decide) (by simp) ?_ (by simp) ?_ (by simp) ?_
  · exact forall_mem_some (.inl hvalue)
  · exact forall_mem_some (p := fun r : Symbol => Bare r.text) hname
  · have hto : Text.OneLine (" to " ++ name) :=
      (Text.oneLine_of_all (by decide +kernel)).append hname.oneLine
    exact ((Comment.oneLine_nil.words hto).operand hvalue).words
      (Text.oneLine_of_all (by decide +kernel))

/-- An instruction without operands, result and target. -/
lemma regular_of_remark {op : Opcode} (hop : op ≠ .label) {remark : String}
    (h : (remark.toList.all fun c => c != '\n') = true) :
    (Instruction.mk op none none none none (some [.words remark])).texts.Regular :=
  Instruction.regular_of_parts hop (by simp) (by simp) (by simp) (by simp) (by simp)
    (Comment.oneLine_nil.words (Text.oneLine_of_all h))

/-- An instruction with one operand, which its remark names. -/
lemma regular_of_value {op : Opcode} (hop : op ≠ .label) (hvalue : Bare value.text)
    {remark : String} (h : (remark.toList.all fun c => c != '\n') = true) :
    (Instruction.mk op (some value) none none none
      (some [.words remark, .operand value])).texts.Regular := by
  refine Instruction.regular_of_parts hop (by simp) ?_ (by simp) (by simp) (by simp) ?_
  · exact forall_mem_some (.inl hvalue)
  · exact (Comment.oneLine_nil.operand hvalue).words (Text.oneLine_of_all h)

/-- A branch to a label. -/
lemma regular_of_target {op : Opcode} (hop : op ≠ .label) {o : Option Operand}
    (ho : ∀ a ∈ o, Bare a.text) (label : Nat) {remark : String}
    (h : (remark.toList.all fun c => c != '\n') = true) :
    (Instruction.mk op o none none (some (.label label)) (some [.words remark])).texts.Regular := by
  refine Instruction.regular_of_parts hop (by simp) (fun a ha => .inl (ho a ha)) (by simp) (by simp)
    ?_ (Comment.oneLine_nil.words (Text.oneLine_of_all h))
  exact forall_mem_some (Text.bare_label label)

lemma regular_inputInstruction {name : String} (hname : Bare name) :
    (inputInstruction name).texts.Regular := by
  refine Instruction.regular_of_parts (by decide) (by simp) (by simp) (by simp) ?_ (by simp) ?_
  · exact forall_mem_some (p := fun r : Symbol => Bare r.text) hname
  · exact Comment.oneLine_nil.words
      ((Text.oneLine_of_all (by decide +kernel)).append hname.oneLine)

lemma regular_labelInstruction (label : Nat) {remark : String}
    (h : (remark.toList.all fun c => c != '\n') = true) :
    (labelInstruction label remark).texts.Regular where
  second := fun h => by cases h
  operand1 := forall_mem_some (.inl (Text.bare_label label))
  operand2 := by simp [labelInstruction, Instruction.texts]
  result := by simp [labelInstruction, Instruction.texts]
  target := by simp [labelInstruction, Instruction.texts]
  comment := ⟨_, rfl, (Comment.oneLine_nil.words (Text.oneLine_of_all h)).text⟩
  label := fun _ => ⟨_, rfl, Text.bare_label label, rfl, rfl, rfl⟩

/-- The code of a statement with proper names is regular. -/
lemma regular_code {s : Statement} (hs : ∀ x ∈ s.uses, Bare x.name) (t l : Nat) :
    ∀ i ∈ s.code t l, i.texts.Regular := by
  have hreads {e : Expr} (he : ∀ x ∈ e.uses, Bare x.name) : ∀ x ∈ e.reads, Bare x.1 :=
    fun x hx => he (.read x.1 x.2) (Expr.mem_uses.mpr hx)
  induction s generalizing t l with
  | assign name e span =>
    rw [uses, List.forall_mem_append, List.forall_mem_singleton] at hs
    rw [code, List.forall_mem_append, List.forall_mem_singleton]
    exact ⟨Expr.regular_code (hreads hs.1) t,
      regular_assignInstruction hs.2 (Expr.bare_operand (hreads hs.1) t)⟩
  | print item span =>
    cases item with
    | none =>
      rw [code, List.forall_mem_singleton]
      exact regular_of_remark (by decide) (by decide +kernel)
    | some e =>
      have he : ∀ x ∈ e.uses, Bare x.name := by simpa [uses] using hs
      rw [code, List.forall_mem_append, List.forall_mem_singleton]
      exact ⟨Expr.regular_code (hreads he) t,
        regular_of_value (by decide) (Expr.bare_operand (hreads he) t) (by decide +kernel)⟩
  | ifThen c s span ih =>
    rw [uses, List.forall_mem_append] at hs
    have hvalue := Expr.bare_operand (hreads hs.1) t
    rw [code_ifThen]
    simp only [List.forall_mem_append, List.forall_mem_singleton]
    refine ⟨⟨⟨Expr.regular_code (hreads hs.1) t, ?_⟩, ih hs.2 _ _⟩, ?_⟩
    · exact regular_of_target (by decide) (forall_mem_some hvalue) _ (by decide +kernel)
    · exact regular_labelInstruction _ (by decide +kernel)
  | ifThenElse c s e span ihs ihe =>
    rw [uses, List.forall_mem_append, List.forall_mem_append] at hs
    have hvalue := Expr.bare_operand (hreads hs.1.1) t
    rw [code_ifThenElse]
    simp only [List.forall_mem_append, List.forall_mem_singleton]
    refine ⟨⟨Expr.regular_code (hreads hs.1.1) t, ?_⟩, ⟨ihs hs.1.2 _ _, ?_⟩, ⟨?_, ihe hs.2 _ _⟩, ?_⟩
    · exact regular_of_target (by decide) (forall_mem_some hvalue) _ (by decide +kernel)
    · exact regular_of_target (by decide) (by simp) _ (by decide +kernel)
    · exact regular_labelInstruction _ (by decide +kernel)
    · exact regular_labelInstruction _ (by decide +kernel)
  | goto e span =>
    rw [code, List.forall_mem_append, List.forall_mem_singleton]
    exact ⟨Expr.regular_code (hreads hs) t,
      regular_of_value (by decide) (Expr.bare_operand (hreads hs) t) (by decide +kernel)⟩
  | gosub e span =>
    rw [code, List.forall_mem_append, List.forall_mem_singleton]
    exact ⟨Expr.regular_code (hreads hs) t,
      regular_of_value (by decide) (Expr.bare_operand (hreads hs) t) (by decide +kernel)⟩
  | ret span =>
    rw [code, List.forall_mem_singleton]
    exact regular_of_remark (by decide) (by decide +kernel)
  | input names span =>
    intro i hi
    obtain ⟨name, hname, rfl⟩ := List.mem_map.mp hi
    exact regular_inputInstruction (hs (.write name) (List.mem_map_of_mem hname))
  | halt span =>
    rw [code, List.forall_mem_singleton]
    exact regular_of_remark (by decide) (by decide +kernel)

/-- Every statement has code. -/
lemma code_ne_nil {s : Statement} (hs : s.InputsNamed) (t l : Nat) : s.code t l ≠ [] := by
  cases s with
  | print item span => cases item <;> simp [code]
  | input names span =>
    have hnames : names ≠ [] := hs
    simp [code, hnames]
  | _ => simp [code]

end Statement

/-! ### Line maps -/

namespace LineMap

/-- The indices of a line map go up with its lines, and all are below a bound. -/
structure Indexed (m : LineMap) (n : Nat) : Prop where
  increasing : m.entries.Pairwise fun a b => a.2 < b.2
  below : ∀ e ∈ m.entries, e.2 < n

variable {m m' : LineMap} {n : Nat}

lemma Indexed.eq_of_index (h : m.Indexed n) {a b : Nat × Nat} (ha : a ∈ m.entries)
    (hb : b ∈ m.entries) (hab : a.2 = b.2) : a = b := by
  have hnodup : (m.entries.map Prod.snd).Nodup := by
    rw [List.Nodup, List.pairwise_map]
    exact h.increasing.imp Nat.ne_of_lt
  exact List.inj_on_of_nodup_map hnodup ha hb hab

/-- At most one line starts at an index. -/
lemma Indexed.lineAt?_eq_some_iff (h : m.Indexed n) {line k : Nat} :
    m.lineAt? k = some line ↔ (line, k) ∈ m.entries := by
  have hmem {e : Nat × Nat} (he : (m.entries.filter fun e => e.2 == k).getLast? = some e) :
      e ∈ m.entries ∧ e.2 = k := by
    have hfilter := List.mem_filter.mp (List.mem_of_getLast? he)
    exact ⟨hfilter.1, beq_iff_eq.mp hfilter.2⟩
  constructor
  · intro hline
    obtain ⟨⟨a, b⟩, he, rfl⟩ := Option.map_eq_some_iff.mp hline
    obtain ⟨hentry, rfl⟩ := hmem he
    exact hentry
  · intro hentry
    have hfilter : (line, k) ∈ m.entries.filter fun e => e.2 == k :=
      List.mem_filter.mpr ⟨hentry, beq_self_eq_true k⟩
    obtain ⟨e, he⟩ := Option.ne_none_iff_exists'.mp
      (mt List.getLast?_eq_none_iff.mp (List.ne_nil_of_mem hfilter))
    obtain ⟨hother, hindex⟩ := hmem he
    rw [lineAt?, he, h.eq_of_index hother hentry hindex]
    rfl

/-- A line map is determined by the lines that start at the indices below its bound. -/
lemma Indexed.eq_of_lineAt? (h : m.Indexed n) (h' : m'.Indexed n)
    (hsame : ∀ k < n, m.lineAt? k = m'.lineAt? k) : m = m' := by
  have hmem (e : Nat × Nat) : e ∈ m.entries ↔ e ∈ m'.entries := by
    constructor
    · intro he
      have hline := h.lineAt?_eq_some_iff.mpr he
      rw [hsame e.2 (h.below e he)] at hline
      exact h'.lineAt?_eq_some_iff.mp hline
    · intro he
      have hline := h'.lineAt?_eq_some_iff.mpr he
      rw [← hsame e.2 (h'.below e he)] at hline
      exact h.lineAt?_eq_some_iff.mp hline
  -- The entries are the same; the order of the lines fixes their order.
  have hnodup (m : LineMap) : m.entries.Nodup :=
    m.ascending.imp fun hlt heq => Nat.ne_of_lt hlt (congrArg Prod.fst heq)
  have hperm := (List.perm_ext_iff_of_nodup (hnodup m) (hnodup m')).mpr hmem
  have hentries : m.entries = m'.entries := by
    refine hperm.eq_of_pairwise (fun a b _ _ hab hba => ?_) m.ascending m'.ascending
    exact absurd (Nat.lt_trans hab hba) (Nat.lt_irrefl _)
  obtain ⟨entries, ascending⟩ := m
  obtain rfl : entries = m'.entries := hentries
  rfl

lemma insertEntry_of_lt {line index : Nat} {es : List (Nat × Nat)} (h : ∀ e ∈ es, e.1 < line) :
    insertEntry line index es = es ++ [(line, index)] := by
  induction es with
  | nil => rfl
  | cons e es ih =>
    obtain ⟨he, hes⟩ := List.forall_mem_cons.mp h
    rw [insertEntry, if_neg (Nat.not_lt.mpr (Nat.le_of_lt he)), if_neg (Nat.ne_of_gt he), ih hes]
    rfl

end LineMap

namespace Line

/-- Lines with the index at which their code starts. -/
def starts (start t l : Nat) : List Line → List (Nat × Nat)
  | [] => []
  | x :: xs =>
    (x.number, start) :: starts (start + (x.statement.code t l).length) (t + x.statement.temps)
      (l + x.statement.labels) xs

/-- Lines that come in ascending order are entered at the end of a line map. -/
lemma entries_mapped {start t l : Nat} {map : LineMap} {ls : List Line}
    (hls : ls.Pairwise fun a b => a.number < b.number)
    (hmap : ∀ e ∈ map.entries, ∀ x ∈ ls, e.1 < x.number) :
    (mapped start t l map ls).entries = map.entries ++ starts start t l ls := by
  induction ls generalizing start t l map with
  | nil => rw [mapped, starts, List.append_nil]
  | cons x xs ih =>
    obtain ⟨hx, hxs⟩ := List.pairwise_cons.mp hls
    have hinsert : (map.insert x.number start).entries = map.entries ++ [(x.number, start)] :=
      LineMap.insertEntry_of_lt fun e he => hmap e he x List.mem_cons_self
    rw [mapped, starts, ih hxs, hinsert, List.append_assoc]
    · rfl
    · intro e he y hy
      rw [hinsert] at he
      rcases List.mem_append.mp he with hold | hnew
      · exact hmap e hold y (List.mem_cons_of_mem _ hy)
      · rw [List.mem_singleton.mp hnew]
        exact hx y hy

/-- Lines start one after another, inside their code. -/
lemma starts_bounds {ls : List Line} (hls : ∀ x ∈ ls, x.statement.InputsNamed) (start t l : Nat) :
    (starts start t l ls).Pairwise (fun a b => a.2 < b.2) ∧
      ∀ e ∈ starts start t l ls, start ≤ e.2 ∧ e.2 < start + (code t l ls).length := by
  induction ls generalizing start t l with
  | nil => simp [starts]
  | cons x xs ih =>
    obtain ⟨hx, hxs⟩ := List.forall_mem_cons.mp hls
    have hpos := List.length_pos_of_ne_nil (Statement.code_ne_nil hx t l)
    obtain ⟨hincreasing, hbounds⟩ := ih hxs (start + (x.statement.code t l).length)
      (t + x.statement.temps) (l + x.statement.labels)
    rw [starts, code, List.length_append]
    refine ⟨List.pairwise_cons.mpr ⟨fun e he => ?_, hincreasing⟩, ?_⟩
    · have hafter := (hbounds e he).1
      exact Nat.lt_of_lt_of_le (Nat.lt_add_of_pos_right hpos) hafter
    · rw [List.forall_mem_cons]
      refine ⟨⟨Nat.le_refl _, by omega⟩, fun e he => ?_⟩
      have hafter := hbounds e he
      omega

/-- The line map of a program has one index for each line, inside the code. -/
lemma indexed_mapped {ls : List Line} (hls : ls.Pairwise fun a b => a.number < b.number)
    (hnamed : ∀ x ∈ ls, x.statement.InputsNamed) :
    (mapped 0 0 0 .empty ls).Indexed (code 0 0 ls).length := by
  have hentries : (mapped 0 0 0 .empty ls).entries = starts 0 0 0 ls :=
    (entries_mapped hls fun e he => by cases he).trans (List.nil_append _)
  obtain ⟨hincreasing, hbounds⟩ := starts_bounds hnamed 0 0 0
  refine ⟨?_, fun e he => ?_⟩
  · rw [hentries]
    exact hincreasing
  · rw [hentries] at he
    have hbound := (hbounds e he).2
    omega

lemma regular_code {ls : List Line} (hls : ∀ x ∈ ls, ∀ y ∈ x.statement.uses, Bare y.name)
    (t l : Nat) : ∀ i ∈ code t l ls, i.texts.Regular := by
  induction ls generalizing t l with
  | nil => simp [code]
  | cons x xs ih =>
    obtain ⟨hx, hxs⟩ := List.forall_mem_cons.mp hls
    rw [code, List.forall_mem_append]
    exact ⟨Statement.regular_code hx t l, ih hxs _ _⟩

end Line

/-! ### Programs -/

namespace Program

variable {p : Program} {symbols : Symbols} {u : CodeUnit}

/-- The names of a program that is read from a text are words of a listing. -/
lemma bare_of_ofText {source : String} (h : ofText source = .ok p) :
    ∀ x ∈ p.lines, ∀ y ∈ x.statement.uses, Bare y.name := by
  intro x hx y hy
  obtain ⟨text, hspelled⟩ := spelled_of_ofText h x hx _ (Statement.ident_mem_leaves hy)
  exact hspelled.bare

/-- Lowering that succeeds gives the code and the line map of the program's layout. -/
lemma layout_of_lower (hp : ∀ l ∈ p.lines, l.Written) (h : p.lower symbols = .ok u) :
    u.code.toList = Line.code 0 0 p.lines ∧ u.lineMap = Line.mapped 0 0 0 .empty p.lines := by
  rw [lower_eq hp] at h
  split at h
  next =>
    cases h
    exact ⟨rfl, rfl⟩
  next => cases h

/-- **The listing determines the code.**  Two programs that were read from texts and lowered, over
any tables of variables, have equal listings only if their instructions are equal, in all their
parts, and their line maps are. -/
theorem eq_of_listing {source source' : String} {p p' : Program} {symbols symbols' : Symbols}
    {u u' : CodeUnit} (hp : ofText source = .ok p) (hp' : ofText source' = .ok p')
    (hu : p.lower symbols = .ok u) (hu' : p'.lower symbols' = .ok u')
    (h : u.listing = u'.listing) :
    u.code.toList.map Instruction.texts = u'.code.toList.map Instruction.texts ∧
      u.lineMap = u'.lineMap := by
  have hwritten := written_of_ofText hp
  have hwritten' := written_of_ofText hp'
  obtain ⟨hcode, hmap⟩ := layout_of_lower hwritten hu
  obtain ⟨hcode', hmap'⟩ := layout_of_lower hwritten' hu'
  have hregular : ∀ i ∈ u.code.toList, i.texts.Regular := by
    rw [hcode]
    exact Line.regular_code (bare_of_ofText hp) 0 0
  have hregular' : ∀ i ∈ u'.code.toList, i.texts.Regular := by
    rw [hcode']
    exact Line.regular_code (bare_of_ofText hp') 0 0
  have hlisted := congrArg String.toList h
  rw [CodeUnit.toList_listing hregular, CodeUnit.toList_listing hregular'] at hlisted
  obtain ⟨htexts, hstarts⟩ := listed_inj (List.forall_mem_map.mpr hregular)
    (List.forall_mem_map.mpr hregular') hlisted
  refine ⟨htexts, ?_⟩
  have hlength : (Line.code 0 0 p.lines).length = (Line.code 0 0 p'.lines).length := by
    have hlengths := congrArg List.length htexts
    rwa [List.length_map, List.length_map, hcode, hcode'] at hlengths
  have hindexed := Line.indexed_mapped p.ascending
    fun x hx => (hwritten x hx).statement.wellFormed.inputsNamed
  have hindexed' := Line.indexed_mapped p'.ascending
    fun x hx => (hwritten' x hx).statement.wellFormed.inputsNamed
  rw [← hmap] at hindexed
  rw [← hmap', ← hlength] at hindexed'
  -- Every line has code, so that its index is one of the indices that the listing shows.
  refine hindexed.eq_of_lineAt? hindexed' fun k hk => hstarts k (Nat.zero_le k) ?_
  rwa [List.length_map, hcode, Nat.zero_add]

/-- Two programs that differ in the sign of a zero have one listing.  The text in the first line
looks like the end of an instruction. -/
theorem signedZero_eq_of_listing :
    ∃ p p' u u', ofText "10 A = \"\\ -> t0  ; @L0, \"\n20 PRINT 0\n" = .ok p ∧
      ofText "10 A = \"\\ -> t0  ; @L0, \"\n20 PRINT -0\n" = .ok p' ∧ p.lines ≠ p'.lines ∧
      p.lower p.check.symbols = .ok u ∧ p'.lower p'.check.symbols = .ok u' ∧
      u.listing = u'.listing ∧
      u.code.toList.map Instruction.texts = u'.code.toList.map Instruction.texts ∧
      u.lineMap = u'.lineMap := by
  let assign : Line := ⟨10, .assign "A" (.string "\\ -> t0  ; @L0, " ⟨7, 25⟩) ⟨3, 25⟩, ⟨0, 25⟩⟩
  let p : Program :=
    ⟨[assign, ⟨20, .print (some (.number 0 ⟨35, 36⟩)) ⟨29, 36⟩, ⟨26, 36⟩⟩], by decide⟩
  let p' : Program :=
    ⟨[assign, ⟨20, .print (some (.number (-0) ⟨35, 37⟩)) ⟨29, 37⟩, ⟨26, 37⟩⟩], by decide⟩
  let text : String := String.join ["; line 10\n",
    "0000  ASSIGN \"\\\\ -> t0  ; @L0, \" -> t0  ; string literal into t0\n",
    "0001  ASSIGN t0 -> A  ; assign t0 to A\n", "; line 20\n", "0002  PRINT 0  ; print 0\n"]
  have hp : ofText "10 A = \"\\ -> t0  ; @L0, \"\n20 PRINT 0\n" = .ok p :=
    eq_ok_of_lines (by decide +kernel)
  have hp' : ofText "10 A = \"\\ -> t0  ; @L0, \"\n20 PRINT -0\n" = .ok p' :=
    eq_ok_of_lines (by decide +kernel)
  obtain ⟨u, hu, htext⟩ : ∃ u, p.lower p.check.symbols = .ok u ∧ u.listing = text :=
    exists_ok_of_map (by decide +kernel)
  obtain ⟨u', hu', htext'⟩ : ∃ u', p'.lower p'.check.symbols = .ok u' ∧ u'.listing = text :=
    exists_ok_of_map (by decide +kernel)
  have h : u.listing = u'.listing := htext.trans htext'.symm
  exact ⟨p, p', u, u', hp, hp', by decide +kernel, hu, hu', h, eq_of_listing hp hp' hu hu' h⟩

end Program

end LineBasic
