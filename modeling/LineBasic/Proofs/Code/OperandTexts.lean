import LineBasic.Proofs.Code.Listing
import LineBasic.Proofs.Code.OperandKinds
import LineBasic.Proofs.Reading.Literals

/-!
# The texts of operands

Names, temporaries, numbers and texts in quotes share the operands of flat code, where they are told
apart by how they are written.

* `OperandClass.Holds`: what a text of each class looks like;
* `OperandClass.ofText`: the class of a text, by its first character;
* `Program.operands_classified`: each operand in the code of a program is in the one class that its
  text tells, and texts in quotes are read back.
-/

namespace LineBasic

/-- The classes of operands. -/
inductive OperandClass where
  | name
  | temporary
  | number
  | quoted
deriving DecidableEq

namespace OperandClass

/-- What a text of each class looks like. A name is what some word of a program is a token for. -/
def Holds : OperandClass → String → Prop
  | .name, text => ∃ word, Scan.Spelled word (.token (.ident text))
  | .temporary, text => ∃ i, text = (Symbol.temp i).text
  | .number, text => IsNumeral text
  | .quoted, text => ∃ s, text = Text.quoted s

/-- The class of a text that starts with a character. Words with a small letter in front are
temporaries and the name of an infinity. -/
def ofChar (c : Char) : OperandClass :=
  if c = '"' then .quoted
  else if c = 't' then .temporary
  else if Scan.isWordStart c && !c.isLower then .name
  else .number

/-- The class of a text. -/
def ofText (text : String) : OperandClass := (text.toList.head?.map ofChar).getD .number

end OperandClass

/-- The class that an operand is written in. Labels are in none. -/
def Operand.class? : Operand → Option OperandClass
  | .symbol (.given _) => some .name
  | .symbol (.temp _) => some .temporary
  | .symbol (.label _) => none
  | .number _ => some .number
  | .quoted _ => some .quoted

/-! ### The class of a text -/

/-- The name of a token is a name of a program. -/
lemma Scan.Spelled.isName {word : List Char} {name : String}
    (h : Spelled word (.token (.ident name))) : IsName name := by
  obtain ⟨rfl, hword, -⟩ := h.eq_of_ident
  cases word with
  | nil => exact hword.elim
  | cons c cs => exact isName_capitals hword.1

namespace OperandClass

lemma ofText_cons {text : String} {c : Char} {cs : List Char} (h : text.toList = c :: cs) :
    ofText text = ofChar c := by
  rw [ofText, h]
  rfl

lemma ofChar_of_isDigit {c : Char} (h : c.isDigit = true) : ofChar c = .number := by
  have hstart : Scan.isWordStart c = false := by
    rw [Bool.eq_false_iff]
    intro hstart
    rw [Scan.isDigit_of_isWordStart hstart] at h
    cases h
  have hquote : c ≠ '"' := by
    rintro rfl
    cases h
  have htemp : c ≠ 't' := by
    rintro rfl
    cases h
  rw [ofChar, if_neg hquote, if_neg htemp, hstart]
  rfl

/-- A text that looks like those of a class is in it. -/
lemma ofText_of_holds {k : OperandClass} {text : String} (h : k.Holds text) : ofText text = k := by
  cases k with
  | name =>
    obtain ⟨word, hword⟩ := h
    have hname := hword.isName
    obtain ⟨c, cs, hlist, hstart⟩ := hname.start
    have hcapital : c.isLower = false := hname.capital c (hlist ▸ List.mem_cons_self)
    have hquote : c ≠ '"' := by
      rintro rfl
      exact absurd hstart (by decide)
    have htemp : c ≠ 't' := by
      rintro rfl
      exact absurd hcapital (by decide)
    rw [ofText_cons hlist, ofChar, if_neg hquote, if_neg htemp, hstart, hcapital]
    rfl
  | temporary =>
    obtain ⟨i, rfl⟩ := h
    exact ofText_cons (Symbol.toList_text_temp i)
  | number =>
    obtain ⟨cs, hcs, hlist | hlist⟩ := h
    · rcases hcs with rfl | hdecimal
      · exact ofText_cons hlist
      · obtain ⟨c, ds, rfl, hc⟩ := hdecimal.startsWithDigit
        exact (ofText_cons hlist).trans (ofChar_of_isDigit hc)
    · exact ofText_cons hlist
  | quoted =>
    obtain ⟨s, rfl⟩ := h
    have hlist : (Text.quoted s).toList = '"' :: (s.toList.flatMap Text.escape ++ ['"']) := by
      simp [Text.quoted]
    exact ofText_cons hlist

/-- A text is in one class only. -/
lemma holds_iff {k k' : OperandClass} {text : String} (h : k.Holds text) :
    k'.Holds text ↔ k' = k := by
  refine ⟨fun h' => (ofText_of_holds h').symm.trans (ofText_of_holds h), ?_⟩
  rintro rfl
  exact h

end OperandClass

/-! ### Operands of a program -/

/-- An operand that comes from a program: one of its names, one of its numbers, which is not a NaN,
one of its texts, or a temporary. -/
def Operand.ComesFrom (p : Program) : Operand → Prop :=
  Operand.Among (fun x => ∃ l ∈ p.lines, .ident x ∈ l.statement.leaves)
    (fun x => (∃ l ∈ p.lines, x ∈ l.statement.literals) ∧ ¬ x.IsNaN)
    (fun s => ∃ l ∈ p.lines, .string s ∈ l.statement.leaves)

namespace Program

variable {source : String} {p : Program} {symbols : Symbols} {u : CodeUnit}

/-- The operands in the code of a program that is read come from it. -/
lemma comesFrom_code (hp : ofText source = .ok p) (t l : Nat) :
    ∀ i ∈ Line.code t l p.lines, i.opcode ≠ .label → ∀ o ∈ i.operands, o.ComesFrom p := by
  refine Line.among_code (fun x hx => ⟨fun y hy => ?_, fun y hy => ?_, fun k hk s hs => ?_⟩) t l
  · exact ⟨x, hx, Statement.ident_mem_leaves hy⟩
  · exact ⟨⟨x, hx, hy⟩, not_isNaN_of_ofText hp x hx y hy⟩
  · exact ⟨x, hx, hs ▸ hk⟩

/-- An operand that comes from a program is written in its class. -/
lemma exists_class_of_comesFrom (hp : ofText source = .ok p) {o : Operand} (h : o.ComesFrom p) :
    ∃ k : OperandClass, o.class? = some k ∧ k.Holds o.text := by
  cases h with
  | @given x h =>
    obtain ⟨l, hl, hx⟩ := h
    exact ⟨.name, rfl, spelled_of_ofText hp l hl _ hx⟩
  | temp k => exact ⟨.temporary, rfl, k, rfl⟩
  | @number x h =>
    have hnumeral := (isNumeral_numberText x).resolve_right fun hnan => h.2 hnan.1
    exact ⟨.number, rfl, hnumeral⟩
  | @quoted s _ => exact ⟨.quoted, rfl, s, rfl⟩

/-- **Operands are told apart by their texts.**  In the code of a program that was read from a text
and lowered, over any table of variables, every operand but a label where it is defined is a name of
the program, a temporary, a number of the program, which is not a NaN, or a text of the program in
quotes.  Its text is in the class of what it is and in no other one, and it tells the class,
whatever the program.  A text in quotes is read back as the text of the program that it is, and the
code has every text of the program. -/
theorem operands_classified (hp : ofText source = .ok p) (hu : p.lower symbols = .ok u) :
    (∀ i ∈ u.code, i.opcode ≠ .label → ∀ o ∈ i.operands,
      o.ComesFrom p ∧
      (∃ k, o.class? = some k ∧ OperandClass.ofText o.text = k ∧
        ∀ k' : OperandClass, k'.Holds o.text ↔ k' = k) ∧
      ∀ s, o = .quoted s → Text.unquoted? o.text = some s) ∧
    ∀ l ∈ p.lines, ∀ s, .string s ∈ l.statement.leaves →
      ∃ i ∈ u.code, i.opcode = .assign ∧ i.operand1 = some (.quoted s) := by
  obtain ⟨hcode, -⟩ := layout_of_lower (written_of_ofText hp) hu
  simp only [← Array.mem_toList_iff, hcode]
  refine ⟨fun i hi hlabel o ho => ?_, fun l hl s hs => Line.putsText_code hl hs 0 0⟩
  have hfrom := comesFrom_code hp 0 0 i hi hlabel o ho
  obtain ⟨k, hclass, hholds⟩ := exists_class_of_comesFrom hp hfrom
  refine ⟨hfrom, ⟨k, hclass, OperandClass.ofText_of_holds hholds,
    fun k' => OperandClass.holds_iff hholds⟩, ?_⟩
  rintro s rfl
  exact Text.unquoted?_quoted s

/-- A text with variables called like an infinity, a NaN and a temporary, and with a backslash in
quotes. -/
def lookalikeNames : String :=
  "10 INF=\"a\\b\"\n20 T0=INF\n30 PRINT T0\n40 NAN=-2.5\n50 PRINT NAN\n"

/-- In the code of `lookalikeNames` the temporary `t0` and the number are told from the variables,
and the text in quotes is read back with its backslash. -/
theorem lookalikeNames_operands_classified :
    ∃ p u, ofText lookalikeNames = .ok p ∧ p.lower p.check.symbols = .ok u ∧
      u.code.toList.map (fun i => i.operands.map Operand.text) =
        [["\"a\\\\b\""], ["t0"], ["INF"], ["T0"], ["-2.5"], ["NAN"]] ∧
      (∀ k : OperandClass, k.Holds "t0" ↔ k = .temporary) ∧
      (∀ name ∈ ["INF", "T0", "NAN"], ∀ k : OperandClass, k.Holds name ↔ k = .name) ∧
      (∀ k : OperandClass, k.Holds "-2.5" ↔ k = .number) ∧
      Text.unquoted? "\"a\\\\b\"" = some "a\\b" := by
  let operands : List (Opcode × List Operand) :=
    [(.assign, [.quoted "a\\b"]), (.assign, [.symbol (.temp 0)]),
     (.assign, [.symbol (.given "INF")]), (.print, [.symbol (.given "T0")]),
     (.assign, [.number (-2.5)]), (.print, [.symbol (.given "NAN")])]
  obtain ⟨p, hp, hlower⟩ : ∃ p, ofText lookalikeNames = .ok p ∧
      (p.lower p.check.symbols).toOption.map
        (fun u => u.code.toList.map fun i => (i.opcode, i.operands)) = some operands :=
    exists_ok_of_map (by decide +kernel)
  obtain ⟨u, hu, hcode⟩ := exists_ok_of_map hlower
  obtain ⟨hclassified, -⟩ := operands_classified hp hu
  have hat (n : Nat) {op : Opcode} {o : Operand} (h : operands[n]? = some (op, [o]))
      (hlabel : op ≠ .label) :
      (∃ k, o.class? = some k ∧ OperandClass.ofText o.text = k ∧
        ∀ k' : OperandClass, k'.Holds o.text ↔ k' = k) ∧
      ∀ s, o = .quoted s → Text.unquoted? o.text = some s := by
    have hmem := List.mem_of_getElem? h
    rw [← hcode] at hmem
    obtain ⟨i, hi, hpair⟩ := List.mem_map.mp hmem
    obtain ⟨rfl, hoperands⟩ := Prod.mk.inj hpair
    exact (hclassified i (Array.mem_toList_iff.mp hi) hlabel o (by simp [hoperands])).2
  have hclass (n : Nat) {op : Opcode} {o : Operand} {k : OperandClass}
      (h : operands[n]? = some (op, [o])) (hlabel : op ≠ .label) (hk : o.class? = some k)
      (k' : OperandClass) : k'.Holds o.text ↔ k' = k := by
    obtain ⟨⟨k₁, hk₁, -, hholds⟩, -⟩ := hat n h hlabel
    cases hk.symm.trans hk₁
    exact hholds k'
  have htexts := congrArg (List.map fun x => x.2.map Operand.text) hcode
  rw [List.map_map] at htexts
  have hnumber : Operand.text (.number (-2.5)) = "-2.5" := by decide +kernel
  refine ⟨p, u, hp, hu, htexts.trans (by decide +kernel), hclass 1 rfl nofun rfl, ?_,
    hnumber ▸ hclass 4 rfl nofun rfl, (hat 0 rfl nofun).2 _ rfl⟩
  simp only [List.forall_mem_cons]
  exact ⟨hclass 2 rfl nofun rfl, hclass 3 rfl nofun rfl, hclass 5 rfl nofun rfl, nofun⟩

end Program

end LineBasic
