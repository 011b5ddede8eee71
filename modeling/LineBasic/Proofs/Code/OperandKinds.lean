import LineBasic.Proofs.Code.Layout
import LineBasic.Proofs.Reading.Strings

/-!
# Kinds of operands

An operand in the code of a statement is a name, a number or a text of the statement, or a
temporary. A label is an operand only where it is defined.

* `Instruction.operands`: the operands of an instruction;
* `Operand.Among`: an operand whose name, number or text is of a given kind;
* `Expr.among_code`, `Statement.among_code`, `Line.among_code`: all operands are of the kinds that
  the names, numbers and texts of the program are of;
* `Operand.OfKinds`, `Line.ofKinds_code`: the same where nothing is asked of numbers;
* `Expr.putsText_code`, `Statement.putsText_code`, `Line.putsText_code`: every text of the program
  is an operand.
-/

namespace LineBasic

/-- The operands of an instruction. -/
def Instruction.operands (i : Instruction) : List Operand := i.operand1.toList ++ i.operand2.toList

section Kinds

variable (name : String → Prop) (number : Number → Prop) (text : String → Prop)

/-- A name, a number or a text of a given kind, or a temporary. -/
inductive Operand.Among : Operand → Prop
  | given {x : String} (h : name x) : Among (.symbol (.given x))
  | temp (k : Nat) : Among (.symbol (.temp k))
  | number {x : Number} (h : number x) : Among (.number x)
  | quoted {x : String} (h : text x) : Among (.quoted x)

/-- The names, numbers and texts of an expression are of given kinds. -/
structure Expr.Among (e : Expr) : Prop where
  name : ∀ x ∈ e.uses, name x.name
  number : ∀ x ∈ e.literals, number x
  text : ∀ k ∈ e.leaves, ∀ x, k = .string x → text x

/-- The names, numbers and texts of a statement are of given kinds. -/
structure Statement.Among (s : Statement) : Prop where
  name : ∀ x ∈ s.uses, name x.name
  number : ∀ x ∈ s.literals, number x
  text : ∀ k ∈ s.leaves, ∀ x, k = .string x → text x

end Kinds

variable {name text : String → Prop} {number : Number → Prop}

/-! ### Expressions -/

namespace Expr

lemma Among.binary {op : BinaryOp} {l r : Expr} {span : Span}
    (h : (Expr.binary op l r span).Among name number text) :
    l.Among name number text ∧ r.Among name number text := by
  obtain ⟨hname, hnumber, htext⟩ := h
  rw [uses_binary, List.forall_mem_append] at hname
  rw [literals, List.forall_mem_append] at hnumber
  rw [leaves, List.forall_mem_append] at htext
  exact ⟨⟨hname.1, hnumber.1, htext.1⟩, ⟨hname.2, hnumber.2, htext.2⟩⟩

/-- The value of an expression is in a name that it reads, a number or a temporary. -/
lemma Among.operand {e : Expr} (h : e.Among name number text) (t : Nat) :
    (e.operand t).Among name number text := by
  cases e with
  | ident x span => exact .given (h.name (.read x span) List.mem_cons_self)
  | number x span => exact .number (h.number x List.mem_cons_self)
  | string s span => exact .temp t
  | binary op l r span => exact .temp _

/-- The operands in the code of an expression. -/
lemma among_code {e : Expr} (h : e.Among name number text) (t : Nat) :
    ∀ i ∈ e.code t, ∀ o ∈ i.operands, o.Among name number text := by
  induction e generalizing t with
  | ident x span => simp [code]
  | number x span => simp [code]
  | string s span =>
    intro i hi o ho
    rw [List.mem_singleton.mp hi] at ho
    rw [List.mem_singleton.mp ho]
    exact .quoted (h.text (.string s) List.mem_cons_self s rfl)
  | binary op l r span ihl ihr =>
    obtain ⟨hl, hr⟩ := h.binary
    rw [code, List.forall_mem_append, List.forall_mem_append, List.forall_mem_singleton]
    refine ⟨⟨ihl hl _, ihr hr _⟩, fun o ho => ?_⟩
    rcases List.mem_cons.mp ho with rfl | ho
    · exact hl.operand _
    · rw [List.mem_singleton.mp ho]
      exact hr.operand _

/-- The operands in the code of an expression and of an instruction that takes its value. -/
lemma among_append {e : Expr} (h : e.Among name number text) {t : Nat} {i : Instruction}
    (hi : i.operands = [e.operand t]) :
    ∀ j ∈ e.code t ++ [i], ∀ o ∈ j.operands, o.Among name number text := by
  rw [List.forall_mem_append, List.forall_mem_singleton, hi, List.forall_mem_singleton]
  exact ⟨among_code h t, h.operand t⟩

end Expr

/-! ### Statements -/

namespace Statement

variable {c e : Expr} {s s' : Statement} {span : Span}

lemma Among.assign {x : String} (h : (Statement.assign x e span).Among name number text) :
    e.Among name number text := by
  obtain ⟨hname, hnumber, htext⟩ := h
  rw [uses, List.forall_mem_append] at hname
  exact ⟨hname.1, hnumber, (List.forall_mem_cons.mp htext).2⟩

lemma Among.print (h : (Statement.print (some e) span).Among name number text) :
    e.Among name number text := by
  obtain ⟨hname, hnumber, htext⟩ := h
  exact ⟨by simpa [uses] using hname, by simpa [literals] using hnumber,
    by simpa [leaves] using htext⟩

lemma Among.ifThen (h : (Statement.ifThen c s span).Among name number text) :
    c.Among name number text ∧ s.Among name number text := by
  obtain ⟨hname, hnumber, htext⟩ := h
  rw [uses, List.forall_mem_append] at hname
  rw [literals, List.forall_mem_append] at hnumber
  rw [leaves, List.forall_mem_append] at htext
  exact ⟨⟨hname.1, hnumber.1, htext.1⟩, ⟨hname.2, hnumber.2, htext.2⟩⟩

lemma Among.ifThenElse (h : (Statement.ifThenElse c s s' span).Among name number text) :
    c.Among name number text ∧ s.Among name number text ∧ s'.Among name number text := by
  obtain ⟨hname, hnumber, htext⟩ := h
  rw [uses, List.forall_mem_append, List.forall_mem_append] at hname
  rw [literals, List.forall_mem_append, List.forall_mem_append] at hnumber
  rw [leaves, List.forall_mem_append, List.forall_mem_append] at htext
  exact ⟨⟨hname.1.1, hnumber.1.1, htext.1.1⟩, ⟨hname.1.2, hnumber.1.2, htext.1.2⟩,
    ⟨hname.2, hnumber.2, htext.2⟩⟩

/-- The operands in the code of a statement, but for the labels that it defines. -/
lemma among_code (h : s.Among name number text) (t l : Nat) :
    ∀ i ∈ s.code t l, i.opcode ≠ .label → ∀ o ∈ i.operands, o.Among name number text := by
  -- An instruction without operands, or one that defines a label.
  have hnone {i : Instruction} (hi : i.operands = []) :
      i.opcode ≠ .label → ∀ o ∈ i.operands, o.Among name number text := by simp [hi]
  have hlabel (k : Nat) (remark : String) : (labelInstruction k remark).opcode ≠ .label →
      ∀ o ∈ (labelInstruction k remark).operands, o.Among name number text := fun h => absurd rfl h
  have hvalue {e : Expr} (he : e.Among name number text) {t : Nat} {i : Instruction}
      (hi : i.operands = [e.operand t]) :
      ∀ j ∈ e.code t ++ [i], j.opcode ≠ .label → ∀ o ∈ j.operands, o.Among name number text :=
    fun j hj _ => Expr.among_append he hi j hj
  induction s generalizing t l with
  | assign x e span => exact hvalue h.assign rfl
  | print item span =>
    cases item with
    | none =>
      rw [code, List.forall_mem_singleton]
      exact hnone rfl
    | some e => exact hvalue h.print rfl
  | ifThen c s span ih =>
    obtain ⟨hc, hs⟩ := h.ifThen
    rw [code_ifThen, List.forall_mem_append, List.forall_mem_append, List.forall_mem_singleton]
    exact ⟨⟨hvalue hc rfl, ih hs _ _⟩, hlabel _ _⟩
  | ifThenElse c s e span ihs ihe =>
    obtain ⟨hc, hs, he⟩ := h.ifThenElse
    rw [code_ifThenElse, List.forall_mem_append]
    refine ⟨hvalue hc rfl, ?_⟩
    simp only [List.forall_mem_append, List.forall_mem_singleton]
    exact ⟨⟨ihs hs _ _, hnone rfl⟩, ⟨hlabel _ _, ihe he _ _⟩, hlabel _ _⟩
  | goto e span => exact hvalue ⟨h.name, h.number, h.text⟩ rfl
  | gosub e span => exact hvalue ⟨h.name, h.number, h.text⟩ rfl
  | ret span =>
    rw [code, List.forall_mem_singleton]
    exact hnone rfl
  | input names span =>
    intro i hi
    obtain ⟨x, -, rfl⟩ := List.mem_map.mp hi
    exact hnone rfl
  | halt span =>
    rw [code, List.forall_mem_singleton]
    exact hnone rfl

end Statement

/-! ### Lines -/

/-- The operands in the code of lines, but for the labels that it defines. -/
lemma Line.among_code {ls : List Line} (hls : ∀ l ∈ ls, l.statement.Among name number text)
    (t l : Nat) :
    ∀ i ∈ code t l ls, i.opcode ≠ .label → ∀ o ∈ i.operands, o.Among name number text := by
  induction ls generalizing t l with
  | nil => simp [code]
  | cons x xs ih =>
    obtain ⟨hx, hxs⟩ := List.forall_mem_cons.mp hls
    rw [code, List.forall_mem_append]
    exact ⟨Statement.among_code hx t l, ih hxs _ _⟩

/-- A name or a text of a given kind, a temporary or a number. -/
abbrev Operand.OfKinds (name text : String → Prop) : Operand → Prop :=
  Operand.Among name (fun _ => True) text

/-- The operands in the code of lines, but for the labels that it defines, where any number will
do. -/
lemma Line.ofKinds_code {ls : List Line} (hls : ∀ l ∈ ls, ∀ x ∈ l.statement.uses, name x.name)
    (htext : ∀ l ∈ ls, ∀ x, .string x ∈ l.statement.leaves → text x) (t l : Nat) :
    ∀ i ∈ code t l ls, i.opcode ≠ .label → ∀ o ∈ i.operands, o.OfKinds name text :=
  among_code (fun x hx => ⟨hls x hx, fun _ _ => trivial,
    fun _ hk s hs => htext x hx s (hs ▸ hk)⟩) t l

/-! ### Texts -/

/-- Some instruction of the code puts a text into a temporary. -/
def PutsText (s : String) (code : List Instruction) : Prop :=
  ∃ i ∈ code, i.opcode = .assign ∧ i.operand1 = some (.quoted s)

lemma PutsText.mono {s : String} {is js : List Instruction} (h : PutsText s is) (hsub : is ⊆ js) :
    PutsText s js := by
  obtain ⟨i, hi, hput⟩ := h
  exact ⟨i, hsub hi, hput⟩

lemma Expr.putsText_code {e : Expr} {s : String} (h : .string s ∈ e.leaves) (t : Nat) :
    PutsText s (e.code t) := by
  induction e generalizing t with
  | ident x span => simp [leaves] at h
  | number x span => simp [leaves] at h
  | string s' span =>
    cases List.mem_singleton.mp h
    exact ⟨_, List.mem_cons_self, rfl, rfl⟩
  | binary op l r span ihl ihr =>
    rcases List.mem_append.mp h with hl | hr
    · exact (ihl hl t).mono (by simp [code])
    · exact (ihr hr (t + l.temps)).mono (by simp [code])

lemma Statement.putsText_code {st : Statement} {s : String} (h : .string s ∈ st.leaves)
    (t l : Nat) : PutsText s (st.code t l) := by
  induction st generalizing t l with
  | assign x e span =>
    rcases List.mem_cons.mp h with hx | he
    · cases hx
    · exact (Expr.putsText_code he t).mono (List.subset_append_left ..)
  | print item span =>
    cases item with
    | none => cases h
    | some e =>
      have he : .string s ∈ e.leaves := by simpa [leaves] using h
      exact (Expr.putsText_code he t).mono (List.subset_append_left ..)
  | ifThen c b span ih =>
    rcases List.mem_append.mp h with hc | hb
    · exact (Expr.putsText_code hc t).mono (by simp [code])
    · exact (ih hb (t + c.temps) (l + 2)).mono fun i hi => by simp [code, hi]
  | ifThenElse c a b span iha ihb =>
    rcases List.mem_append.mp h with h | hb
    · rcases List.mem_append.mp h with hc | ha
      · exact (Expr.putsText_code hc t).mono (by simp [code])
      · exact (iha ha (t + c.temps) (l + 3)).mono fun i hi => by simp [code, hi]
    · exact (ihb hb (t + c.temps + a.temps) (l + 3 + a.labels)).mono fun i hi => by
        simp [code, hi]
  | goto e span => exact (Expr.putsText_code h t).mono (List.subset_append_left ..)
  | gosub e span => exact (Expr.putsText_code h t).mono (List.subset_append_left ..)
  | ret span => cases h
  | input names span => simp [leaves] at h
  | halt span => cases h

/-- Every text of some lines is put into a temporary. -/
lemma Line.putsText_code {ls : List Line} {x : Line} (hx : x ∈ ls) {s : String}
    (h : .string s ∈ x.statement.leaves) (t l : Nat) : PutsText s (code t l ls) := by
  induction ls generalizing t l with
  | nil => cases hx
  | cons y ys ih =>
    rcases List.mem_cons.mp hx with rfl | hx
    · exact (Statement.putsText_code h t l).mono (List.subset_append_left ..)
    · exact (ih hx _ _).mono (List.subset_append_right ..)

end LineBasic
