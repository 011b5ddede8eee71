import LineBasic.Proofs.Code.Labels

/-!
# Temporaries

Every temporary is the result of one instruction and an operand of one instruction after it, and
only computations stand between the two.

* `UsedOnce`: a name is set once and then read once;
* `Pending`: a name is set once and not read so far;
* `Tidy`: code mentions no temporaries but those that it takes, and uses each of them once;
* `Expr.computed`: the code of an expression leaves the temporary with its value pending, and
  uses all others once;
* `Statement.tidy`: the code of a statement is tidy.
-/

namespace LineBasic

namespace Instruction

/-- The instruction has a name as its result. -/
def Sets (i : Instruction) (name : String) : Prop := i.result.map Symbol.text = some name

/-- The instruction has a name as an operand. -/
def Reads (i : Instruction) (name : String) : Prop :=
  i.operand1.map Operand.text = some name ∨ i.operand2.map Operand.text = some name

/-- The instruction has a name as its result or as an operand. -/
def Mentions (i : Instruction) (name : String) : Prop := i.Sets name ∨ i.Reads name

/-- The instruction is an arithmetic, a comparison or the assignment of a fixed text. -/
def Computes (i : Instruction) : Prop :=
  (∃ op, i.opcode = .ofOperator op) ∨ i.opcode = .assign ∧ ∃ s, i.operand1 = some (.quoted s)

end Instruction

/-! ### Names that are used once -/

/-- One instruction sets a name and one after it reads it, with computations only between them. No
other instruction mentions the name. -/
def UsedOnce (code : List Instruction) (name : String) : Prop :=
  ∃ before set between use after, code = before ++ set :: (between ++ use :: after) ∧
    set.Sets name ∧ ¬ set.Reads name ∧ use.Reads name ∧ ¬ use.Sets name ∧
      (∀ i ∈ between, i.Computes) ∧ ∀ i ∈ before ++ between ++ after, ¬ i.Mentions name

/-- One instruction sets a name, with computations only after it. No other instruction mentions the
name. -/
def Pending (code : List Instruction) (name : String) : Prop :=
  ∃ before set between, code = before ++ set :: between ∧ set.Sets name ∧ ¬ set.Reads name ∧
    (∀ i ∈ between, i.Computes) ∧ ∀ i ∈ before ++ between, ¬ i.Mentions name

section

variable {code other : List Instruction} {name : String}

lemma UsedOnce.append (h : UsedOnce code name) (hother : ∀ i ∈ other, ¬ i.Mentions name) :
    UsedOnce (code ++ other) name := by
  obtain ⟨before, set, between, use, after, rfl, hset, hread, huse, hresult, hbetween, hsilent⟩ := h
  refine ⟨before, set, between, use, after ++ other, by simp, hset, hread, huse, hresult, hbetween,
    fun i hi => ?_⟩
  rw [← List.append_assoc] at hi
  exact (List.mem_append.mp hi).elim (hsilent i) (hother i)

lemma UsedOnce.prepend (h : UsedOnce code name) (hother : ∀ i ∈ other, ¬ i.Mentions name) :
    UsedOnce (other ++ code) name := by
  obtain ⟨before, set, between, use, after, rfl, hset, hread, huse, hresult, hbetween, hsilent⟩ := h
  refine ⟨other ++ before, set, between, use, after, by simp, hset, hread, huse, hresult, hbetween,
    fun i hi => ?_⟩
  rw [List.append_assoc, List.append_assoc, ← List.append_assoc before] at hi
  exact (List.mem_append.mp hi).elim (hother i) (hsilent i)

lemma Pending.append (h : Pending code name) (hother : ∀ i ∈ other, ¬ i.Mentions name)
    (hcomputes : ∀ i ∈ other, i.Computes) : Pending (code ++ other) name := by
  obtain ⟨before, set, between, rfl, hset, hread, hbetween, hsilent⟩ := h
  refine ⟨before, set, between ++ other, by simp, hset, hread, fun i hi => ?_, fun i hi => ?_⟩
  · exact (List.mem_append.mp hi).elim (hbetween i) (hcomputes i)
  · rw [← List.append_assoc] at hi
    exact (List.mem_append.mp hi).elim (hsilent i) (hother i)

/-- What is pending is used once when an instruction reads it. -/
lemma Pending.usedOnce (h : Pending code name) {use : Instruction} (huse : use.Reads name)
    (hresult : ¬ use.Sets name) : UsedOnce (code ++ [use]) name := by
  obtain ⟨before, set, between, rfl, hset, hread, hbetween, hsilent⟩ := h
  exact ⟨before, set, between, use, [], by simp, hset, hread, huse, hresult, hbetween,
    by simpa using hsilent⟩

/-- The instruction that sets a name leaves it pending. -/
lemma pending_append_set {set : Instruction} (hset : set.Sets name) (hread : ¬ set.Reads name)
    (hcode : ∀ i ∈ code, ¬ i.Mentions name) : Pending (code ++ [set]) name :=
  ⟨code, set, [], rfl, hset, hread, by simp, by simpa using hcode⟩

end

/-! ### Tidy code -/

/-- Code mentions no temporaries but `n` of them, from number `t` on. -/
def MentionsWithin (t n : Nat) (code : List Instruction) : Prop :=
  ∀ i ∈ code, ∀ k, i.Mentions (Symbol.temp k).text → t ≤ k ∧ k < t + n

/-- Code that takes `n` temporaries, from number `t` on: it mentions no others and uses each of
them once. -/
structure Tidy (t n : Nat) (code : List Instruction) : Prop where
  within : MentionsWithin t n code
  usedOnce : ∀ k, t ≤ k → k < t + n → UsedOnce code (Symbol.temp k).text

section

variable {t n m k : Nat} {code code' : List Instruction}

lemma MentionsWithin.append (h : MentionsWithin t n code) (h' : MentionsWithin (t + n) m code') :
    MentionsWithin t (n + m) (code ++ code') := by
  intro i hi k hk
  rcases List.mem_append.mp hi with hi | hi
  · have hrange := h i hi k hk
    omega
  · have hrange := h' i hi k hk
    omega

/-- Temporaries before or after those that code takes are not mentioned. -/
lemma MentionsWithin.not_mentions (h : MentionsWithin t n code) (hk : k < t ∨ t + n ≤ k) :
    ∀ i ∈ code, ¬ i.Mentions (Symbol.temp k).text := by
  intro i hi hmentions
  have hrange := h i hi k hmentions
  omega

lemma Tidy.append (h : Tidy t n code) (h' : Tidy (t + n) m code') :
    Tidy t (n + m) (code ++ code') := by
  refine ⟨h.within.append h'.within, fun k hle hlt => ?_⟩
  by_cases hk : k < t + n
  · exact (h.usedOnce k hle hk).append (h'.within.not_mentions (.inl hk))
  · refine UsedOnce.prepend (h'.usedOnce k (by omega) (by omega)) ?_
    exact h.within.not_mentions (.inr (by omega))

/-- Code that mentions no temporary is tidy. -/
lemma tidy_of_silent (h : ∀ i ∈ code, ∀ k, ¬ i.Mentions (Symbol.temp k).text) :
    Tidy t 0 code :=
  ⟨fun i hi k hk => absurd hk (h i hi k), fun k hle hlt => absurd hlt (by omega)⟩

end

/-! ### Expressions -/

lemma Symbol.text_label_ne_temp (l k : Nat) : (Symbol.label l).text ≠ (Symbol.temp k).text := by
  intro h
  have hlist := congrArg String.toList h
  rw [toList_text_label, toList_text_temp] at hlist
  cases hlist

lemma Text.quoted_ne_temp (s : String) (k : Nat) : Text.quoted s ≠ (Symbol.temp k).text := by
  intro h
  have hsome := Text.unquoted?_quoted s
  rw [h, unquoted?_temp] at hsome
  cases hsome

namespace Expr

lemma computes_code (e : Expr) (t : Nat) : ∀ i ∈ e.code t, i.Computes := by
  induction e generalizing t with
  | ident name span => simp [code]
  | number x span => simp [code]
  | string s span =>
    intro i hi
    rw [List.mem_singleton.mp hi]
    exact .inr ⟨rfl, s, rfl⟩
  | binary op l r span ihl ihr =>
    intro i hi
    rcases List.mem_append.mp hi with hi | hi
    · exact (List.mem_append.mp hi).elim (ihl t i) (ihr _ i)
    · rw [List.mem_singleton.mp hi]
      exact .inl ⟨op, rfl⟩

/-- An expression whose value is in a temporary takes that one last. -/
lemma text_operand_eq_temp_iff {e : Expr} (he : ∀ x ∈ e.reads, IsName x.1) {t k : Nat} :
    (e.operand t).text = (Symbol.temp k).text ↔ t ≤ k ∧ k + 1 = t + e.temps := by
  cases e with
  | ident name span =>
    have hname : IsName name := he _ List.mem_cons_self
    refine iff_of_false (hname.ne_temp k) ?_
    simp only [temps]
    omega
  | number x span =>
    refine iff_of_false ((looksNumeric_numberText x).ne_temp k) ?_
    simp only [temps]
    omega
  | string s span =>
    simp only [temps]
    refine ⟨fun h => ?_, fun h => ?_⟩
    · have heq : t = k := Symbol.text_temp_injective h
      omega
    · obtain rfl : t = k := by omega
      rfl
  | binary op l r span =>
    simp only [temps]
    refine ⟨fun h => ?_, fun h => ?_⟩
    · have heq : t + l.temps + r.temps = k := Symbol.text_temp_injective h
      omega
    · obtain rfl : t + l.temps + r.temps = k := by omega
      rfl

/-- What the code of an expression does with the temporaries that it takes: all but the last one
are used once, and the last one is pending. -/
structure Computed (t : Nat) (e : Expr) : Prop where
  within : MentionsWithin t e.temps (e.code t)
  usedOnce : ∀ k, t ≤ k → k + 1 < t + e.temps → UsedOnce (e.code t) (Symbol.temp k).text
  pending : ∀ k, t ≤ k → k + 1 = t + e.temps → Pending (e.code t) (Symbol.temp k).text

/-- The temporaries of an expression are used once if the next instruction reads its value. -/
lemma Computed.usedOnce_append {t k : Nat} {e : Expr} (h : e.Computed t)
    (he : ∀ x ∈ e.reads, IsName x.1) {i : Instruction} (hle : t ≤ k) (hlt : k < t + e.temps)
    (hsets : ¬ i.Sets (Symbol.temp k).text)
    (hreads : i.Reads (Symbol.temp k).text ↔ (e.operand t).text = (Symbol.temp k).text) :
    UsedOnce (e.code t ++ [i]) (Symbol.temp k).text := by
  rw [text_operand_eq_temp_iff he] at hreads
  by_cases hlast : k + 1 = t + e.temps
  · exact (h.pending k hle hlast).usedOnce (hreads.mpr ⟨hle, hlast⟩) hsets
  · refine (h.usedOnce k hle (by omega)).append fun j hj hmentions => ?_
    rw [List.mem_singleton.mp hj] at hmentions
    exact hmentions.elim hsets fun hread => hlast (hreads.mp hread).2

/-- The code of an expression leaves the temporary with its value pending, and uses all others
once. -/
theorem computed {e : Expr} (he : ∀ x ∈ e.reads, IsName x.1) (t : Nat) : e.Computed t := by
  induction e generalizing t with
  | ident name span =>
    exact ⟨by simp [MentionsWithin, code],
      fun k hle hlt => absurd hlt (by simp only [temps]; omega),
      fun k hle heq => absurd heq (by simp only [temps]; omega)⟩
  | number x span =>
    exact ⟨by simp [MentionsWithin, code],
      fun k hle hlt => absurd hlt (by simp only [temps]; omega),
      fun k hle heq => absurd heq (by simp only [temps]; omega)⟩
  | string s span =>
    have hreads (k : Nat) : ¬ (stringInstruction t s).Reads (Symbol.temp k).text := by
      simpa [Instruction.Reads, stringInstruction, Operand.text] using Text.quoted_ne_temp s k
    refine ⟨?_, fun k hle hlt => absurd hlt (by simp only [temps]; omega), fun k hle heq => ?_⟩
    · intro i hi k hk
      rw [List.mem_singleton.mp hi] at hk
      have htemp : t = k :=
        Symbol.text_temp_injective (Option.some.inj (hk.resolve_right (hreads k)))
      simp only [temps]
      omega
    · obtain rfl : t = k := by simp only [temps] at heq; omega
      exact ⟨[], _, [], rfl, rfl, hreads t, by simp, by simp⟩
  | binary op l r span ihl ihr =>
    have hl : ∀ x ∈ l.reads, IsName x.1 := fun x hx => he x (List.mem_append_left _ hx)
    have hr : ∀ x ∈ r.reads, IsName x.1 := fun x hx => he x (List.mem_append_right _ hx)
    have hleft := ihl hl t
    have hright := ihr hr (t + l.temps)
    let i := binaryInstruction (t + l.temps + r.temps) op (l.operand t) (r.operand (t + l.temps))
    have hsets (k : Nat) : i.Sets (Symbol.temp k).text ↔ k = t + l.temps + r.temps := by
      refine ⟨fun h => ?_, fun h => h ▸ rfl⟩
      exact (Symbol.text_temp_injective (Option.some.inj h)).symm
    have hreads (k : Nat) : i.Reads (Symbol.temp k).text ↔
        t ≤ k ∧ k + 1 = t + l.temps ∨ t + l.temps ≤ k ∧ k + 1 = t + l.temps + r.temps := by
      rw [← text_operand_eq_temp_iff hl, ← text_operand_eq_temp_iff hr]
      simp [i, Instruction.Reads, binaryInstruction]
    have hboth : MentionsWithin t (l.temps + r.temps) (l.code t ++ r.code (t + l.temps)) :=
      hleft.within.append hright.within
    have hcode : (Expr.binary op l r span).code t = l.code t ++ r.code (t + l.temps) ++ [i] := rfl
    have htemps : (Expr.binary op l r span).temps = l.temps + r.temps + 1 := rfl
    refine ⟨fun j hj k hk => ?_, fun k hle hlt => ?_, fun k hle heq => ?_⟩
    · rcases List.mem_append.mp hj with hj | hj
      · have hrange := hboth j hj k hk
        omega
      · rw [List.mem_singleton.mp hj, Instruction.Mentions, hsets, hreads] at hk
        omega
    · have hresult : ¬ i.Sets (Symbol.temp k).text := by
        rw [hsets]
        omega
      by_cases hk : k < t + l.temps
      · -- The operand on the left waits while the one on the right is computed.
        have hwait := hright.within.not_mentions (.inl hk)
        by_cases hlast : k + 1 = t + l.temps
        · refine Pending.usedOnce ?_ ((hreads k).mpr (.inl ⟨hle, hlast⟩)) hresult
          exact (hleft.pending k hle hlast).append hwait (r.computes_code _)
        · refine ((hleft.usedOnce k hle (by omega)).append hwait).append fun j hj hk => ?_
          rw [List.mem_singleton.mp hj, Instruction.Mentions, hsets, hreads] at hk
          omega
      · rw [hcode, List.append_assoc]
        refine UsedOnce.prepend ?_ (hleft.within.not_mentions (.inr (by omega)))
        refine hright.usedOnce_append hr (by omega) (by omega) hresult ?_
        rw [hreads, text_operand_eq_temp_iff hr]
        omega
    · obtain rfl : t + l.temps + r.temps = k := by omega
      refine pending_append_set ((hsets _).mpr rfl) ?_ (hboth.not_mentions (.inr (by omega)))
      rw [hreads]
      omega

/-- The code of an expression is tidy together with an instruction that only reads its value. -/
lemma tidy_append {e : Expr} (he : ∀ x ∈ e.reads, IsName x.1) {t : Nat} {i : Instruction}
    (hleft : i.operand1 = some (e.operand t)) (hright : i.operand2 = none)
    (hsets : ∀ k, ¬ i.Sets (Symbol.temp k).text) : Tidy t e.temps (e.code t ++ [i]) := by
  have hreads (k : Nat) :
      i.Reads (Symbol.temp k).text ↔ (e.operand t).text = (Symbol.temp k).text := by
    simp [Instruction.Reads, hleft, hright]
  refine ⟨fun j hj k hk => ?_, fun k hle hlt => ?_⟩
  · rcases List.mem_append.mp hj with hj | hj
    · exact (computed he t).within j hj k hk
    · rw [List.mem_singleton.mp hj] at hk
      have hlast := (text_operand_eq_temp_iff he).mp ((hreads k).mp (hk.resolve_left (hsets k)))
      omega
  · exact (computed he t).usedOnce_append he hle hlt (hsets k) (hreads k)

end Expr

/-! ### Statements -/

lemma Expr.isName_of_uses {e : Expr} (h : ∀ x ∈ e.uses, IsName x.name) :
    ∀ x ∈ e.reads, IsName x.1 :=
  fun x hx => h (.read x.1 x.2) (mem_uses.mpr hx)

namespace Statement

/-- Labels are not temporaries. -/
lemma tidy_label (t k : Nat) (remark : String) : Tidy t 0 [labelInstruction k remark] := by
  refine tidy_of_silent fun i hi j hj => ?_
  rw [List.mem_singleton.mp hi] at hj
  simp [Instruction.Mentions, Instruction.Sets, Instruction.Reads, labelInstruction, Operand.text,
    Symbol.text_label_ne_temp] at hj

/-- An instruction without operands and result mentions nothing. -/
lemma tidy_of_bare {t : Nat} {i : Instruction} (hleft : i.operand1 = none)
    (hright : i.operand2 = none) (hresult : i.result = none) : Tidy t 0 [i] := by
  refine tidy_of_silent fun j hj k hk => ?_
  rw [List.mem_singleton.mp hj] at hk
  simp [Instruction.Mentions, Instruction.Sets, Instruction.Reads, hleft, hright, hresult] at hk

/-- The code of a statement is tidy. -/
theorem tidy {s : Statement} (hs : ∀ x ∈ s.uses, IsName x.name) (t l : Nat) :
    Tidy t s.temps (s.code t l) := by
  induction s generalizing t l with
  | assign name e span =>
    have hname : IsName name := hs (.write name) (by simp [uses])
    refine Expr.tidy_append (Expr.isName_of_uses fun x hx => hs x (by simp [uses, hx])) rfl rfl ?_
    intro k hk
    exact hname.ne_temp k (Option.some.inj hk)
  | print item span =>
    cases item with
    | none => exact tidy_of_bare rfl rfl rfl
    | some e =>
      exact Expr.tidy_append (Expr.isName_of_uses fun x hx => hs x (by simp [uses, hx])) rfl rfl
        (by simp [Instruction.Sets, printInstruction])
  | ifThen c s span ih =>
    rw [code_ifThen]
    have hcondition := Expr.isName_of_uses fun x hx => hs x (List.mem_append_left _ hx)
    have hbranch := ih (fun x hx => hs x (List.mem_append_right _ hx)) (t + c.temps) (l + 2)
    refine (Tidy.append (Expr.tidy_append hcondition rfl rfl ?_) hbranch).append (tidy_label _ _ _)
    simp [Instruction.Sets, branchInstruction]
  | ifThenElse c s e span ihs ihe =>
    rw [code_ifThenElse, temps, Nat.add_assoc]
    have hcondition := Expr.isName_of_uses fun x hx =>
      hs x (List.mem_append_left _ (List.mem_append_left _ hx))
    have hbranch := ihs (fun x hx => hs x (List.mem_append_left _ (List.mem_append_right _ hx)))
      (t + c.temps) (l + 3)
    have hother := ihe (fun x hx => hs x (List.mem_append_right _ hx))
      (t + c.temps + s.temps) (l + 3 + s.labels)
    have htest : Tidy t c.temps
        (c.code t ++ [branchInstruction (c.operand t) (l + 2) "skip to ELSE when false"]) :=
      Expr.tidy_append hcondition rfl rfl (by simp [Instruction.Sets, branchInstruction])
    have hskip : Tidy (t + c.temps + s.temps) 0 [skipInstruction (l + 1)] :=
      tidy_of_bare rfl rfl rfl
    have hlast := ((tidy_label (t + c.temps + s.temps) (l + 2) "ELSE branch").append hother).append
      (tidy_label _ (l + 1) "end of IF")
    rw [Nat.zero_add] at hlast
    exact htest.append ((hbranch.append hskip).append hlast)
  | goto e span =>
    exact Expr.tidy_append (Expr.isName_of_uses hs) rfl rfl
      (by simp [Instruction.Sets, gotoInstruction])
  | gosub e span =>
    exact Expr.tidy_append (Expr.isName_of_uses hs) rfl rfl
      (by simp [Instruction.Sets, gosubInstruction])
  | ret span => exact tidy_of_bare rfl rfl rfl
  | input names span =>
    refine tidy_of_silent fun i hi k hk => ?_
    obtain ⟨name, hname, rfl⟩ := List.mem_map.mp hi
    have htemp : name = (Symbol.temp k).text := by
      simpa [Instruction.Mentions, Instruction.Sets, Instruction.Reads, inputInstruction,
        Symbol.text] using hk
    exact (hs (.write name) (by simp [uses, hname])).ne_temp k htemp
  | halt span => exact tidy_of_bare rfl rfl rfl

end Statement

end LineBasic
