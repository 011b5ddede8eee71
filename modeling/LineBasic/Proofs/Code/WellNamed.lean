import LineBasic.Proofs.Code.Program
import LineBasic.Proofs.Code.Temporaries
import Mathlib.Data.List.Forall2

/-!
# Names in a unit

However many statements and programs are lowered into one unit, its names stay well formed.

* `BranchesWithin`: every branch goes to a label that is defined after it;
* `CodeUnit.WellNamed`: labels are defined once, temporaries are used once, and all names are
  declared;
* `CodeUnit.WellNamed.lower`: lowering a statement keeps this, and adds code whose branches stay
  within it;
* `Fragment.lowerAll_wellNamed`: what holds after any number of statements and programs.
-/

namespace LineBasic

/-! ### Branches and labels -/

/-- Every branch goes to a label that is defined after it. -/
def BranchesWithin : List Instruction → Prop
  | [] => True
  | i :: code =>
    (∀ label, i.target = some label → label.text ∈ code.filterMap Instruction.defines?) ∧
      BranchesWithin code

lemma BranchesWithin.append {code code' : List Instruction} (h : BranchesWithin code)
    (h' : BranchesWithin code') : BranchesWithin (code ++ code') := by
  induction code with
  | nil => exact h'
  | cons i code ih =>
    refine ⟨fun label hlabel => ?_, ih h.2⟩
    have hdefined := h.1 label hlabel
    simp only [List.append_eq, List.filterMap_append]
    exact List.mem_append_left _ hdefined

/-- Code without branches. -/
lemma branchesWithin_of_forall {code : List Instruction} (h : ∀ i ∈ code, i.target = none) :
    BranchesWithin code := by
  induction code with
  | nil => trivial
  | cons i code ih =>
    refine ⟨fun label hlabel => ?_, ih fun j hj => h j (List.mem_cons_of_mem _ hj)⟩
    cases (h i List.mem_cons_self).symm.trans hlabel

lemma Expr.target_code (e : Expr) (t : Nat) : ∀ i ∈ e.code t, i.target = none := by
  induction e generalizing t with
  | ident name span => simp [code]
  | number x span => simp [code]
  | string s span => simp [code, stringInstruction]
  | binary op l r span ihl ihr =>
    intro i hi
    rcases List.mem_append.mp hi with hi | hi
    · exact (List.mem_append.mp hi).elim (ihl t i) (ihr _ i)
    · rw [List.mem_singleton.mp hi]
      rfl

/-- The code of an expression has no branches, and so has an instruction after it. -/
lemma Expr.branchesWithin_append (e : Expr) (t : Nat) {i : Instruction} (hi : i.target = none) :
    BranchesWithin (e.code t ++ [i]) :=
  (branchesWithin_of_forall (e.target_code t)).append (branchesWithin_of_forall (by simpa using hi))

/-- The branches of a statement stay within it. -/
lemma Statement.branchesWithin (s : Statement) (t l : Nat) : BranchesWithin (s.code t l) := by
  have hlabel (k : Nat) (remark : String) : BranchesWithin [labelInstruction k remark] :=
    branchesWithin_of_forall (by simp [labelInstruction])
  have hdefines (k : Nat) (remark : String) :
    (labelInstruction k remark).defines? = some (Symbol.label k).text := rfl
  induction s generalizing t l with
  | assign name e span => exact e.branchesWithin_append t rfl
  | print item span =>
    cases item with
    | none => exact branchesWithin_of_forall (by simp [code, blankInstruction])
    | some e => exact e.branchesWithin_append t rfl
  | ifThen c s span ih =>
    rw [code, List.append_assoc]
    refine (branchesWithin_of_forall (c.target_code t)).append ⟨?_, ?_⟩
    · rintro label ⟨⟩
      simp [hdefines]
    · exact (ih _ _).append (hlabel _ _)
  | ifThenElse c s e span ihs ihe =>
    rw [code, List.append_assoc, List.append_assoc]
    refine (branchesWithin_of_forall (c.target_code t)).append ⟨?_, (ihs _ _).append ⟨?_, ?_⟩⟩
    · rintro label ⟨⟩
      simp [hdefines]
    · rintro label ⟨⟩
      simp [hdefines]
    · exact (hlabel _ _).append ((ihe _ _).append (hlabel _ _))
  | goto e span => exact e.branchesWithin_append t rfl
  | gosub e span => exact e.branchesWithin_append t rfl
  | ret span => exact branchesWithin_of_forall (by simp [code, retInstruction])
  | input names span => exact branchesWithin_of_forall (by simp [code, inputInstruction])
  | halt span => exact branchesWithin_of_forall (by simp [code, haltInstruction])

/-- Code defines labels among `n` of them, from number `l` on, and each of them at most once. -/
def DefinesLabels (l n : Nat) (code : List Instruction) : Prop :=
  ∃ ks : List Nat, code.filterMap Instruction.defines? = ks.map (fun k => (Symbol.label k).text) ∧
    ks.Nodup ∧ ∀ k ∈ ks, l ≤ k ∧ k < l + n

lemma DefinesLabels.append {l n m : Nat} {code code' : List Instruction}
    (h : DefinesLabels l n code) (h' : DefinesLabels (l + n) m code') :
    DefinesLabels l (n + m) (code ++ code') := by
  obtain ⟨ks, hks, hnodup, hrange⟩ := h
  obtain ⟨ks', hks', hnodup', hrange'⟩ := h'
  refine ⟨ks ++ ks', by rw [List.filterMap_append, hks, hks', List.map_append],
    List.nodup_append.mpr ⟨hnodup, hnodup', fun k hk k' hk' => ?_⟩, fun k hk => ?_⟩
  · have hlow := hrange k hk
    have hhigh := hrange' k' hk'
    omega
  · rcases List.mem_append.mp hk with hk | hk
    · have hlow := hrange k hk
      omega
    · have hhigh := hrange' k hk
      omega

lemma Statement.definesLabels (s : Statement) (t l : Nat) :
    DefinesLabels l s.labels (s.code t l) :=
  ⟨s.definedLabels l, s.filterMap_defines? t l, s.nodup_definedLabels l, fun _ => mem_definedLabels⟩

/-! ### Declared names -/

/-- The result of an instruction and the names among its operands are declared. The name that
defines a label is no operand. -/
structure Instruction.Declared (names : List String) (i : Instruction) : Prop where
  result : ∀ x, i.result = some x → x.text ∈ names
  operand : i.opcode ≠ .label → ∀ x, i.operand1 = some (.symbol x) ∨ i.operand2 = some (.symbol x) →
    x.text ∈ names

lemma Instruction.Declared.mono {names names' : List String} {i : Instruction}
    (h : i.Declared names) (hnames : ∀ name ∈ names, name ∈ names') : i.Declared names' :=
  ⟨fun x hx => hnames _ (h.result x hx), fun hi x hx => hnames _ (h.operand hi x hx)⟩

namespace Expr

variable {e : Expr} {t : Nat} {names : List String}

lemma operand_declared (hreads : ∀ name span, .read name span ∈ e.uses → name ∈ names)
    (htemps : ∀ k, t ≤ k → k < t + e.temps → (Symbol.temp k).text ∈ names) {x : Symbol}
    (h : e.operand t = .symbol x) : x.text ∈ names := by
  cases e with
  | ident name span =>
    cases h
    exact hreads name span (by simp [uses, reads])
  | number x span => cases h
  | string s span =>
    cases h
    exact htemps t (by omega) (by simp [temps])
  | binary op l r span =>
    cases h
    exact htemps _ (by omega) (by simp only [temps]; omega)

lemma declared_code (hreads : ∀ name span, .read name span ∈ e.uses → name ∈ names)
    (htemps : ∀ k, t ≤ k → k < t + e.temps → (Symbol.temp k).text ∈ names) :
    ∀ i ∈ e.code t, i.Declared names := by
  induction e generalizing t with
  | ident name span => simp [code]
  | number x span => simp [code]
  | string s span =>
    intro i hi
    rw [List.mem_singleton.mp hi]
    refine ⟨?_, ?_⟩
    · rintro x ⟨⟩
      exact htemps t (by omega) (by simp [temps])
    · rintro - x (h | h) <;> cases h
  | binary op l r span ihl ihr =>
    rw [uses_binary] at hreads
    simp only [temps] at htemps
    have hleft : ∀ name span, .read name span ∈ l.uses → name ∈ names :=
      fun name span h => hreads name span (List.mem_append_left _ h)
    have hright : ∀ name span, .read name span ∈ r.uses → name ∈ names :=
      fun name span h => hreads name span (List.mem_append_right _ h)
    have hltemps : ∀ k, t ≤ k → k < t + l.temps → (Symbol.temp k).text ∈ names :=
      fun k hle hlt => htemps k hle (by omega)
    have hrtemps : ∀ k, t + l.temps ≤ k → k < t + l.temps + r.temps →
        (Symbol.temp k).text ∈ names :=
      fun k hle hlt => htemps k (by omega) (by omega)
    intro i hi
    rcases List.mem_append.mp hi with hi | hi
    · exact (List.mem_append.mp hi).elim (ihl hleft hltemps i) (ihr hright hrtemps i)
    · rw [List.mem_singleton.mp hi]
      refine ⟨?_, ?_⟩
      · rintro x ⟨⟩
        exact htemps _ (by omega) (by omega)
      · rintro - x (h | h)
        · exact operand_declared hleft hltemps (Option.some.inj h)
        · exact operand_declared hright hrtemps (Option.some.inj h)

/-- The names of an expression and of an instruction after it that reads its value. -/
lemma declared_append {i : Instruction}
    (hreads : ∀ name span, .read name span ∈ e.uses → name ∈ names)
    (htemps : ∀ name ∈ tempNames t e.temps, name ∈ names)
    (hleft : i.operand1 = some (e.operand t)) (hright : i.operand2 = none)
    (hresult : ∀ x, i.result = some x → x.text ∈ names) :
    ∀ j ∈ e.code t ++ [i], j.Declared names := by
  have hnumbers : ∀ k, t ≤ k → k < t + e.temps → (Symbol.temp k).text ∈ names :=
    fun k hle hlt => htemps _ (mem_tempNames.mpr ⟨k, hle, hlt, rfl⟩)
  intro j hj
  rcases List.mem_append.mp hj with hj | hj
  · exact declared_code hreads hnumbers j hj
  · rw [List.mem_singleton.mp hj]
    refine ⟨hresult, ?_⟩
    rintro - x (h | h)
    · exact operand_declared hreads hnumbers (Option.some.inj (hleft.symm.trans h))
    · cases hright.symm.trans h

end Expr

/-- An instruction without operands and result. -/
lemma Instruction.declared_of_bare {i : Instruction} {names : List String}
    (hi : i.opcode = .label ∨ i.operand1 = none) (hright : i.operand2 = none)
    (hresult : i.result = none) : i.Declared names := by
  refine ⟨fun x hx => ?_, fun hlabel x hx => ?_⟩
  · cases hresult.symm.trans hx
  · rcases hx with h | h
    · cases (hi.resolve_left hlabel).symm.trans h
    · cases hright.symm.trans h

/-- The names in the code of a statement are those that it declares and those that it reads. -/
lemma Statement.declared_code {s : Statement} {t l : Nat} {names : List String}
    (hreads : ∀ name span, .read name span ∈ s.uses → name ∈ names)
    (hdeclared : ∀ name ∈ s.declared t, name ∈ names) :
    ∀ i ∈ s.code t l, i.Declared names := by
  induction s generalizing t l with
  | assign name e span =>
    refine Expr.declared_append (fun x span h => hreads x span (List.mem_append_left _ h))
      (fun x h => hdeclared x (List.mem_append_left _ h)) rfl rfl ?_
    rintro x ⟨⟩
    exact hdeclared name (List.mem_append_right _ List.mem_cons_self)
  | print item span =>
    cases item with
    | none =>
      intro i hi
      rw [List.mem_singleton.mp hi]
      exact Instruction.declared_of_bare (.inr rfl) rfl rfl
    | some e =>
      exact Expr.declared_append (fun x span h => hreads x span (by simpa [uses] using h)) hdeclared
        rfl rfl (by simp [printInstruction])
  | ifThen c s span ih =>
    rw [code_ifThen, List.forall_mem_append, List.forall_mem_append, List.forall_mem_singleton]
    refine ⟨⟨?_, ?_⟩, Instruction.declared_of_bare (.inl rfl) rfl rfl⟩
    · exact Expr.declared_append (fun x span h => hreads x span (List.mem_append_left _ h))
        (fun x h => hdeclared x (List.mem_append_left _ h)) rfl rfl (by simp [branchInstruction])
    · exact ih (fun x span h => hreads x span (List.mem_append_right _ h))
        fun x h => hdeclared x (List.mem_append_right _ h)
  | ifThenElse c s e span ihs ihe =>
    have hlabel (k : Nat) (remark : String) :
        ∀ i ∈ [labelInstruction k remark], i.Declared names := by
      rw [List.forall_mem_singleton]
      exact Instruction.declared_of_bare (.inl rfl) rfl rfl
    have hskip : ∀ i ∈ [skipInstruction (l + 1)], i.Declared names := by
      rw [List.forall_mem_singleton]
      exact Instruction.declared_of_bare (.inr rfl) rfl rfl
    rw [code_ifThenElse]
    refine List.forall_mem_append.mpr ⟨?_, List.forall_mem_append.mpr
      ⟨List.forall_mem_append.mpr ⟨?_, hskip⟩, List.forall_mem_append.mpr
        ⟨List.forall_mem_append.mpr ⟨hlabel _ _, ?_⟩, hlabel _ _⟩⟩⟩
    · exact Expr.declared_append
        (fun x span h => hreads x span (List.mem_append_left _ (List.mem_append_left _ h)))
        (fun x h => hdeclared x (List.mem_append_left _ (List.mem_append_left _ h))) rfl rfl
        (by simp [branchInstruction])
    · exact ihs (fun x span h => hreads x span (List.mem_append_left _ (List.mem_append_right _ h)))
        fun x h => hdeclared x (List.mem_append_left _ (List.mem_append_right _ h))
    · exact ihe (fun x span h => hreads x span (List.mem_append_right _ h))
        fun x h => hdeclared x (List.mem_append_right _ h)
  | goto e span =>
    exact Expr.declared_append hreads hdeclared rfl rfl (by simp [gotoInstruction])
  | gosub e span =>
    exact Expr.declared_append hreads hdeclared rfl rfl (by simp [gosubInstruction])
  | ret span =>
    intro i hi
    rw [List.mem_singleton.mp hi]
    exact Instruction.declared_of_bare (.inr rfl) rfl rfl
  | input names' span =>
    intro i hi
    obtain ⟨name, hname, rfl⟩ := List.mem_map.mp hi
    refine ⟨?_, ?_⟩
    · rintro x ⟨⟩
      exact hdeclared name hname
    · rintro - x (h | h) <;> cases h
  | halt span =>
    intro i hi
    rw [List.mem_singleton.mp hi]
    exact Instruction.declared_of_bare (.inr rfl) rfl rfl

/-! ### Statements that are read from a text -/

/-- The names of a statement are words in capitals, and every `INPUT` has a name. -/
structure Statement.Named (s : Statement) : Prop where
  isName : ∀ x ∈ s.uses, IsName x.name
  inputs : s.InputsNamed

namespace Statement

lemma Written.named {s : Statement} (h : s.Written) : s.Named := by
  refine ⟨fun x hx => ?_, h.wellFormed.inputsNamed⟩
  obtain ⟨ts, hts, hphrase⟩ := h
  obtain ⟨t, ht, hkind⟩ := hphrase.exists_ident x hx
  exact hts t ht x.name hkind

lemma Named.of_mem_parts {s s' : Statement} (h : s.Named) (hs : s' ∈ s.parts) : s'.Named := by
  induction s with
  | ifThen c t span ih =>
    rcases List.mem_cons.mp hs with rfl | hs
    · exact h
    · exact ih ⟨fun x hx => h.isName x (List.mem_append_right _ hx), h.inputs⟩ hs
  | ifThenElse c t e span iht ihe =>
    rcases List.mem_cons.mp hs with rfl | hs
    · exact h
    · rcases List.mem_append.mp hs with hs | hs
      · exact iht ⟨fun x hx => h.isName x (List.mem_append_left _ (List.mem_append_right _ hx)),
          h.inputs.1⟩ hs
      · exact ihe ⟨fun x hx => h.isName x (List.mem_append_right _ hx), h.inputs.2⟩ hs
  | _ =>
    rw [List.mem_singleton.mp hs]
    exact h

end Statement

/-! ### Units -/

/-- What holds of the names in a unit. -/
structure CodeUnit.WellNamed (u : CodeUnit) : Prop where
  labels : DefinesLabels 0 u.labels u.code.toList
  temps : Tidy 0 u.temps u.code.toList
  temp_declared : ∀ k < u.temps, (Symbol.temp k).text ∈ u.symbols.names
  declared : ∀ i ∈ u.code.toList, i.Declared u.symbols.names

/-- Lowering the statement adds the instructions to some unit. -/
def Statement.Adds (s : Statement) (block : List Instruction) : Prop :=
  ∃ u v, s.lower u = .ok () v ∧ v.code.toList = u.code.toList ++ block

/-- From one unit to another, instructions were added for statements, one block for each of them,
and the branches of each block stay within it. -/
def CodeUnit.Extends (u v : CodeUnit) (ss : List Statement) : Prop :=
  ∃ blocks, v.code.toList = u.code.toList ++ blocks.flatten ∧
    List.Forall₂ Statement.Adds ss blocks ∧ ∀ block ∈ blocks, BranchesWithin block

lemma CodeUnit.Extends.trans {u v w : CodeUnit} {ss ss' : List Statement} (h : u.Extends v ss)
    (h' : v.Extends w ss') : u.Extends w (ss ++ ss') := by
  obtain ⟨blocks, hcode, hadds, hwithin⟩ := h
  obtain ⟨blocks', hcode', hadds', hwithin'⟩ := h'
  refine ⟨blocks ++ blocks', ?_, List.rel_append hadds hadds',
    List.forall_mem_append.mpr ⟨hwithin, hwithin'⟩⟩
  rw [hcode', hcode, List.flatten_append, List.append_assoc]

/-- If nothing unknown is read, all that is read is known or written. -/
lemma Use.mem_of_firstUnknown_eq_none {known : List String} {us : List Use}
    (h : firstUnknown known us = none) {name : String} {span : Span}
    (hread : .read name span ∈ us) : name ∈ known ∨ .write name ∈ us := by
  induction us generalizing known with
  | nil => cases hread
  | cons u us ih =>
    cases u with
    | read other span' =>
      rw [firstUnknown] at h
      split at h
      next hother =>
        rcases List.mem_cons.mp hread with heq | hread
        · cases heq
          exact .inl hother
        · exact (ih h hread).imp_right (List.mem_cons_of_mem _)
      next => cases h
    | write other =>
      have hread : .read name span ∈ us := (List.mem_cons.mp hread).resolve_left (by simp)
      rcases ih h hread with hknown | hwrite
      · rcases List.mem_append.mp hknown with hknown | hother
        · exact .inl hknown
        · rw [List.mem_singleton.mp hother]
          exact .inr List.mem_cons_self
      · exact .inr (List.mem_cons_of_mem _ hwrite)

namespace CodeUnit

lemma wellNamed_start (symbols : Symbols) : (start symbols).WellNamed where
  labels := ⟨[], rfl, List.nodup_nil, by simp⟩
  temps := tidy_of_silent (by simp [start])
  temp_declared := by simp [start]
  declared := by simp [start]

variable {u v : CodeUnit}

lemma WellNamed.mapLine (h : u.WellNamed) (line : Nat) : (u.mapLine line).WellNamed :=
  ⟨h.labels, h.temps, h.temp_declared, h.declared⟩

/-- Lowering a statement keeps the names of a unit well formed, and adds code whose branches stay
within it. -/
lemma WellNamed.lower (h : u.WellNamed) {s : Statement} (hs : s.Named)
    (hlower : s.lower u = .ok () v) : v.WellNamed ∧ u.Extends v [s] := by
  have hends := s.lower_ends u hs.inputs fun name span hread =>
    .inr (hs.isName _ hread).ne_temp
  rw [hlower] at hends
  cases hunknown : Use.firstUnknown u.symbols.names s.uses with
  | some unknown =>
    rw [hunknown] at hends
    obtain ⟨w, hw⟩ := hends
    cases hw
  | none =>
    rw [hunknown] at hends
    obtain rfl : v = _ := (EStateM.Result.ok.inj hends).2
    have hold : ∀ name ∈ u.symbols.names, name ∈ (u.grow (s.code u.temps u.labels)
        (s.declared u.temps) s.temps s.labels).symbols.names :=
      fun name hname => mem_names_grow.mpr (.inl hname)
    have hnew : ∀ name ∈ s.declared u.temps, name ∈ (u.grow (s.code u.temps u.labels)
        (s.declared u.temps) s.temps s.labels).symbols.names :=
      fun name hname => mem_names_grow.mpr (.inr hname)
    have hextends : u.Extends (u.grow (s.code u.temps u.labels) (s.declared u.temps) s.temps
        s.labels) [s] :=
      ⟨[s.code u.temps u.labels], by simp [grow], .cons ⟨u, _, hlower, rfl⟩ .nil,
        by simpa using s.branchesWithin _ _⟩
    refine ⟨⟨?_, ?_, fun k hk => ?_, ?_⟩, hextends⟩
    · exact h.labels.append (by rw [Nat.zero_add]; exact s.definesLabels _ _)
    · exact h.temps.append (by rw [Nat.zero_add]; exact Statement.tidy hs.isName _ _)
    · by_cases hk' : k < u.temps
      · exact hold _ (h.temp_declared k hk')
      · exact hnew _ (Statement.temp_mem_declared (by omega) hk)
    · refine List.forall_mem_append.mpr ⟨fun i hi => (h.declared i hi).mono hold, ?_⟩
      refine Statement.declared_code (fun name span hread => ?_) hnew
      rcases Use.mem_of_firstUnknown_eq_none hunknown hread with hknown | hwrite
      · exact hold name hknown
      · have hassigned := Statement.mem_assigned_of_write hwrite
        exact hnew name (Statement.mem_declared_of_assigned _ hassigned)

end CodeUnit

/-! ### Runs -/

/-- A statement or a program that is lowered into a unit. -/
inductive Fragment where
  | statement (s : Statement)
  | program (p : Program)

namespace Fragment

/-- Lowers a fragment at the end of a unit. -/
def lower : Fragment → Lower Unit
  | .statement s => s.lower
  | .program p => p.lowerInto

/-- Lowers fragments, one after another. -/
def lowerAll : List Fragment → Lower Unit
  | [] => return ()
  | f :: fs => do
    f.lower
    lowerAll fs

/-- The statements that are lowered for a fragment, in order. -/
def statements : Fragment → List Statement
  | .statement s => [s]
  | .program p => p.lines.map Line.statement

/-- A fragment was read from a text: it is a program that was read, or a statement in one. -/
def Parsed : Fragment → Prop
  | .statement s => ∃ source p, Program.ofText source = .ok p ∧ ∃ l ∈ p.lines, s ∈ l.statement.parts
  | .program p => ∃ source, Program.ofText source = .ok p

end Fragment

/-- Lowering lines keeps the names of a unit well formed. -/
lemma Line.wellNamed_lowerAll {ls : List Line} (hls : ∀ x ∈ ls, x.statement.Named)
    {u v : CodeUnit} (hu : u.WellNamed) (h : lowerAll ls u = .ok () v) :
    v.WellNamed ∧ u.Extends v (ls.map Line.statement) := by
  induction ls generalizing u with
  | nil =>
    cases h
    exact ⟨hu, [], by simp, .nil, by simp⟩
  | cons x xs ih =>
    obtain ⟨⟨⟩, u', hmap, h⟩ := ok_of_bind h
    obtain rfl : u.mapLine x.number = u' := (EStateM.Result.ok.inj hmap).2
    obtain ⟨⟨⟩, w, hx, hxs⟩ := ok_of_bind h
    obtain ⟨hw, hfirst⟩ := (hu.mapLine x.number).lower (hls x List.mem_cons_self) hx
    obtain ⟨hv, hlater⟩ := ih (fun y hy => hls y (List.mem_cons_of_mem _ hy)) hw hxs
    -- Entering a line adds no code.
    have hsame : u.Extends w [x.statement] := hfirst
    exact ⟨hv, hsame.trans hlater⟩

namespace Fragment

variable {f : Fragment} {u v : CodeUnit}

lemma Parsed.named (h : f.Parsed) : ∀ s ∈ f.statements, s.Named := by
  cases f with
  | statement s =>
    obtain ⟨source, p, hp, l, hl, hs⟩ := h
    intro s' hs'
    rw [List.mem_singleton.mp hs']
    exact (Program.written_of_ofText hp l hl).statement.named.of_mem_parts hs
  | program p =>
    obtain ⟨source, hp⟩ := h
    intro s hs
    obtain ⟨l, hl, rfl⟩ := List.mem_map.mp hs
    exact (Program.written_of_ofText hp l hl).statement.named

lemma wellNamed_lower (hf : ∀ s ∈ f.statements, s.Named) (hu : u.WellNamed)
    (h : f.lower u = .ok () v) : v.WellNamed ∧ u.Extends v f.statements := by
  cases f with
  | statement s => exact hu.lower (hf s List.mem_cons_self) h
  | program p =>
    exact Line.wellNamed_lowerAll (fun x hx => hf _ (List.mem_map.mpr ⟨x, hx, rfl⟩)) hu h

/-- Lowering fragments keeps the names of a unit well formed. -/
lemma wellNamed_lowerAll {fs : List Fragment} (hfs : ∀ f ∈ fs, f.Parsed) (hu : u.WellNamed)
    (h : lowerAll fs u = .ok () v) : v.WellNamed ∧ u.Extends v (fs.flatMap statements) := by
  induction fs generalizing u with
  | nil =>
    cases h
    exact ⟨hu, [], by simp, .nil, by simp⟩
  | cons f fs ih =>
    obtain ⟨⟨⟩, w, hf, h⟩ := ok_of_bind h
    obtain ⟨hw, hfirst⟩ := wellNamed_lower (hfs f List.mem_cons_self).named hu hf
    obtain ⟨hv, hlater⟩ := ih (fun f hf => hfs f (List.mem_cons_of_mem _ hf)) hw h
    exact ⟨hv, hfirst.trans hlater⟩

/-- However many statements and programs from texts are lowered into a unit, its names are well
formed. No two instructions define the same label, and every branch goes to a label that is defined
after it in the code of the same statement. Every temporary is declared and used once. All results
and all names that are operands are declared. -/
theorem lowerAll_wellNamed (symbols : Symbols) (fs : List Fragment) (hfs : ∀ f ∈ fs, f.Parsed)
    (u : CodeUnit) (h : lowerAll fs (.start symbols) = .ok () u) :
    (u.code.toList.filterMap Instruction.defines?).Nodup ∧
    (∃ blocks, u.code.toList = blocks.flatten ∧
      List.Forall₂ Statement.Adds (fs.flatMap statements) blocks ∧
      ∀ block ∈ blocks, BranchesWithin block) ∧
    (∀ k, (k < u.temps ∨ ∃ i ∈ u.code.toList, i.Mentions (Symbol.temp k).text) →
      UsedOnce u.code.toList (Symbol.temp k).text ∧ (Symbol.temp k).text ∈ u.symbols.names) ∧
    ∀ i ∈ u.code.toList, i.Declared u.symbols.names := by
  obtain ⟨hu, blocks, hcode, hadds, hwithin⟩ :=
    wellNamed_lowerAll hfs (CodeUnit.wellNamed_start symbols) h
  obtain ⟨ks, hks, hnodup, -⟩ := hu.labels
  refine ⟨?_, ⟨blocks, hcode, hadds, hwithin⟩, fun k hk => ?_, hu.declared⟩
  · rw [hks]
    exact nodup_labelTexts hnodup
  · have hlt : k < u.temps := by
      rcases hk with hlt | ⟨i, hi, hmentions⟩
      · exact hlt
      · have hrange := hu.temps.within i hi k hmentions
        omega
    exact ⟨hu.temps.usedOnce k (Nat.zero_le k) (by omega), hu.temp_declared k hlt⟩

/-- The statement that prints `X`, in `branchingProgram`. -/
def branchingStatement : Statement := .print (some (.string "X" ⟨19, 22⟩)) ⟨13, 22⟩

/-- A program with a conditional that has an alternative. -/
def branchingProgram : Program where
  lines :=
    [⟨10, .ifThenElse (.ident "A" ⟨6, 7⟩) branchingStatement
        (.assign "A" (.binary (.arith .add) (.ident "A" ⟨30, 31⟩) (.number 1 ⟨32, 33⟩) ⟨30, 33⟩)
          ⟨28, 33⟩) ⟨3, 33⟩, ⟨0, 33⟩⟩]
  ascending := by decide

/-- The labels and the number of temporaries of the unit that lowering leaves. -/
def numbering? : EStateM.Result LowerError CodeUnit Unit → Option (List String × Nat)
  | .ok () u => some (u.code.toList.filterMap Instruction.defines?, u.temps)
  | .error _ _ => none

/-- After `branchingProgram`, its inner statement is lowered once more. The unit has the labels
`L2` and `L1`, and the last temporary `t2` is used once. -/
theorem branchingProgram_wellNamed :
    Program.ofText "10 IF A THEN PRINT \"X\" ELSE A=A+1" = .ok branchingProgram ∧
      ∃ u, lowerAll [.program branchingProgram, .statement branchingStatement]
          (.start (.ofNames ["A"])) = .ok () u ∧
        u.code.toList.filterMap Instruction.defines? = ["L2", "L1"] ∧
        UsedOnce u.code.toList "t2" := by
  have hp : Program.ofText "10 IF A THEN PRINT \"X\" ELSE A=A+1" = .ok branchingProgram :=
    Program.eq_ok_of_lines (by decide +kernel)
  have hparsed : ∀ f ∈ [.program branchingProgram, .statement branchingStatement], Parsed f := by
    rw [List.forall_mem_cons, List.forall_mem_singleton]
    exact ⟨⟨_, hp⟩, _, _, hp, _, List.mem_cons_self, by decide⟩
  have hunit :
      numbering? (lowerAll [.program branchingProgram, .statement branchingStatement]
        (.start (.ofNames ["A"]))) = some (["L2", "L1"], 3) := by decide +kernel
  unfold numbering? at hunit
  split at hunit
  next u hlower =>
    obtain ⟨hlabels, hcount⟩ := Prod.mk.inj (Option.some.inj hunit)
    obtain ⟨-, -, htemps, -⟩ := lowerAll_wellNamed _ _ hparsed _ hlower
    exact ⟨hp, u, hlower, hlabels, (htemps 2 (.inl (by omega))).1⟩
  next => cases hunit

end Fragment

end LineBasic
