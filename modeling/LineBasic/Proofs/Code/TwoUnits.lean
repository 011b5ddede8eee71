import LineBasic.Proofs.Code.Renumbering
import LineBasic.Proofs.Code.WellNamed

/-!
# Lowering into two units

Lowering depends on the counters of a unit only through the numbers that it gives.  Two runs are
followed side by side: they go on alike for as long as the same names are known in both units.

* `CodeUnit.Twins`: two units that grew alike from two others;
* `Lower.Alike`, `Lower.Alike.bind`: two computations end alike, with the same error or in twins;
* `Expr.lower_alike`, `Statement.lower_alike`, `Line.lowerAll_alike`: lowering goes on alike;
* `Fragment.lower_renumbered`: lowering into two units, or twice into one.
-/

namespace LineBasic

/-- The new numbers for code of one unit in another. -/
def CodeUnit.renumbering (u u' : CodeUnit) : Renumbering := ⟨u.temps, u.labels, u'.temps, u'.labels⟩

/-- A name that is no temporary. -/
def NoTemp (name : String) : Prop := ∀ i, name ≠ (Symbol.temp i).text

namespace CodeUnit

/-- Two units that grew alike from two others.  The same code was added to both, but for numbers,
and as many temporaries and labels were taken.  What is known in the first is known in the second;
the second knows in addition what it knew before. -/
structure Twins (u₀ u₀' u u' : CodeUnit) : Prop where
  code : ∃ block, u.code.toList = u₀.code.toList ++ block ∧
    u'.code.toList = u₀'.code.toList ++ block.map (u₀.renumbering u₀').instruction ∧
    ∀ i ∈ block, (u₀.renumbering u₀').Fits u.temps u.labels i
  temps_le : u₀.temps ≤ u.temps
  labels_le : u₀.labels ≤ u.labels
  temps_eq : u'.temps = (u₀.renumbering u₀').temp u.temps
  labels_eq : u'.labels = (u₀.renumbering u₀').label u.labels
  kept : ∀ name ∈ u₀.symbols.names, name ∈ u.symbols.names
  known : ∀ name, NoTemp name → name ∈ u.symbols.names → name ∈ u'.symbols.names
  extra : ∀ name, NoTemp name → name ∈ u'.symbols.names →
    name ∈ u.symbols.names ∨ name ∈ u₀'.symbols.names

variable {u₀ u₀' u u' : CodeUnit}

/-- Before anything is added. -/
lemma Twins.start (h : ∀ name, NoTemp name → name ∈ u.symbols.names → name ∈ u'.symbols.names) :
    u.Twins u' u u' where
  code := ⟨[], by simp⟩
  temps_le := Nat.le_refl _
  labels_le := Nat.le_refl _
  temps_eq := (Nat.add_sub_cancel_left ..).symm
  labels_eq := (Nat.add_sub_cancel_left ..).symm
  kept := fun _ hname => hname
  known := h
  extra := fun _ _ hname => .inr hname

/-- Twins grow alike if the same instructions and names are added to both. -/
lemma Twins.grow (h : u₀.Twins u₀' u u') {names names' : List String} {t l : Nat}
    (code : List Instruction)
    (hcode : ∀ i ∈ code, (u₀.renumbering u₀').Fits (u.temps + t) (u.labels + l) i)
    (hnames : ∀ name, NoTemp name → (name ∈ names ↔ name ∈ names')) :
    u₀.Twins u₀' (u.grow code names t l)
      (u'.grow (code.map (u₀.renumbering u₀').instruction) names' t l) where
  code := by
    obtain ⟨block, hu, hu', hfits⟩ := h.code
    refine ⟨block ++ code, ?_, ?_, ?_⟩
    · simp [CodeUnit.grow, hu]
    · simp [CodeUnit.grow, hu']
    · rw [List.forall_mem_append]
      exact ⟨fun i hi => (hfits i hi).mono (Nat.le_add_right ..) (Nat.le_add_right ..), hcode⟩
  temps_le := Nat.le_trans h.temps_le (Nat.le_add_right ..)
  labels_le := Nat.le_trans h.labels_le (Nat.le_add_right ..)
  temps_eq := by
    have hle := h.temps_le
    have heq := h.temps_eq
    simp only [temps_grow, Renumbering.temp, renumbering] at heq ⊢
    omega
  labels_eq := by
    have hle := h.labels_le
    have heq := h.labels_eq
    simp only [labels_grow, Renumbering.label, renumbering] at heq ⊢
    omega
  kept := fun name hname => mem_names_grow.mpr (.inl (h.kept name hname))
  known := fun name hno hname => by
    rcases mem_names_grow.mp hname with hname | hname
    · exact mem_names_grow.mpr (.inl (h.known name hno hname))
    · exact mem_names_grow.mpr (.inr ((hnames name hno).mp hname))
  extra := fun name hno hname => by
    rcases mem_names_grow.mp hname with hname | hname
    · exact (h.extra name hno hname).imp_left fun hname => mem_names_grow.mpr (.inl hname)
    · exact .inl (mem_names_grow.mpr (.inr ((hnames name hno).mpr hname)))

/-- The next labels of twins. -/
lemma Twins.label_add (h : u₀.Twins u₀' u u') (k : Nat) :
    (u₀.renumbering u₀').label (u.labels + k) = u'.labels + k := by
  have hle := h.labels_le
  have heq := h.labels_eq
  simp only [Renumbering.label, renumbering] at heq ⊢
  omega

/-- Entering a line adds nothing but the line. -/
lemma Twins.mapLine (h : u₀.Twins u₀' u u') (line : Nat) :
    u₀.Twins u₀' (u.mapLine line) (u'.mapLine line) :=
  ⟨h.code, h.temps_le, h.labels_le, h.temps_eq, h.labels_eq, h.kept, h.known, h.extra⟩

end CodeUnit

/-! ### Two computations -/

namespace Lower

variable {α β : Type}

/-- How two computations end alike.  Either both have a result, in twins, and no number was given
back.  Or the first fails; then the second fails with the same error, in a twin, if all that it
could know in addition is known by then. -/
def Alike (u₀ u₀' u : CodeUnit) (R : CodeUnit → α → α → Prop)
    (x x' : EStateM.Result LowerError CodeUnit α) : Prop :=
  match x with
  | .ok a v => ∃ a' v', x' = .ok a' v' ∧ u₀.Twins u₀' v v' ∧ u.temps ≤ v.temps ∧
      u.labels ≤ v.labels ∧ R v a a'
  | .error e v =>
    (∀ name, NoTemp name → name ∈ u₀'.symbols.names →
      name ∈ u₀.symbols.names ∨ name ∈ v.symbols.names) →
    ∃ v', x' = .error e v' ∧ u₀.Twins u₀' v v'

/-- Computations without a result. -/
abbrev NoResult : CodeUnit → Unit → Unit → Prop := fun _ _ _ => True

namespace Alike

variable {u₀ u₀' u u' v v' : CodeUnit} {R : CodeUnit → α → α → Prop} {S : CodeUnit → β → β → Prop}

lemma mono {x x' : EStateM.Result LowerError CodeUnit α} (h : Alike u₀ u₀' v R x x')
    (htemps : u.temps ≤ v.temps) (hlabels : u.labels ≤ v.labels) : Alike u₀ u₀' u R x x' := by
  cases x with
  | ok a w =>
    obtain ⟨a', w', hx', htwins, ht, hl, hR⟩ := h
    exact ⟨a', w', hx', htwins, Nat.le_trans htemps ht, Nat.le_trans hlabels hl, hR⟩
  | error e w => exact h

/-- Two computations after two others. -/
lemma bind {x x' : Lower α} {f f' : α → Lower β} (hx : Alike u₀ u₀' u R (x u) (x' u'))
    (hf : ∀ a a' v v', u₀.Twins u₀' v v' → u.temps ≤ v.temps → u.labels ≤ v.labels → R v a a' →
      Alike u₀ u₀' v S (f a v) (f' a' v')) :
    Alike u₀ u₀' u S ((x >>= f) u) ((x' >>= f') u') := by
  rw [bind_eq]
  cases hrun : x u with
  | ok a v =>
    rw [hrun] at hx
    obtain ⟨a', v', hx', htwins, ht, hl, hR⟩ := hx
    rw [bind_of_ok hx']
    exact (hf a a' v v' htwins ht hl hR).mono ht hl
  | error e v =>
    rw [hrun] at hx
    intro hextra
    obtain ⟨v', hx', htwins⟩ := hx hextra
    exact ⟨v', by rw [bind_eq, hx'], htwins⟩

/-- The same is added to twins. -/
lemma grow (h : u₀.Twins u₀' u u') {names names' : List String} {t l : Nat}
    (code : List Instruction)
    (hcode : ∀ i ∈ code, (u₀.renumbering u₀').Fits (u.temps + t) (u.labels + l) i)
    (hnames : ∀ name, NoTemp name → (name ∈ names ↔ name ∈ names')) {a a' : α}
    (hR : R (u.grow code names t l) a a') :
    Alike u₀ u₀' u R (.ok a (u.grow code names t l))
      (.ok a' (u'.grow (code.map (u₀.renumbering u₀').instruction) names' t l)) :=
  ⟨a', _, rfl, h.grow code hcode hnames, Nat.le_add_right .., Nat.le_add_right .., hR⟩

/-- One instruction is added to twins. -/
lemma emit (h : u₀.Twins u₀' u u') {i : Instruction}
    (hi : (u₀.renumbering u₀').Fits u.temps u.labels i) :
    Alike u₀ u₀' u NoResult (Lower.emit i u)
      (Lower.emit ((u₀.renumbering u₀').instruction i) u') := by
  rw [emit_eq, emit_eq]
  refine grow h [i] ?_ (fun _ _ => Iff.rfl) trivial
  rw [List.forall_mem_singleton]
  exact hi

end Alike

end Lower

/-! ### Lowering -/

variable {u₀ u₀' u u' : CodeUnit}

/-- An expression ends alike if its values are the same but for numbers. -/
def SameValue (r : Renumbering) (v : CodeUnit) (o o' : Operand) : Prop :=
  o' = r.operand o ∧ r.Value v.temps o

/-- Temporaries are no names of a program. -/
lemma noTemp_temps (t t' : Nat) (name : String) (h : NoTemp name) :
    name ∈ [(Symbol.temp t).text] ↔ name ∈ [(Symbol.temp t').text] := by
  rw [List.mem_singleton, List.mem_singleton]
  exact iff_of_false (h t) (h t')

/-- Lowering an expression goes on alike. -/
lemma Expr.lower_alike {e : Expr} (he : ∀ x ∈ e.reads, ClearName x.1)
    (h : u₀.Twins u₀' u u') :
    Lower.Alike u₀ u₀' u (SameValue (u₀.renumbering u₀')) (e.lower u) (e.lower u') := by
  induction e generalizing u u' with
  | ident name span =>
    have hname : ClearName name := he (name, span) List.mem_cons_self
    have hget (u : CodeUnit) : (get : Lower CodeUnit) u = .ok u u := rfl
    rw [lower, bind_of_ok (hget u), bind_of_ok (hget u')]
    by_cases hknown : name ∈ u.symbols.names
    · have hknown' := h.known name hname.ne_temp hknown
      rw [if_pos ((u.symbols.contains_iff name).mpr hknown),
        if_pos ((u'.symbols.contains_iff name).mpr hknown')]
      exact ⟨_, u', rfl, h, Nat.le_refl _, Nat.le_refl _, rfl, .given hname⟩
    · rw [if_neg fun hc => hknown ((u.symbols.contains_iff name).mp hc)]
      intro hextra
      have hknown' : name ∉ u'.symbols.names := by
        intro hmem
        rcases h.extra name hname.ne_temp hmem with hmem | hmem
        · exact hknown hmem
        · rcases hextra name hname.ne_temp hmem with hmem | hmem
          · exact hknown (h.kept name hmem)
          · exact hknown hmem
      rw [if_neg fun hc => hknown' ((u'.symbols.contains_iff name).mp hc)]
      exact ⟨u', rfl, h⟩
  | number x span => exact ⟨_, u', rfl, h, Nat.le_refl _, Nat.le_refl _, rfl, .number x⟩
  | string s span =>
    rw [lower, bind_of_ok (Lower.newTemp_eq u), bind_of_ok (Lower.emit_eq _ _),
      bind_of_ok (Lower.newTemp_eq u'), bind_of_ok (Lower.emit_eq _ _), pure_eq, pure_eq,
      CodeUnit.grow_grow, CodeUnit.grow_grow, h.temps_eq]
    have hlt : u.temps < u.temps + 1 := Nat.lt_succ_self _
    refine Lower.Alike.grow h [stringInstruction u.temps s] ?_ (noTemp_temps _ _) ?_
    · rw [List.forall_mem_singleton]
      exact fits_stringInstruction h.temps_le hlt s
    · exact ⟨rfl, .temp h.temps_le hlt⟩
  | binary op l r span ihl ihr =>
    rw [reads, List.forall_mem_append] at he
    rw [lower]
    refine (ihl he.1 h).bind fun left left' v v' hv _ _ hleft => ?_
    refine (ihr he.2 hv).bind fun right right' w w' hw htemps _ hright => ?_
    obtain ⟨rfl, hleft⟩ := hleft
    obtain ⟨rfl, hright⟩ := hright
    rw [bind_of_ok (Lower.newTemp_eq w), bind_of_ok (Lower.emit_eq _ _),
      bind_of_ok (Lower.newTemp_eq w'), bind_of_ok (Lower.emit_eq _ _), pure_eq, pure_eq,
      CodeUnit.grow_grow, CodeUnit.grow_grow, hw.temps_eq]
    have hlt : w.temps < w.temps + 1 := Nat.lt_succ_self _
    refine Lower.Alike.grow hw [binaryInstruction w.temps op left right] ?_
      (noTemp_temps _ _) ?_
    · rw [List.forall_mem_singleton]
      exact fits_binaryInstruction hw.temps_le hlt (hleft.mono (Nat.le_succ_of_le htemps))
        (hright.mono (Nat.le_succ _)) op
    · exact ⟨rfl, .temp hw.temps_le hlt⟩

/-- Reading lines of input goes on alike. -/
lemma Lower.inputs_alike {names : List String} (hnames : ∀ name ∈ names, ClearName name)
    (h : u₀.Twins u₀' u u') :
    Alike u₀ u₀' u NoResult (inputs names u) (inputs names u') := by
  let code := names.map Statement.inputInstruction
  have hcode : code.map (u₀.renumbering u₀').instruction = code := List.map_map
  have hfits : ∀ i ∈ code, (u₀.renumbering u₀').Fits (u.temps + 0) (u.labels + 0) i :=
    List.forall_mem_map.mpr fun name hname => Statement.fits_inputInstruction (hnames name hname)
  have hunit : u'.grow code names 0 0 =
      u'.grow (code.map (u₀.renumbering u₀').instruction) names 0 0 := by rw [hcode]
  rw [inputs_eq, inputs_eq, hunit]
  exact .grow h code hfits (fun _ _ => Iff.rfl) trivial

namespace Statement

open Lower (NoResult)
open Renumbering (fits_of_value fits_of_remark fits_of_target)

/-- Lowering an expression, and then what takes its value. -/
lemma lower_value_alike {e : Expr} (he : ∀ x ∈ e.uses, ClearName x.name) (h : u₀.Twins u₀' u u')
    {f : Operand → Lower Unit} (hf : ∀ o v v', u₀.Twins u₀' v v' →
      (u₀.renumbering u₀').Value v.temps o → Lower.Alike u₀ u₀' v NoResult (f o v)
        (f ((u₀.renumbering u₀').operand o) v')) :
    Lower.Alike u₀ u₀' u NoResult ((e.lower >>= f) u) ((e.lower >>= f) u') := by
  have hreads : ∀ x ∈ e.reads, ClearName x.1 :=
    fun x hx => he (.read x.1 x.2) (Expr.mem_uses.mpr hx)
  refine (Expr.lower_alike hreads h).bind fun o o' v v' hv _ _ hvalue => ?_
  obtain ⟨rfl, hvalue⟩ := hvalue
  exact hf o v v' hv hvalue

/-- Lowering a statement goes on alike. -/
lemma lower_alike {s : Statement} (hs : ∀ x ∈ s.uses, ClearName x.name) (h : u₀.Twins u₀' u u') :
    Lower.Alike u₀ u₀' u NoResult (s.lower u) (s.lower u') := by
  induction s generalizing u u' with
  | assign name e span =>
    rw [uses, List.forall_mem_append, List.forall_mem_singleton] at hs
    refine lower_value_alike hs.1 h fun o v v' hv hvalue => ?_
    rw [bind_of_ok (Lower.declare_eq _ v), bind_of_ok (Lower.declare_eq _ v'), Lower.emit_eq,
      Lower.emit_eq, CodeUnit.grow_grow, CodeUnit.grow_grow]
    refine Lower.Alike.grow hv [assignInstruction name o] ?_ (fun _ _ => Iff.rfl) trivial
    rw [List.forall_mem_singleton]
    exact fits_assignInstruction hs.2 hvalue
  | print item span =>
    cases item with
    | none => exact .emit h (fits_of_remark (by decide) (by decide +kernel))
    | some e =>
      have he : ∀ x ∈ e.uses, ClearName x.name := by simpa [uses] using hs
      exact lower_value_alike he h fun o v v' hv hvalue => .emit hv
        (fits_of_value (by decide) hvalue (by decide +kernel) (by decide +kernel))
  | ifThen c t span ih =>
    rw [uses, List.forall_mem_append] at hs
    refine lower_value_alike hs.1 h fun o v v' hv hvalue => ?_
    rw [bind_of_ok (Lower.newLabel_eq v), bind_of_ok (Lower.newLabel_eq _),
      bind_of_ok (Lower.newLabel_eq v'), bind_of_ok (Lower.newLabel_eq _),
      CodeUnit.grow_grow, CodeUnit.grow_grow, CodeUnit.labels_grow, CodeUnit.labels_grow,
      ← hv.label_add 1]
    have hnew : u₀.Twins u₀' (v.grow [] [] 0 2) (v'.grow [] [] 0 2) :=
      hv.grow [] (by simp) fun _ _ => Iff.rfl
    have hle : u₀.labels ≤ v.labels + 1 := Nat.le_succ_of_le hv.labels_le
    -- The label at the end was taken before the branch, and the branch gives no label back.
    refine .mono (v := v.grow [] [] 0 2) ?_ (Nat.le_refl _) (Nat.le_add_right ..)
    refine .bind (.emit hnew ?_) fun _ _ w w' hw _ hlabels _ => ?_
    · exact fits_of_target (by decide) (forall_mem_some hvalue) hle (Nat.lt_succ_self _)
        (by decide +kernel)
    refine .bind (ih hs.2 hw) fun _ _ x x' hx _ hlabels' _ => .emit hx ?_
    exact fits_labelInstruction hle (Nat.lt_of_lt_of_le hlabels hlabels') (by decide +kernel)
  | ifThenElse c t e span iht ihe =>
    rw [uses, List.forall_mem_append, List.forall_mem_append] at hs
    refine lower_value_alike hs.1.1 h fun o v v' hv hvalue => ?_
    rw [bind_of_ok (Lower.newLabel_eq v), bind_of_ok (Lower.newLabel_eq _),
      bind_of_ok (Lower.newLabel_eq _), bind_of_ok (Lower.newLabel_eq v'),
      bind_of_ok (Lower.newLabel_eq _), bind_of_ok (Lower.newLabel_eq _)]
    simp only [CodeUnit.grow_grow, CodeUnit.labels_grow, List.append_nil]
    rw [← hv.label_add 1, ← hv.label_add (1 + 1)]
    have hnew : u₀.Twins u₀' (v.grow [] [] 0 3) (v'.grow [] [] 0 3) :=
      hv.grow [] (by simp) fun _ _ => Iff.rfl
    have hle : u₀.labels ≤ v.labels + 1 := Nat.le_succ_of_le hv.labels_le
    have hle' : u₀.labels ≤ v.labels + 2 := Nat.le_succ_of_le hle
    refine .mono (v := v.grow [] [] 0 3) ?_ (Nat.le_refl _) (Nat.le_add_right ..)
    refine .bind (.emit hnew ?_) fun _ _ w w' hw _ hlabels _ => ?_
    · exact fits_of_target (by decide) (forall_mem_some hvalue) hle' (Nat.lt_succ_self _)
        (by decide +kernel)
    refine .bind (iht hs.1.2 hw) fun _ _ x x' hx _ hlabels' _ => ?_
    have hlt : v.labels + 2 < x.labels := Nat.lt_of_lt_of_le hlabels hlabels'
    have hlt' : v.labels + 1 < x.labels := Nat.lt_of_succ_lt hlt
    refine .bind (.emit hx ?_) fun _ _ y y' hy _ hlabels _ => ?_
    · exact fits_of_target (by decide) (by simp) hle hlt' (by decide +kernel)
    refine .bind (.emit hy ?_) fun _ _ z z' hz _ hlabels' _ => ?_
    · exact fits_labelInstruction hle' (Nat.lt_of_lt_of_le hlt hlabels) (by decide +kernel)
    have hlast : v.labels + 1 < z.labels :=
      Nat.lt_of_lt_of_le hlt' (Nat.le_trans hlabels hlabels')
    refine .bind (ihe hs.2 hz) fun _ _ q q' hq _ hlabels _ => .emit hq ?_
    exact fits_labelInstruction hle (Nat.lt_of_lt_of_le hlast hlabels) (by decide +kernel)
  | goto e span =>
    exact lower_value_alike hs h fun o v v' hv hvalue => .emit hv
      (fits_of_value (by decide) hvalue (by decide +kernel) (by decide +kernel))
  | gosub e span =>
    exact lower_value_alike hs h fun o v v' hv hvalue => .emit hv
      (fits_of_value (by decide) hvalue (by decide +kernel) (by decide +kernel))
  | ret span => exact .emit h (fits_of_remark (by decide) (by decide +kernel))
  | input names span =>
    rw [lower]
    split
    · exact fun _ => ⟨u', rfl, h⟩
    · exact Lower.inputs_alike (fun name hname => hs (.write name) (List.mem_map_of_mem hname)) h
  | halt span => exact .emit h (fits_of_remark (by decide) (by decide +kernel))

end Statement

/-- Lowering lines goes on alike. -/
lemma Line.lowerAll_alike {ls : List Line}
    (hls : ∀ l ∈ ls, ∀ x ∈ l.statement.uses, ClearName x.name) (h : u₀.Twins u₀' u u') :
    Lower.Alike u₀ u₀' u Lower.NoResult (lowerAll ls u) (lowerAll ls u') := by
  induction ls generalizing u u' with
  | nil => exact ⟨(), u', rfl, h, Nat.le_refl _, Nat.le_refl _, trivial⟩
  | cons x xs ih =>
    obtain ⟨hx, hxs⟩ := List.forall_mem_cons.mp hls
    have hmap (u : CodeUnit) : (modify fun u => u.mapLine x.number : Lower PUnit) u =
      .ok () (u.mapLine x.number) := rfl
    have hmapped : u₀.Twins u₀' (u.mapLine x.number) (u'.mapLine x.number) := h.mapLine _
    rw [lowerAll, bind_of_ok (hmap u), bind_of_ok (hmap u')]
    refine .mono (v := u.mapLine x.number) ?_ (Nat.le_refl _) (Nat.le_refl _)
    exact .bind (Statement.lower_alike hx hmapped) fun _ _ v v' hv _ _ _ => ih hxs hv

/-! ### Fragments -/

/-- The uses in a part of a statement are uses in the statement. -/
lemma Statement.mem_uses_of_mem_parts {s s' : Statement} (h : s' ∈ s.parts) {x : Use}
    (hx : x ∈ s'.uses) : x ∈ s.uses := by
  induction s with
  | ifThen c t span ih =>
    rcases List.mem_cons.mp h with rfl | h
    · exact hx
    · exact List.mem_append_right _ (ih h)
  | ifThenElse c t e span iht ihe =>
    rcases List.mem_cons.mp h with rfl | h
    · exact hx
    · rcases List.mem_append.mp h with h | h
      · exact List.mem_append_left _ (List.mem_append_right _ (iht h))
      · exact List.mem_append_right _ (ihe h)
  | _ =>
    rw [List.mem_singleton.mp h] at hx
    exact hx

namespace Fragment

variable {f : Fragment}

/-- The names of a fragment that was read from a text are not taken for temporaries. -/
lemma Parsed.clear (h : f.Parsed) : ∀ s ∈ f.statements, ∀ x ∈ s.uses, ClearName x.name := by
  have hbare : ∀ s ∈ f.statements, ∀ x ∈ s.uses, Text.Bare x.name := by
    cases f with
    | statement s =>
      obtain ⟨source, p, hp, l, hl, hs⟩ := h
      intro s' hs' x hx
      rw [List.mem_singleton.mp hs'] at hx
      exact Program.bare_of_ofText hp l hl x (Statement.mem_uses_of_mem_parts hs hx)
    | program p =>
      obtain ⟨source, hp⟩ := h
      intro s hs
      obtain ⟨l, hl, rfl⟩ := List.mem_map.mp hs
      exact Program.bare_of_ofText hp l hl
  exact fun s hs x hx => ((h.named s hs).isName x hx).clear (hbare s hs x hx)

lemma lower_alike (hf : ∀ s ∈ f.statements, ∀ x ∈ s.uses, ClearName x.name)
    (h : u₀.Twins u₀' u u') : Lower.Alike u₀ u₀' u Lower.NoResult (f.lower u) (f.lower u') := by
  cases f with
  | statement s => exact Statement.lower_alike (hf s List.mem_cons_self) h
  | program p =>
    exact Line.lowerAll_alike (fun l hl => hf _ (List.mem_map_of_mem hl)) h

end Fragment

/-! ### The code that is added -/

/-- Two computations both succeed, or both fail with the same error, and leave two units. -/
def Lower.EndAlike (x x' : EStateM.Result LowerError CodeUnit Unit) (v v' : CodeUnit) : Prop :=
  (x = .ok () v ∧ x' = .ok () v') ∨ ∃ e, x = .error e v ∧ x' = .error e v'

/-- From `u` to `v` instructions were added, with numbers that `u` had not given yet, and from `u'`
to `v'` the same instructions with new numbers.  The new numbers stand in the texts of the
instructions as well, and nothing else in the texts is different. -/
structure CodeUnit.Repeats (u u' v v' : CodeUnit) (block : List Instruction) : Prop where
  added : v.code.toList = u.code.toList ++ block
  repeated : v'.code.toList = u'.code.toList ++ block.map (u.renumbering u').instruction
  texts : (block.map (u.renumbering u').instruction).map Instruction.texts =
    (block.map Instruction.texts).map (u.renumbering u').texts
  owns : ∀ i ∈ block, ∀ s ∈ i.symbols, (u.renumbering u').Owns v.temps v.labels s

lemma CodeUnit.Twins.exists_repeats {v v' : CodeUnit} (h : u.Twins u' v v') :
    ∃ block, u.Repeats u' v v' block := by
  obtain ⟨block, hcode, hcode', hfits⟩ := h.code
  refine ⟨block, hcode, hcode', ?_, fun i hi => (hfits i hi).owns⟩
  rw [List.map_map, List.map_map]
  exact List.map_congr_left fun i hi => (hfits i hi).texts

/-- Code that is repeated in the unit that it was added to has temporaries and labels of its own. -/
lemma CodeUnit.Repeats.eq_given {v v' : CodeUnit} {block : List Instruction}
    (h : u.Repeats v v v' block) {i j : Instruction} (hi : i ∈ block)
    (hj : j ∈ block.map (u.renumbering v).instruction) {s : Symbol} (hs : s ∈ i.symbols)
    (hs' : s ∈ j.symbols) : ∃ name, s = .given name := by
  obtain ⟨k, hk, rfl⟩ := List.mem_map.mp hj
  rw [Renumbering.symbols_instruction] at hs'
  obtain ⟨old, hold, rfl⟩ := List.mem_map.mp hs'
  have hfrom := h.owns k hk old hold
  have hbelow := h.owns i hi _ hs
  cases old with
  | given name => exact ⟨name, rfl⟩
  | temp n =>
    have hle : u.temps ≤ n := hfrom.1
    have hlt : n + v.temps - u.temps < v.temps := hbelow.2
    omega
  | label n =>
    have hle : u.labels ≤ n := hfrom.1
    have hlt : n + v.labels - u.labels < v.labels := hbelow.2
    omega

namespace Fragment

variable {f : Fragment}

/-- The unit that a fragment leaves. -/
def left (f : Fragment) (u : CodeUnit) : CodeUnit :=
  match f.lower u with
  | .ok () v => v
  | .error _ v => v

/-- Two runs end alike if all that the second one could know in addition is known to the first one
in the end. -/
lemma exists_twins (hf : f.Parsed)
    (hknown : ∀ name, NoTemp name → name ∈ u.symbols.names → name ∈ u'.symbols.names)
    (hextra : ∀ name, NoTemp name → name ∈ u'.symbols.names →
      name ∈ u.symbols.names ∨ name ∈ (f.left u).symbols.names) :
    ∃ v', Lower.EndAlike (f.lower u) (f.lower u') (f.left u) v' ∧ u.Twins u' (f.left u) v' := by
  have halike := lower_alike hf.clear (.start hknown)
  rw [left] at hextra ⊢
  cases hrun : f.lower u with
  | ok a v =>
    rw [hrun] at halike
    obtain ⟨⟨⟩, v', hrun', htwins, -⟩ := halike
    exact ⟨v', .inl ⟨rfl, hrun'⟩, htwins⟩
  | error e v =>
    rw [hrun] at halike hextra
    obtain ⟨v', hrun', htwins⟩ := halike hextra
    exact ⟨v', .inr ⟨e, rfl, hrun'⟩, htwins⟩

/-- **Lowering depends on the counters only through numbers.**  Take a statement or a program that
was read from a text, and lower it into two units that know the same names, temporaries apart.  Both
runs succeed, or both fail with the same error.  In either case the instructions that the second run
adds are those of the first, with new numbers for temporaries and labels and nothing else changed.
If it is lowered twice into one unit, the second run ends as the first one did and repeats its code,
and no temporary and no label is in the code of both. -/
theorem lower_renumbered (f : Fragment) (hf : f.Parsed) :
    (∀ u u' : CodeUnit,
      (∀ name, NoTemp name → (name ∈ u.symbols.names ↔ name ∈ u'.symbols.names)) →
      ∃ v v' block, Lower.EndAlike (f.lower u) (f.lower u') v v' ∧ u.Repeats u' v v' block) ∧
    ∀ u : CodeUnit, ∃ v v' block,
      Lower.EndAlike (f.lower u) (f.lower v) v v' ∧ u.Repeats v v v' block ∧
      ∀ i ∈ block, ∀ j ∈ block.map (u.renumbering v).instruction,
        ∀ s ∈ i.symbols, s ∈ j.symbols → ∃ name, s = .given name := by
  constructor
  · intro u u' hsame
    obtain ⟨v', hends, htwins⟩ := exists_twins hf (fun name hno => (hsame name hno).mp)
      fun name hno hname => .inl ((hsame name hno).mpr hname)
    obtain ⟨block, hrepeats⟩ := htwins.exists_repeats
    exact ⟨f.left u, v', block, hends, hrepeats⟩
  · intro u
    -- Lowering forgets no name, which is seen from a run beside itself.
    obtain ⟨_, -, hself⟩ := exists_twins hf (fun name _ hname => hname)
      fun name _ hname => .inl hname
    obtain ⟨v', hends, htwins⟩ := exists_twins hf (fun name _ => hself.kept name)
      fun name _ hname => .inr hname
    obtain ⟨block, hrepeats⟩ := htwins.exists_repeats
    exact ⟨f.left u, v', block, hends, hrepeats, fun i hi j hj s => hrepeats.eq_given hi hj⟩

/-- A program in which a variable is called like a label and a text like a temporary. -/
def lookalikeProgram : Program where
  lines :=
    [⟨10, .ifThenElse (.ident "L1" ⟨6, 8⟩)
        (.print (some (.string "t0" ⟨20, 24⟩)) ⟨14, 24⟩)
        (.assign "L1" (.binary (.arith .add) (.ident "L1" ⟨33, 35⟩) (.number 1 ⟨36, 37⟩) ⟨33, 37⟩)
          ⟨30, 37⟩) ⟨3, 37⟩, ⟨0, 37⟩⟩]
  ascending := by decide

/-- A unit that knows `L1`, in which seven temporaries and four labels were taken. -/
def laterUnit : CodeUnit := ⟨#[], .ofNames ["L1", "t0"], 7, 4, .empty⟩

/-- The texts of the code that lowering leaves, if it succeeds. -/
def textsLeft? : EStateM.Result LowerError CodeUnit Unit → Option (List Instruction.Texts)
  | .ok () v => some (v.code.toList.map Instruction.texts)
  | .error _ _ => none

/-- In `laterUnit` the temporaries of `lookalikeProgram` are `t7` and `t8` and its labels `L6` and
`L5`; the variable `L1` is still called so. -/
theorem lookalikeProgram_lower_renumbered :
    Program.ofText "10 IF L1 THEN PRINT \"t0\" ELSE L1=L1+1" = .ok lookalikeProgram ∧
      ∃ v, (Fragment.program lookalikeProgram).lower laterUnit = .ok () v ∧
        v.code.toList.map (fun i => i.texts.operand1) =
          [some "L1", some "\"t0\"", some "t7", none, some "L6", some "L1", some "t8",
            some "L5"] ∧
        v.code.toList.map (fun i => i.texts.target) =
          [some "L6", none, none, some "L5", none, none, none, none] := by
  have hp : Program.ofText "10 IF L1 THEN PRINT \"t0\" ELSE L1=L1+1" = .ok lookalikeProgram :=
    Program.eq_ok_of_lines (by decide +kernel)
  let u : CodeUnit := .start (.ofNames ["L1"])
  have hsame : ∀ name, NoTemp name →
      (name ∈ u.symbols.names ↔ name ∈ laterUnit.symbols.names) := by
    intro name hno
    have hzero : name ≠ "t0" := hno 0
    show name ∈ (Symbols.ofNames ["L1"]).names ↔ name ∈ (Symbols.ofNames ["L1", "t0"]).names
    rw [Symbols.mem_names_ofNames, Symbols.mem_names_ofNames]
    simp [hzero]
  obtain ⟨v, v', block, hends, hrepeats⟩ :=
    (lower_renumbered (.program lookalikeProgram) ⟨_, hp⟩).1 u laterUnit hsame
  have htexts : (textsLeft? ((Fragment.program lookalikeProgram).lower u)).map (fun xs =>
      let ys := xs.map (u.renumbering laterUnit).texts
      (ys.map Instruction.Texts.operand1, ys.map Instruction.Texts.target)) =
      some ([some "L1", some "\"t0\"", some "t7", none, some "L6", some "L1", some "t8",
        some "L5"], [some "L6", none, none, some "L5", none, none, none, none]) := by
    decide +kernel
  rcases hends with ⟨hrun, hrun'⟩ | ⟨e, hrun, -⟩
  · have hblock : v.code.toList = block := hrepeats.added
    have hrepeated : v'.code.toList = block.map (u.renumbering laterUnit).instruction :=
      hrepeats.repeated
    rw [hrun, textsLeft?, hblock, Option.map_some, ← hrepeats.texts, ← hrepeated] at htexts
    obtain ⟨hoperands, htargets⟩ := Prod.mk.inj (Option.some.inj htexts)
    rw [List.map_map] at hoperands htargets
    exact ⟨hp, v', hrun', hoperands, htargets⟩
  · rw [hrun] at htexts
    cases htexts

end Fragment

end LineBasic
