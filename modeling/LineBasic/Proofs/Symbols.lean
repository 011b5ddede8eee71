import LineBasic.Symbols
import Mathlib.Tactic.Lemma

/-!
# Declared variables

Which names a table has after its operations, and what a declaration does to the values:

* `Symbols.mem_names_declare`: one name more at most;
* `Symbols.Extends`: the names of a table stay in their order, and new ones may follow;
* `Symbols.get?_declare`: a declaration changes no value;
* `Symbols.mem_names_ofNames`, `Symbols.names_ofNames`, `Symbols.get?_ofNames`: a new table has the
  names it is made of, in their order and all unset.
-/

namespace LineBasic.Symbols

lemma mem_names_declare {s : Symbols} {name x : String} :
    name ∈ (s.declare x).names ↔ name ∈ s.names ∨ name = x := by
  rw [names_declare]
  split
  next hx =>
    refine ⟨.inl, ?_⟩
    rintro (hname | rfl)
    · exact hname
    · exact hx
  next => simp

/-! ### Tables that grow -/

/-- The table `t` has the names of `s` and then new ones, which are among those given. -/
def Extends (names : List String) (s t : Symbols) : Prop :=
  ∃ new, t.names = s.names ++ new ∧ ∀ name ∈ new, name ∈ names ∧ name ∉ s.names

namespace Extends

variable {names names' : List String} {s t u : Symbols}

lemma refl (names : List String) (s : Symbols) : s.Extends names s :=
  ⟨[], by simp, by simp⟩

lemma mono (h : s.Extends names t) (hnames : ∀ name ∈ names, name ∈ names') :
    s.Extends names' t := by
  obtain ⟨new, ht, hnew⟩ := h
  exact ⟨new, ht, fun name hname => ⟨hnames name (hnew name hname).1, (hnew name hname).2⟩⟩

lemma trans (h : s.Extends names t) (h' : t.Extends names u) : s.Extends names u := by
  obtain ⟨new, ht, hnew⟩ := h
  obtain ⟨new', hu, hnew'⟩ := h'
  refine ⟨new ++ new', by rw [hu, ht, List.append_assoc], List.forall_mem_append.mpr ⟨hnew, ?_⟩⟩
  intro name hname
  obtain ⟨hgiven, hfresh⟩ := hnew' name hname
  rw [ht] at hfresh
  exact ⟨hgiven, fun hold => hfresh (List.mem_append_left _ hold)⟩

lemma set (s : Symbols) {name : String} (h : name ∈ names) (v : Value) :
    s.Extends names (s.set name v) := by
  by_cases hname : name ∈ s.names
  · exact ⟨[], by rw [names_set, if_pos hname, List.append_nil], by simp⟩
  · exact ⟨[name], by rw [names_set, if_neg hname], by simp [h, hname]⟩

/-- A declared name stays declared. -/
lemma mem (h : s.Extends names t) {name : String} (hname : name ∈ s.names) : name ∈ t.names := by
  obtain ⟨new, ht, -⟩ := h
  rw [ht]
  exact List.mem_append_left _ hname

/-- If all names given are declared, there is no new one. -/
lemma names_eq (h : s.Extends names t) (hnames : ∀ name ∈ names, name ∈ s.names) :
    t.names = s.names := by
  obtain ⟨new, ht, hnew⟩ := h
  have hnil : new = [] := List.eq_nil_iff_forall_not_mem.mpr fun name hname =>
    (hnew name hname).2 (hnames name (hnew name hname).1)
  rw [ht, hnil, List.append_nil]

end Extends

/-! ### Declarations -/

/-- A name that was not declared is unset after its declaration, and no value changes. -/
lemma get?_declare (s : Symbols) (x name : String) :
    (s.declare x).get? name = if name = x ∧ name ∉ s.names then some .unset else s.get? name := by
  rw [declare]
  split
  next hx =>
    rw [if_neg]
    rintro ⟨rfl, hfresh⟩
    exact hfresh hx
  next hx =>
    have hset : s.append x .unset hx = s.set x .unset := by rw [set, dif_neg hx]
    rw [hset, get?_set]
    by_cases hname : name = x
    · subst hname
      rw [if_pos rfl, if_pos ⟨rfl, hx⟩]
    · rw [if_neg hname, if_neg fun h => hname h.1]

/-! ### Tables of names -/

lemma mem_names_foldl_declare {names : List String} {s : Symbols} {name : String} :
    name ∈ (names.foldl declare s).names ↔ name ∈ s.names ∨ name ∈ names := by
  induction names generalizing s with
  | nil => simp
  | cons x names ih => rw [List.foldl_cons, ih, mem_names_declare, List.mem_cons, or_assoc]

lemma mem_names_ofNames {names : List String} {name : String} :
    name ∈ (ofNames names).names ↔ name ∈ names := by
  rw [ofNames, mem_names_foldl_declare]
  simp [empty, Symbols.names]

lemma names_foldl_declare {names : List String} {s : Symbols} (h : (s.names ++ names).Nodup) :
    (names.foldl declare s).names = s.names ++ names := by
  induction names generalizing s with
  | nil => simp
  | cons x names ih =>
    have hfresh : x ∉ s.names := fun hx =>
      (List.nodup_append.mp h).2.2 x hx x List.mem_cons_self rfl
    have hdeclare : (s.declare x).names = s.names ++ [x] := by rw [names_declare, if_neg hfresh]
    rw [List.foldl_cons, ih (by rw [hdeclare]; simpa using h), hdeclare]
    simp

/-- A new table lists distinct names in their order. -/
lemma names_ofNames {names : List String} (h : names.Nodup) : (ofNames names).names = names :=
  names_foldl_declare (s := empty) (by simpa [empty, Symbols.names] using h)

lemma unset_foldl_declare {names : List String} {s : Symbols}
    (hs : ∀ name v, s.get? name = some v → v = .unset) :
    ∀ name v, (names.foldl declare s).get? name = some v → v = .unset := by
  induction names generalizing s with
  | nil => exact hs
  | cons x names ih =>
    refine ih fun name v h => ?_
    rw [get?_declare] at h
    split at h
    · cases h
      rfl
    · exact hs name v h

/-- All variables of a new table are unset. -/
lemma get?_ofNames {names : List String} {name : String} (h : name ∈ names) :
    (ofNames names).get? name = some .unset := by
  cases hget : (ofNames names).get? name with
  | none => exact absurd (mem_names_ofNames.mpr h) ((get?_eq_none_iff _ name).mp hget)
  | some v =>
    have hempty : ∀ name v, empty.get? name = some v → v = .unset := by
      intro name v h
      cases h
    rw [unset_foldl_declare hempty name v hget]

end LineBasic.Symbols
