import LineBasic.Proofs.Code.Agreement
import Mathlib.Order.Nat

/-!
# Names are known before they are read

Lowering over a table of variables goes through a program once, in the order of its uses, and a
name counts as known from the use that writes it on.

* `Use.Bound`: what a use reads is in the table, or a use before it writes it;
* `Use.firstUnknown_eq_none_iff`: nothing unknown is read exactly if every use is bound;
* `Use.exists_of_firstUnknown`: the first unknown name is read by the first use that is not bound;
* `Program.lower_eq_ok_iff_bound`: lowering succeeds exactly if every use is bound, and otherwise
  it fails at the first one that is not.
-/

namespace LineBasic

namespace Use

/-- What the use with index `i` reads, if it reads a name, is known or is written by a use before
it. -/
def Bound (known : List String) (us : List Use) (i : Nat) : Prop :=
  ∀ name span, us[i]? = some (.read name span) →
    name ∈ known ∨ ∃ j < i, us[j]? = some (.write name)

instance (known : List String) (us : List Use) (i : Nat) : Decidable (Bound known us i) :=
  match h : us[i]? with
  | some (.read name _) =>
    decidable_of_iff (name ∈ known ∨ ∃ j < i, us[j]? = some (.write name)) (by simp [Bound, h])
  | some (.write _) => .isTrue (by simp [Bound, h])
  | none => .isTrue (by simp [Bound, h])

variable {known : List String} {us : List Use} {i : Nat}

lemma bound_read_zero {name : String} {span : Span} :
    Bound known (.read name span :: us) 0 ↔ name ∈ known := by
  simp [Bound]

lemma bound_write_zero (known : List String) (us : List Use) (name : String) :
    Bound known (.write name :: us) 0 := by
  simp [Bound]

/-- After a read, no more names are known than before. -/
lemma bound_read_succ {name : String} {span : Span} :
    Bound known (.read name span :: us) (i + 1) ↔ Bound known us i := by
  refine forall₂_congr fun other span' => imp_congr_right fun _ => or_congr_right ?_
  rw [Nat.exists_lt_succ_left]
  simp

/-- After a write, the name is known. -/
lemma bound_write_succ {name : String} :
    Bound known (.write name :: us) (i + 1) ↔ Bound (known ++ [name]) us i := by
  refine forall₂_congr fun other span' => imp_congr_right fun _ => ?_
  rw [Nat.exists_lt_succ_left, List.mem_append, List.mem_singleton, or_assoc]
  simp [eq_comm]

/-- Nothing unknown is read exactly if every use is bound. -/
theorem firstUnknown_eq_none_iff : firstUnknown known us = none ↔ ∀ i, Bound known us i := by
  induction us generalizing known with
  | nil => simp [firstUnknown, Bound]
  | cons u us ih =>
    rw [← Nat.and_forall_add_one]
    cases u with
    | read name span =>
      simp only [bound_read_zero, bound_read_succ, ← ih, firstUnknown]
      split
      next hname => simp [hname]
      next hname => simp [hname]
    | write name =>
      simp only [bound_write_zero, bound_write_succ, ← ih, firstUnknown, true_and]

/-- The first unknown name is read by the first use that is not bound. -/
theorem exists_of_firstUnknown {name : String} {span : Span}
    (h : firstUnknown known us = some (name, span)) :
    ∃ i, us[i]? = some (.read name span) ∧ ¬ Bound known us i ∧ ∀ j < i, Bound known us j := by
  induction us generalizing known with
  | nil => cases h
  | cons u us ih =>
    cases u with
    | read other span' =>
      rw [firstUnknown] at h
      split at h
      next hother =>
        obtain ⟨i, hread, hfree, hbefore⟩ := ih h
        refine ⟨i + 1, hread, mt bound_read_succ.mp hfree, ?_⟩
        rw [Nat.forall_lt_succ_left]
        exact ⟨bound_read_zero.mpr hother, fun j hj => bound_read_succ.mpr (hbefore j hj)⟩
      next hother =>
        cases h
        exact ⟨0, rfl, mt bound_read_zero.mp hother, by simp⟩
    | write other =>
      obtain ⟨i, hread, hfree, hbefore⟩ := ih h
      refine ⟨i + 1, hread, mt bound_write_succ.mp hfree, ?_⟩
      rw [Nat.forall_lt_succ_left]
      exact ⟨bound_write_zero _ _ _, fun j hj => bound_write_succ.mpr (hbefore j hj)⟩

end Use

namespace Program

/-- Lowering checks that names are known before they are read.  Take a program that was read from a
text, and lower it over any table of variables.  This succeeds exactly if every name that is read is
in the table or is assigned by a use before it, in the order of the lines and within a line in the
order condition, branch, alternative; an assignment counts only after its value.  Otherwise it fails
with the name and the place of the first use that breaks this rule. -/
theorem lower_eq_ok_iff_bound (source : String) (p : Program) (hp : ofText source = .ok p)
    (symbols : Symbols) :
    ((∃ u, p.lower symbols = .ok u) ↔ ∀ i, Use.Bound symbols.names (Line.uses p.lines) i) ∧
    ((¬ ∀ i, Use.Bound symbols.names (Line.uses p.lines) i) →
      ∃ i name span, (Line.uses p.lines)[i]? = some (.read name span) ∧
        ¬ Use.Bound symbols.names (Line.uses p.lines) i ∧
        (∀ j < i, Use.Bound symbols.names (Line.uses p.lines) j) ∧
        p.lower symbols = .error (.undefinedIdentifier name span)) := by
  have hlower := lower_eq (written_of_ofText hp) symbols
  rw [← Use.firstUnknown_eq_none_iff]
  cases hfirst : Use.firstUnknown symbols.names (Line.uses p.lines) with
  | none =>
    rw [hfirst] at hlower
    exact ⟨iff_of_true ⟨_, hlower⟩ rfl, fun hsome => absurd rfl hsome⟩
  | some unknown =>
    obtain ⟨name, span⟩ := unknown
    rw [hfirst] at hlower
    refine ⟨iff_of_false ?_ (by simp), fun _ => ?_⟩
    · rintro ⟨u, hu⟩
      cases hu.symm.trans hlower
    · obtain ⟨i, hread, hfree, hbefore⟩ := Use.exists_of_firstUnknown hfirst
      exact ⟨i, name, span, hread, hfree, hbefore, hlower⟩

/-- A program that assigns `B` in a branch and prints it in the alternative, and that reads `C` to
assign it. -/
def countingProgram : Program where
  lines :=
    [⟨10, .ifThenElse (.ident "A" ⟨6, 7⟩) (.assign "B" (.number 1 ⟨15, 16⟩) ⟨13, 16⟩)
        (.print (some (.ident "B" ⟨28, 29⟩)) ⟨22, 29⟩) ⟨3, 29⟩, ⟨0, 29⟩⟩,
     ⟨20, .assign "C" (.binary (.arith .add) (.ident "C" ⟨35, 36⟩) (.number 1 ⟨37, 38⟩) ⟨35, 38⟩)
        ⟨33, 38⟩, ⟨30, 38⟩⟩]
  ascending := by decide

/-- Over a table with `A` and `C`, `countingProgram` is lowered.  Over one with `A` alone, lowering
fails where `C` is read, and not where `B` is. -/
theorem countingProgram_lower_bound :
    ofText "10 IF A THEN B=1 ELSE PRINT B\n20 C=C+1\n" = .ok countingProgram ∧
      (∃ u, countingProgram.lower (.ofNames ["A", "C"]) = .ok u) ∧
      countingProgram.lower (.ofNames ["A"]) = .error (.undefinedIdentifier "C" ⟨35, 36⟩) := by
  have hp : ofText "10 IF A THEN B=1 ELSE PRINT B\n20 C=C+1\n" = .ok countingProgram :=
    eq_ok_of_lines (by decide +kernel)
  let uses := Line.uses countingProgram.lines
  have hboth : ∀ i, Use.Bound (Symbols.ofNames ["A", "C"]).names uses i :=
    Use.firstUnknown_eq_none_iff.mp (by decide +kernel)
  have hthird : ¬ Use.Bound (Symbols.ofNames ["A"]).names uses 3 := by decide +kernel
  have hearlier : ∀ i < 3, Use.Bound (Symbols.ofNames ["A"]).names uses i := by decide +kernel
  refine ⟨hp, (lower_eq_ok_iff_bound _ _ hp _).1.mpr hboth, ?_⟩
  obtain ⟨i, name, span, hread, hfree, hbefore, hlower⟩ :=
    (lower_eq_ok_iff_bound _ _ hp (.ofNames ["A"])).2 fun hall => hthird (hall 3)
  rcases Nat.lt_trichotomy i 3 with hlt | rfl | hgt
  · exact absurd (hearlier i hlt) hfree
  · cases hread
    exact hlower
  · exact absurd (hbefore 3 hgt) hthird

end Program

end LineBasic
