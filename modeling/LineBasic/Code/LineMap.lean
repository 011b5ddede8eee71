/-!
# Line maps

Where each line of a program starts in flat code. A line map is a list of lines with the index of
their first instruction, in ascending order of the lines.
-/

namespace LineBasic

/-- Lines and the index of their first instruction. -/
structure LineMap where
  entries : List (Nat × Nat)
  ascending : entries.Pairwise fun a b => a.1 < b.1

namespace LineMap

/-- The map without lines. -/
def empty : LineMap := ⟨[], .nil⟩

/-- An entry put at its place. It replaces the entry of the same line. -/
def insertEntry (line index : Nat) : List (Nat × Nat) → List (Nat × Nat)
  | [] => [(line, index)]
  | e :: es =>
    if line < e.1 then (line, index) :: e :: es
    else if line = e.1 then (line, index) :: es
    else e :: insertEntry line index es

theorem line_of_mem_insertEntry {line index : Nat} {e : Nat × Nat} {es : List (Nat × Nat)}
    (h : e ∈ insertEntry line index es) : e.1 = line ∨ e ∈ es := by
  induction es with
  | nil => simp_all [insertEntry]
  | cons k ks ih =>
    rw [insertEntry] at h
    split at h
    · rcases List.mem_cons.1 h with rfl | h
      · exact .inl rfl
      · exact .inr h
    · split at h
      · rcases List.mem_cons.1 h with rfl | h
        · exact .inl rfl
        · exact .inr (List.mem_cons_of_mem _ h)
      · rcases List.mem_cons.1 h with rfl | h
        · exact .inr List.mem_cons_self
        · exact (ih h).imp_right (List.mem_cons_of_mem _)

theorem insertEntry_ascending (line index : Nat) {es : List (Nat × Nat)}
    (sorted : es.Pairwise fun a b => a.1 < b.1) :
    (insertEntry line index es).Pairwise fun a b => a.1 < b.1 := by
  induction es with
  | nil => exact List.pairwise_singleton ..
  | cons k ks ih =>
    obtain ⟨above, rest⟩ := List.pairwise_cons.1 sorted
    rw [insertEntry]
    split
    next before =>
      refine List.pairwise_cons.2 ⟨fun e he => ?_, sorted⟩
      rcases List.mem_cons.1 he with rfl | he
      · exact before
      · exact Nat.lt_trans before (above e he)
    next notBefore =>
      split
      next same => exact List.pairwise_cons.2 ⟨fun e he => same ▸ above e he, rest⟩
      next differs =>
        refine List.pairwise_cons.2 ⟨fun e he => ?_, ih rest⟩
        rcases line_of_mem_insertEntry he with heq | he
        · omega
        · exact above e he

/-- The map in which a line starts at an index. -/
def insert (m : LineMap) (line index : Nat) : LineMap :=
  ⟨insertEntry line index m.entries, insertEntry_ascending line index m.ascending⟩

/-- The index at which a line starts. -/
def get? (m : LineMap) (line : Nat) : Option Nat :=
  (m.entries.find? fun e => e.1 == line).map Prod.snd

/-- The greatest line that starts at an index. -/
def lineAt? (m : LineMap) (index : Nat) : Option Nat :=
  ((m.entries.filter fun e => e.2 == index).getLast?).map Prod.fst

end LineMap

end LineBasic
