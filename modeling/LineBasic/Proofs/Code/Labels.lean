import LineBasic.Proofs.Code.Layout
import LineBasic.Proofs.Code.Operands

/-!
# Labels

Every label is defined once, so that a jump to it goes where it is defined.

* `Statement.definedLabels`: the labels that the code of a statement defines, all of them among
  those that it takes and no two of them equal;
* `Line.nodup_labels`: the same for the code of many lines;
* `FlatMachine.jump_eq`: a jump to a label goes to its definition.
-/

namespace LineBasic

/-- Labels with different numbers are different. -/
lemma nodup_labelTexts {ks : List Nat} (h : ks.Nodup) :
    (ks.map fun i => (Symbol.label i).text).Nodup := by
  rw [List.Nodup, List.pairwise_map]
  exact h.imp fun hne heq => hne (Symbol.text_label_injective heq)

lemma Expr.filterMap_defines? (e : Expr) (t : Nat) :
    (e.code t).filterMap Instruction.defines? = [] := by
  induction e generalizing t with
  | ident name span => rfl
  | number x span => rfl
  | string s span => rfl
  | binary op l r span ihl ihr =>
    have hop : (binaryInstruction (t + l.temps + r.temps) op (l.operand t)
        (r.operand (t + l.temps))).defines? = none := by
      rcases op with (_ | _ | _ | _) | (_ | _ | _ | _ | _ | _) <;> rfl
    simp [code, ihl, ihr, hop]

namespace Statement

/-- The labels that the code of a statement defines, in order, if its labels start at `l`. -/
def definedLabels (l : Nat) : Statement → List Nat
  | .ifThen _ s _ => s.definedLabels (l + 2) ++ [l + 1]
  | .ifThenElse _ s e _ =>
    s.definedLabels (l + 3) ++ (l + 2) :: e.definedLabels (l + 3 + s.labels) ++ [l + 1]
  | _ => []

lemma filterMap_defines? (s : Statement) (t l : Nat) :
    (s.code t l).filterMap Instruction.defines? =
      (s.definedLabels l).map fun i => (Symbol.label i).text := by
  induction s generalizing t l with
  | assign name e span => simp [code, definedLabels, e.filterMap_defines?, assignInstruction,
      Instruction.defines?]
  | print item span =>
    cases item with
    | none => rfl
    | some e => simp [code, definedLabels, e.filterMap_defines?, printInstruction,
        Instruction.defines?]
  | ifThen c s span ih =>
    simp [code, definedLabels, c.filterMap_defines?, ih, branchInstruction, labelInstruction,
      Instruction.defines?, Operand.text]
  | ifThenElse c s e span ihs ihe =>
    simp [code, definedLabels, c.filterMap_defines?, ihs, ihe, branchInstruction, skipInstruction,
      labelInstruction, Instruction.defines?, Operand.text]
  | goto e span => simp [code, definedLabels, e.filterMap_defines?, gotoInstruction,
      Instruction.defines?]
  | gosub e span => simp [code, definedLabels, e.filterMap_defines?, gosubInstruction,
      Instruction.defines?]
  | ret span => rfl
  | input names span =>
    simp [code, definedLabels, inputInstruction, Instruction.defines?]
  | halt span => rfl

lemma mem_definedLabels {s : Statement} {l i : Nat} (h : i ∈ s.definedLabels l) :
    l ≤ i ∧ i < l + s.labels := by
  induction s generalizing l with
  | ifThen c s span ih =>
    simp only [definedLabels, List.mem_append, List.mem_singleton] at h
    simp only [labels]
    rcases h with hinner | rfl
    · have hrange := ih hinner
      omega
    · omega
  | ifThenElse c s e span ihs ihe =>
    simp only [definedLabels, List.mem_append, List.mem_cons] at h
    simp only [labels]
    rcases h with (hinner | rfl | hinner) | rfl | hnil
    · have hrange := ihs hinner
      omega
    · omega
    · have hrange := ihe hinner
      omega
    · omega
    · cases hnil
  | _ => simp [definedLabels] at h

lemma nodup_definedLabels (s : Statement) (l : Nat) : (s.definedLabels l).Nodup := by
  induction s generalizing l with
  | ifThen c s span ih =>
    rw [definedLabels, List.nodup_append]
    refine ⟨ih _, by simp, fun i hi j hj => ?_⟩
    have hrange := mem_definedLabels hi
    have hlast := List.mem_singleton.mp hj
    omega
  | ifThenElse c s e span ihs ihe =>
    rw [definedLabels, List.nodup_append, List.nodup_append, List.nodup_cons]
    refine ⟨⟨ihs _, ⟨fun hmem => ?_, ihe _⟩, fun i hi j hj => ?_⟩, by simp, fun i hi j hj => ?_⟩
    · have hrange := mem_definedLabels hmem
      omega
    · have hrange := mem_definedLabels hi
      rcases List.mem_cons.mp hj with rfl | hmem
      · omega
      · have hrange' := mem_definedLabels hmem
        omega
    · have hlast := List.mem_singleton.mp hj
      rcases List.mem_append.mp hi with hmem | hmem
      · have hrange := mem_definedLabels hmem
        omega
      · rcases List.mem_cons.mp hmem with rfl | hmem
        · omega
        · have hrange := mem_definedLabels hmem
          omega
  | _ => exact List.nodup_nil

end Statement

namespace Line

/-- The labels that the code of lines defines, in order, if their labels start at `l`. -/
def definedLabels (l : Nat) : List Line → List Nat
  | [] => []
  | x :: xs => x.statement.definedLabels l ++ definedLabels (l + x.statement.labels) xs

lemma filterMap_defines? (ls : List Line) (t l : Nat) :
    (code t l ls).filterMap Instruction.defines? =
      (definedLabels l ls).map fun i => (Symbol.label i).text := by
  induction ls generalizing t l with
  | nil => rfl
  | cons x xs ih => simp [code, definedLabels, x.statement.filterMap_defines?, ih]

lemma le_of_mem_definedLabels {ls : List Line} {l i : Nat} (h : i ∈ definedLabels l ls) :
    l ≤ i := by
  induction ls generalizing l with
  | nil => cases h
  | cons x xs ih =>
    rcases List.mem_append.mp h with hfirst | hlater
    · exact (Statement.mem_definedLabels hfirst).1
    · have hle := ih hlater
      omega

/-- No two instructions of lines define the same label. -/
lemma nodup_labels (ls : List Line) (t l : Nat) :
    ((code t l ls).filterMap Instruction.defines?).Nodup := by
  have hnumbers : (definedLabels l ls).Nodup := by
    induction ls generalizing l with
    | nil => exact List.nodup_nil
    | cons x xs ih =>
      rw [definedLabels, List.nodup_append]
      refine ⟨x.statement.nodup_definedLabels l, ih _, fun i hi j hj => ?_⟩
      have hrange := Statement.mem_definedLabels hi
      have hle := le_of_mem_definedLabels hj
      omega
  rw [filterMap_defines?]
  exact nodup_labelTexts hnumbers

end Line

namespace FlatMachine

lemma findIdx?_of_split {before after : List Instruction} {i : Instruction} {name : String}
    (hi : i.defines? = some name)
    (hnodup : ((before ++ i :: after).filterMap Instruction.defines?).Nodup) :
    (before ++ i :: after).findIdx? (fun j => j.defines? == some name) = some before.length := by
  have hfresh : ∀ j ∈ before, j.defines? ≠ some name := by
    intro j hj hdefines
    rw [List.filterMap_append, List.filterMap_cons_some hi, List.nodup_append] at hnodup
    exact hnodup.2.2 name (List.mem_filterMap.mpr ⟨j, hj, hdefines⟩) name List.mem_cons_self rfl
  have hbefore : before.findIdx? (fun j => j.defines? == some name) = none := by
    rw [List.findIdx?_eq_none_iff]
    simpa using hfresh
  rw [List.findIdx?_append, hbefore, List.findIdx?_cons]
  simp [hi]

/-- A jump to a label goes to the instruction that defines it, if no other does. -/
lemma jump_eq {f : FlatMachine} {index label : Nat} {remark : String}
    (hnodup : (f.unit.code.toList.filterMap Instruction.defines?).Nodup)
    (hlabel : f.unit.code[index]? = some (Statement.labelInstruction label remark))
    (s : FlatState) : f.jump s (.label label) = .next (s.goto index) := by
  have hcode : f.unit.code.toList[index]? = some (Statement.labelInstruction label remark) := by
    simpa using hlabel
  obtain ⟨hlt, hget⟩ := List.getElem?_eq_some_iff.mp hcode
  have hsplit : f.unit.code.toList = f.unit.code.toList.take index ++
      Statement.labelInstruction label remark :: f.unit.code.toList.drop (index + 1) := by
    rw [← hget, List.getElem_cons_drop, List.take_append_drop]
  have hdefines : (Statement.labelInstruction label remark).defines? =
    some (Symbol.label label).text := rfl
  have hindex : f.labelIndex? (.label label) = some index := by
    rw [hsplit] at hnodup
    rw [labelIndex?, hsplit, findIdx?_of_split hdefines hnodup, List.length_take,
      Nat.min_eq_left (Nat.le_of_lt hlt)]
  rw [jump, hindex]

end FlatMachine

end LineBasic
