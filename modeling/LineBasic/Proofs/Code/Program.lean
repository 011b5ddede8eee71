import LineBasic.Proofs.Check
import LineBasic.Proofs.Code.Simulation

/-!
# The flat code of a checked program

A checked program can be lowered, and its unit has what the code relies on.

* `Program.flat`: the unit that lowering makes;
* `Program.lower_of_checked`: lowering a checked program gives this unit;
* `Program.names_flat`: the names of the unit;
* `Program.Placed`, `Program.placed_of_mapped`: where the code of a line is, and what comes
  after it.
-/

namespace LineBasic

/-! ### What a check gives -/

lemma Expr.reads_of_checked {e : Expr} {known : List String} (h : e.problems known = []) :
    e.Reads known := by
  intro x hx
  have hnone := List.filterMap_eq_nil_iff.mp h x hx
  simpa using hnone

namespace Statement

/-- A checked statement can be lowered. -/
lemma lowerable_of_checked {p : Program} {known : List String} {s : Statement}
    (hchecked : s.problems p known = []) (hwell : s.WellFormed)
    (hassigned : ∀ name ∈ s.assigned, name ∈ known) : s.Lowerable known := by
  induction s with
  | assign name e span =>
    exact ⟨Expr.reads_of_checked hchecked, hassigned name List.mem_cons_self⟩
  | print item span =>
    intro e he
    cases he
    exact Expr.reads_of_checked (by simpa [problems] using hchecked)
  | ifThen c s span ih =>
    rw [problems, List.append_eq_nil_iff] at hchecked
    exact ⟨Expr.reads_of_checked hchecked.1, ih hchecked.2 hwell hassigned⟩
  | ifThenElse c s e span ihs ihe =>
    rw [problems, List.append_eq_nil_iff, List.append_eq_nil_iff] at hchecked
    exact ⟨Expr.reads_of_checked hchecked.1.1,
      ihs hchecked.1.2 hwell.1 fun name h => hassigned name (List.mem_append_left _ h),
      ihe hchecked.2 hwell.2 fun name h => hassigned name (List.mem_append_right _ h)⟩
  | goto e span => exact Expr.reads_of_checked (Program.targetProblems_eq_nil hchecked).1
  | gosub e span => exact Expr.reads_of_checked (Program.targetProblems_eq_nil hchecked).1
  | ret span => trivial
  | input names span => exact ⟨hwell.1, hassigned⟩
  | halt span => trivial

/-- What can be lowered reads known names only. -/
lemma Lowerable.mem_known {known : List String} {s : Statement} (h : s.Lowerable known)
    {name : String} {span : Span} (hread : .read name span ∈ s.uses) : name ∈ known := by
  have hreads {e : Expr} (he : e.Reads known) (hmem : .read name span ∈ e.uses) : name ∈ known :=
    he _ (Expr.mem_uses.mp hmem)
  induction s with
  | assign x e span => exact hreads h.1 (by simpa [uses] using hread)
  | print item span =>
    cases item with
    | none => cases hread
    | some e => exact hreads (h e rfl) (by simpa [uses] using hread)
  | ifThen c s span ih =>
    rcases List.mem_append.mp hread with hc | hs
    · exact hreads h.1 hc
    · exact ih h.2 hs
  | ifThenElse c s e span ihs ihe =>
    rcases List.mem_append.mp hread with hread | he
    · rcases List.mem_append.mp hread with hc | hs
      · exact hreads h.1 hc
      · exact ihs h.2.1 hs
    · exact ihe h.2.2 he
  | goto e span => exact hreads h hread
  | gosub e span => exact hreads h hread
  | ret span => cases hread
  | input names span => simp [uses] at hread
  | halt span => cases hread

lemma WellFormed.inputsNamed {s : Statement} (h : s.WellFormed) : s.InputsNamed := by
  induction s with
  | ifThen c s span ih => exact ih h
  | ifThenElse c s e span ihs ihe => exact ⟨ihs h.1, ihe h.2⟩
  | input names span => exact h.1
  | _ => trivial

/-! ### Names that lowering declares -/

/-- Lowering declares every temporary that a statement takes. -/
lemma temp_mem_declared {s : Statement} {t i : Nat} (hle : t ≤ i) (hlt : i < t + s.temps) :
    (Symbol.temp i).text ∈ s.declared t := by
  induction s generalizing t with
  | assign x e span =>
    exact List.mem_append_left _ (mem_tempNames.mpr ⟨i, hle, hlt, rfl⟩)
  | print item span =>
    cases item with
    | none => exact absurd hlt (by simp only [temps]; omega)
    | some e => exact mem_tempNames.mpr ⟨i, hle, hlt, rfl⟩
  | ifThen c s span ih =>
    have htotal : i < t + (c.temps + s.temps) := hlt
    by_cases hc : i < t + c.temps
    · exact List.mem_append_left _ (mem_tempNames.mpr ⟨i, hle, hc, rfl⟩)
    · exact List.mem_append_right _ (ih (by omega) (by omega))
  | ifThenElse c s e span ihs ihe =>
    have htotal : i < t + (c.temps + s.temps + e.temps) := hlt
    by_cases hc : i < t + c.temps
    · exact List.mem_append_left _ (List.mem_append_left _ (mem_tempNames.mpr ⟨i, hle, hc, rfl⟩))
    · by_cases hs : i < t + c.temps + s.temps
      · exact List.mem_append_left _ (List.mem_append_right _ (ihs (by omega) hs))
      · exact List.mem_append_right _ (ihe (by omega) (by omega))
  | goto e span => exact mem_tempNames.mpr ⟨i, hle, hlt, rfl⟩
  | gosub e span => exact mem_tempNames.mpr ⟨i, hle, hlt, rfl⟩
  | ret span => exact absurd hlt (by simp only [temps]; omega)
  | input names span => exact absurd hlt (by simp only [temps]; omega)
  | halt span => exact absurd hlt (by simp only [temps]; omega)

end Statement

namespace Line

lemma mem_declared {ls : List Line} {t : Nat} {name : String} (h : name ∈ declared t ls) :
    (∃ x ∈ ls, name ∈ x.statement.assigned) ∨ ∃ i, name = (Symbol.temp i).text := by
  induction ls generalizing t with
  | nil => cases h
  | cons x xs ih =>
    rcases List.mem_append.mp h with hfirst | hlater
    · exact (Statement.mem_declared hfirst).imp_left fun hname => ⟨x, List.mem_cons_self, hname⟩
    · refine (ih hlater).imp_left ?_
      rintro ⟨y, hy, hname⟩
      exact ⟨y, List.mem_cons_of_mem _ hy, hname⟩

lemma temp_mem_declared {ls : List Line} {t i : Nat} (hle : t ≤ i) (hlt : i < t + temps ls) :
    (Symbol.temp i).text ∈ declared t ls := by
  induction ls generalizing t with
  | nil => exact absurd hlt (by simp only [temps]; omega)
  | cons x xs ih =>
    have htotal : i < t + (x.statement.temps + temps xs) := by simpa [temps] using hlt
    by_cases hx : i < t + x.statement.temps
    · exact List.mem_append_left _ (Statement.temp_mem_declared hle hx)
    · exact List.mem_append_right _ (ih (by omega) (by omega))

end Line

/-! ### The unit of a program -/

namespace Program

/-- The unit that lowering a program makes. -/
def flat (p : Program) : CodeUnit :=
  { (CodeUnit.start (.ofNames p.assigned)).grow (Line.code 0 0 p.lines) (Line.declared 0 p.lines)
      (Line.temps p.lines) (Line.labels p.lines) with
    lineMap := Line.mapped 0 0 0 .empty p.lines }

variable {p : Program} {f : FlatMachine}

lemma lowerable_of_checked (hp : p.Checked) {x : Line} (hx : x ∈ p.lines) :
    x.statement.Lowerable p.assigned :=
  Statement.lowerable_of_checked (hp.problems x hx) (hp.fromText x hx).statement
    fun _ hname => mem_assigned.mpr ⟨x, hx, hname⟩

/-- Lowering a checked program succeeds. -/
theorem lower_of_checked (hp : p.Checked) : p.lower p.check.symbols = .ok p.flat := by
  have hreads : ∀ name span, .read name span ∈ Line.uses p.lines →
      name ∈ (CodeUnit.start (.ofNames p.assigned)).symbols.names := by
    intro name span hread
    obtain ⟨x, hx, hread⟩ := List.mem_flatMap.mp hread
    exact Symbols.mem_names_ofNames.mpr ((lowerable_of_checked hp hx).mem_known hread)
  have hends := Line.lowerAll_ends p.lines (.start (.ofNames p.assigned))
    (fun x hx => (hp.fromText x hx).statement.inputsNamed)
    (fun name span hread => .inl (hreads name span hread))
  rw [Use.firstUnknown_eq_none hreads] at hends
  have hall : Line.lowerAll p.lines (.start (.ofNames p.assigned)) = .ok () _ := hends
  rw [lower, lowerInto, check, hall]
  rfl

/-- The names of the unit of a program that was read from a text. -/
lemma names_flat (hp : p.FromText) (hf : f.unit = p.flat) : f.Names p.assigned := by
  have hmem {name : String} : name ∈ f.unit.symbols.names ↔
      name ∈ p.assigned ∨ name ∈ Line.declared 0 p.lines := by
    rw [hf]
    exact Symbols.mem_names_foldl_declare.trans (or_congr_left Symbols.mem_names_ofNames)
  have hname : ∀ name ∈ p.assigned, IsName name := by
    intro name hassigned
    obtain ⟨x, hx, hname⟩ := mem_assigned.mp hassigned
    exact (hp x hx).statement.isName name hname
  have htemps : f.unit.temps = 0 + Line.temps p.lines := by rw [hf]; rfl
  refine ⟨hname, fun name h => hmem.mpr (.inl h), fun i hi => ?_, fun name h => ?_⟩
  · exact hmem.mpr (.inr (Line.temp_mem_declared (Nat.zero_le i) (htemps ▸ hi)))
  · rcases hmem.mp h with hassigned | hdeclared
    · exact .inl (hname name hassigned)
    · exact (Line.mem_declared hdeclared).imp_left fun h => hname name (mem_assigned.mpr h)

lemma nodup_labels_flat (hf : f.unit = p.flat) :
    (f.unit.code.toList.filterMap Instruction.defines?).Nodup := by
  rw [hf]
  exact Line.nodup_labels p.lines 0 0

/-! ### Where lines are -/

/-- Where the code of line `n` ends: where the next line starts, or where all code ends. -/
def EndsAt (p : Program) (f : FlatMachine) (n stop : Nat) : Prop :=
  match p.next? n with
  | some k => f.unit.lineMap.get? k = some stop
  | none => f.unit.code.size = stop

/-- The code of a line is at an index, with its temporaries from `t` and its labels from `l`. -/
structure Placed (p : Program) (f : FlatMachine) (x : Line) (start t l : Nat) : Prop where
  mapped : f.unit.lineMap.get? x.number = some start
  code : f.CodeAt start (x.statement.code t l)
  temps : t + x.statement.temps ≤ f.unit.temps
  ends : p.EndsAt f x.number (start + (x.statement.code t l).length)

lemma get?_lineMap_of_split (hf : f.unit = p.flat) {xs ys : List Line} {x : Line}
    (h : p.lines = xs ++ x :: ys) :
    f.unit.lineMap.get? x.number = some (Line.code 0 0 xs).length := by
  have hnodup := p.nodup_numbers
  rw [h] at hnodup
  have hget : (Line.mapped 0 0 0 .empty (xs ++ x :: ys)).get? x.number =
    some (0 + (Line.code 0 0 xs).length) := Line.get?_mapped hnodup
  rw [Nat.zero_add, ← h] at hget
  rw [hf]
  exact hget

/-- Every line of a program has its place in the unit. -/
lemma placed_of_mem (hf : f.unit = p.flat) {x : Line} (hx : x ∈ p.lines) :
    ∃ start t l, p.Placed f x start t l := by
  obtain ⟨xs, ys, hsplit⟩ := List.append_of_mem hx
  have hcode : f.unit.code.toList = Line.code 0 0 xs ++
      (x.statement.code (Line.temps xs) (Line.labels xs) ++
        Line.code (Line.temps xs + x.statement.temps)
          (Line.labels xs + x.statement.labels) ys) := by
    have hall : f.unit.code.toList = Line.code 0 0 p.lines := by rw [hf]; rfl
    rw [hall, hsplit, Line.code_append, Nat.zero_add, Nat.zero_add, Line.code]
  have htemps : f.unit.temps = Line.temps xs + (x.statement.temps + Line.temps ys) := by
    have hall : f.unit.temps = 0 + Line.temps p.lines := by rw [hf]; rfl
    rw [hall, Nat.zero_add, hsplit, Line.temps_append, Line.temps]
  refine ⟨(Line.code 0 0 xs).length, Line.temps xs, Line.labels xs,
    get?_lineMap_of_split hf hsplit, ?_, by omega, ?_⟩
  · have hplace : f.CodeAt 0 f.unit.code.toList := by
      intro k i hk
      rw [Nat.zero_add]
      simpa using hk
    rw [hcode] at hplace
    simpa using hplace.right.left
  · rw [EndsAt, next?_of_split hsplit]
    cases ys with
    | nil =>
      have hlength := congrArg List.length hcode
      simpa [Line.code] using hlength
    | cons y zs =>
      have hsplit' : p.lines = (xs ++ [x]) ++ y :: zs := by simp [hsplit]
      have hget := get?_lineMap_of_split hf hsplit'
      simpa [Line.code_append, Line.code] using hget

/-- A run-time line that has a place is a line of the program, and its code is there. -/
lemma placed_of_mapped (hf : f.unit = p.flat) {line : Int} {index : Nat}
    (h : (lineIndex? line).bind f.unit.lineMap.get? = some index) :
    ∃ x t l, p.lineAt? line = some x ∧ p.Placed f x index t l := by
  obtain ⟨n, hn, hindex⟩ := Option.bind_eq_some_iff.mp h
  cases hget : p.get? n with
  | none =>
    have hnone : f.unit.lineMap.get? n = none := by
      rw [hf]
      exact Line.get?_mapped_of_not_mem (get?_eq_none_iff.mp hget)
    cases hnone.symm.trans hindex
  | some x =>
    obtain ⟨hx, rfl⟩ := mem_of_get? hget
    obtain ⟨start, t, l, hplaced⟩ := placed_of_mem hf hx
    obtain rfl : start = index := Option.some.inj (hplaced.mapped.symm.trans hindex)
    exact ⟨x, t, l, by rw [lineAt?, hn]; exact hget, hplaced⟩

/-- A run-time line without a place is not there. -/
lemma lineAt?_eq_none_of_not_mapped (hf : f.unit = p.flat) {line : Int}
    (h : (lineIndex? line).bind f.unit.lineMap.get? = none) : p.lineAt? line = none := by
  cases hl : p.lineAt? line with
  | none => rfl
  | some x =>
    obtain ⟨hx, hn⟩ := lineAt?_eq_some hl
    obtain ⟨start, t, l, hplaced⟩ := placed_of_mem hf hx
    rw [hn] at h
    cases h.symm.trans hplaced.mapped

end Program

end LineBasic
