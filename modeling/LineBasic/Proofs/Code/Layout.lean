import LineBasic.Code.Lower
import LineBasic.Proofs.Computation
import LineBasic.Proofs.Symbols
import LineBasic.Proofs.Uses

/-!
# The layout of flat code

Lowering as a function of the tree and of the numbers that temporaries and labels start from:

* `Expr.code`, `Expr.operand`: the instructions of an expression, and where its value is then;
* `Statement.code`: the instructions of a statement;
* `CodeUnit.grow`: a unit with instructions, names and numbers added at its end;
* `Expr.lower_ends`, `Statement.lower_ends`: lowering fails at the first name that is read and not
  declared, and adds the code of what it lowers if there is none;
* `Line.lowerAll_ends`: the same for the lines of a program, with the place of each line.
-/

namespace LineBasic

/-- The names of `n` temporaries, from number `t` on. -/
def tempNames (t n : Nat) : List String := (List.range' t n).map fun i => (Symbol.temp i).text

lemma tempNames_add (t n k : Nat) :
    tempNames t (n + k) = tempNames t n ++ tempNames (t + n) k := by
  rw [tempNames, ← List.range'_append_1, List.map_append]
  rfl

lemma mem_tempNames {t n : Nat} {name : String} :
    name ∈ tempNames t n ↔ ∃ i, t ≤ i ∧ i < t + n ∧ name = (Symbol.temp i).text := by
  simp only [tempNames, List.mem_map, List.mem_range'_1]
  constructor
  · rintro ⟨i, ⟨hle, hlt⟩, rfl⟩
    exact ⟨i, hle, hlt, rfl⟩
  · rintro ⟨i, hle, hlt, rfl⟩
    exact ⟨i, ⟨hle, hlt⟩, rfl⟩

/-! ### Expressions -/

namespace Expr

/-- The number of temporaries that an expression takes. -/
def temps : Expr → Nat
  | .ident .. => 0
  | .number .. => 0
  | .string .. => 1
  | .binary _ l r _ => l.temps + r.temps + 1

/-- Where the value of an expression is, if its temporaries start at `t`. -/
def operand (t : Nat) : Expr → Operand
  | .ident name _ => .symbol (.given name)
  | .number x _ => .number x
  | .string .. => .symbol (.temp t)
  | .binary _ l r _ => .symbol (.temp (t + l.temps + r.temps))

/-- The instruction that puts a text into a temporary. -/
def stringInstruction (t : Nat) (s : String) : Instruction where
  opcode := .assign
  operand1 := some (.quoted s)
  result := some (.temp t)
  comment := some [.words "string literal into ", .operand (.symbol (.temp t))]

/-- The instruction that applies an operator. -/
def binaryInstruction (t : Nat) (op : BinaryOp) (left right : Operand) : Instruction where
  opcode := .ofOperator op
  operand1 := some left
  operand2 := some right
  result := some (.temp t)
  comment := some [.words op.verb, .operand left, .words (" " ++ op.symbol ++ " "), .operand right]

/-- The instructions of an expression whose temporaries start at `t`. -/
def code (t : Nat) : Expr → List Instruction
  | .ident .. => []
  | .number .. => []
  | .string s _ => [stringInstruction t s]
  | .binary op l r _ =>
    l.code t ++ r.code (t + l.temps) ++
      [binaryInstruction (t + l.temps + r.temps) op (l.operand t) (r.operand (t + l.temps))]

/-- An expression reads known names only. -/
def Reads (known : List String) (e : Expr) : Prop := ∀ x ∈ e.reads, x.1 ∈ known

end Expr

/-! ### Statements -/

namespace Statement

/-- The number of temporaries that a statement takes. -/
def temps : Statement → Nat
  | .assign _ e _ => e.temps
  | .print (some e) _ => e.temps
  | .print none _ => 0
  | .ifThen c t _ => c.temps + t.temps
  | .ifThenElse c t e _ => c.temps + t.temps + e.temps
  | .goto e _ => e.temps
  | .gosub e _ => e.temps
  | .ret _ => 0
  | .input .. => 0
  | .halt _ => 0

/-- The number of labels that a statement takes. -/
def labels : Statement → Nat
  | .ifThen _ t _ => 2 + t.labels
  | .ifThenElse _ t e _ => 3 + t.labels + e.labels
  | _ => 0

/-- The names that lowering a statement declares, in order. -/
def declared (t : Nat) : Statement → List String
  | .assign name e _ => tempNames t e.temps ++ [name]
  | .print (some e) _ => tempNames t e.temps
  | .print none _ => []
  | .ifThen c s _ => tempNames t c.temps ++ s.declared (t + c.temps)
  | .ifThenElse c s e _ =>
    tempNames t c.temps ++ s.declared (t + c.temps) ++ e.declared (t + c.temps + s.temps)
  | .goto e _ => tempNames t e.temps
  | .gosub e _ => tempNames t e.temps
  | .ret _ => []
  | .input names _ => names
  | .halt _ => []

/-- The instruction that sets a variable. -/
def assignInstruction (name : String) (value : Operand) : Instruction where
  opcode := .assign
  operand1 := some value
  result := some (.given name)
  comment := some [.words "assign ", .operand value, .words (" to " ++ name)]

/-- The instruction that prints a value. -/
def printInstruction (value : Operand) : Instruction where
  opcode := .print
  operand1 := some value
  comment := some [.words "print ", .operand value]

/-- The instruction that prints an empty line. -/
def blankInstruction : Instruction where
  opcode := .print
  comment := some [.words "print a blank line"]

/-- The branch around what a condition guards. -/
def branchInstruction (condition : Operand) (label : Nat) (remark : String) : Instruction where
  opcode := .ifFalse
  operand1 := some condition
  target := some (.label label)
  comment := some [.words remark]

/-- The jump over an alternative. -/
def skipInstruction (label : Nat) : Instruction where
  opcode := .goto
  target := some (.label label)
  comment := some [.words "jump over ELSE"]

/-- The definition of a label. -/
def labelInstruction (label : Nat) (remark : String) : Instruction where
  opcode := .label
  operand1 := some (.symbol (.label label))
  comment := some [.words remark]

/-- The jump to a line. -/
def gotoInstruction (line : Operand) : Instruction where
  opcode := .goto
  operand1 := some line
  comment := some [.words "jump to line ", .operand line]

/-- The call of a line. -/
def gosubInstruction (line : Operand) : Instruction where
  opcode := .gosub
  operand1 := some line
  comment := some [.words "call subroutine at line ", .operand line]

/-- The return from a call. -/
def retInstruction : Instruction where
  opcode := .ret
  comment := some [.words "return to caller"]

/-- The instruction that reads a line of input. -/
def inputInstruction (name : String) : Instruction where
  opcode := .input
  result := some (.given name)
  comment := some [.words ("read " ++ name)]

/-- The end of a run. -/
def haltInstruction : Instruction where
  opcode := .halt
  comment := some [.words "end of program"]

/-- The instructions of a statement whose temporaries start at `t` and whose labels start at `l`.
The first label of a conditional is never used. -/
def code (t l : Nat) : Statement → List Instruction
  | .assign name e _ => e.code t ++ [assignInstruction name (e.operand t)]
  | .print (some e) _ => e.code t ++ [printInstruction (e.operand t)]
  | .print none _ => [blankInstruction]
  | .ifThen c s _ =>
    c.code t ++ branchInstruction (c.operand t) (l + 1) "skip the THEN branch when false" ::
      s.code (t + c.temps) (l + 2) ++ [labelInstruction (l + 1) "end of IF"]
  | .ifThenElse c s e _ =>
    c.code t ++ branchInstruction (c.operand t) (l + 2) "skip to ELSE when false" ::
      s.code (t + c.temps) (l + 3) ++
        skipInstruction (l + 1) :: labelInstruction (l + 2) "ELSE branch" ::
          e.code (t + c.temps + s.temps) (l + 3 + s.labels) ++
            [labelInstruction (l + 1) "end of IF"]
  | .goto e _ => e.code t ++ [gotoInstruction (e.operand t)]
  | .gosub e _ => e.code t ++ [gosubInstruction (e.operand t)]
  | .ret _ => [retInstruction]
  | .input names _ => names.map inputInstruction
  | .halt _ => [haltInstruction]

/-- The code of a conditional: the test, the branch and the label after it. -/
lemma code_ifThen (c : Expr) (s : Statement) (span : Span) (t l : Nat) :
    (Statement.ifThen c s span).code t l =
      c.code t ++ [branchInstruction (c.operand t) (l + 1) "skip the THEN branch when false"] ++
        s.code (t + c.temps) (l + 2) ++ [labelInstruction (l + 1) "end of IF"] := by
  simp [code]

/-- The code of a conditional with an alternative: the test, the branch with the jump over the
alternative, and the alternative between its labels. -/
lemma code_ifThenElse (c : Expr) (s e : Statement) (span : Span) (t l : Nat) :
    (Statement.ifThenElse c s e span).code t l =
      c.code t ++ [branchInstruction (c.operand t) (l + 2) "skip to ELSE when false"] ++
        (s.code (t + c.temps) (l + 3) ++ [skipInstruction (l + 1)] ++
          ([labelInstruction (l + 2) "ELSE branch"] ++
            e.code (t + c.temps + s.temps) (l + 3 + s.labels) ++
              [labelInstruction (l + 1) "end of IF"])) := by
  simp [code]

/-- A statement reads and assigns known names only, and an `INPUT` has a name. -/
def Lowerable (known : List String) : Statement → Prop
  | .assign name e _ => e.Reads known ∧ name ∈ known
  | .print item _ => ∀ e ∈ item, e.Reads known
  | .ifThen c s _ => c.Reads known ∧ s.Lowerable known
  | .ifThenElse c s e _ => c.Reads known ∧ s.Lowerable known ∧ e.Lowerable known
  | .goto e _ => e.Reads known
  | .gosub e _ => e.Reads known
  | .ret _ => True
  | .input names _ => names ≠ [] ∧ ∀ name ∈ names, name ∈ known
  | .halt _ => True

end Statement

/-! ### Growing units -/

namespace CodeUnit

/-- A unit with more instructions, declared names, temporaries and labels. -/
def grow (u : CodeUnit) (code : List Instruction) (names : List String) (temps labels : Nat) :
    CodeUnit :=
  { u with
    code := ⟨u.code.toList ++ code⟩
    symbols := names.foldl Symbols.declare u.symbols
    temps := u.temps + temps
    labels := u.labels + labels }

@[simp]
lemma grow_grow (u : CodeUnit) (code code' : List Instruction) (names names' : List String)
    (temps temps' labels labels' : Nat) :
    (u.grow code names temps labels).grow code' names' temps' labels' =
      u.grow (code ++ code') (names ++ names') (temps + temps') (labels + labels') := by
  simp [grow, Nat.add_assoc]

@[simp]
lemma temps_grow (u : CodeUnit) (code : List Instruction) (names : List String)
    (temps labels : Nat) : (u.grow code names temps labels).temps = u.temps + temps := rfl

@[simp]
lemma labels_grow (u : CodeUnit) (code : List Instruction) (names : List String)
    (temps labels : Nat) : (u.grow code names temps labels).labels = u.labels + labels := rfl

@[simp]
lemma grow_nil (u : CodeUnit) : u.grow [] [] 0 0 = u := by
  simp [grow]

lemma mem_names_grow {u : CodeUnit} {code : List Instruction} {names : List String}
    {temps labels : Nat} {name : String} :
    name ∈ (u.grow code names temps labels).symbols.names ↔ name ∈ u.symbols.names ∨ name ∈ names :=
  Symbols.mem_names_foldl_declare

end CodeUnit

namespace Lower

lemma emit_eq (i : Instruction) (u : CodeUnit) : emit i u = .ok () (u.grow [i] [] 0 0) := by
  have hpush : u.code.push i = ⟨u.code.toList ++ [i]⟩ := Array.ext' (by simp)
  show EStateM.Result.ok () (u.emit i) = _
  simp [CodeUnit.emit, CodeUnit.grow, hpush]

lemma newTemp_eq (u : CodeUnit) :
    newTemp u = .ok (.temp u.temps) (u.grow [] [(Symbol.temp u.temps).text] 1 0) := by
  show EStateM.Result.ok _ _ = _
  simp [CodeUnit.declare, CodeUnit.grow]

lemma newLabel_eq (u : CodeUnit) : newLabel u = .ok (.label u.labels) (u.grow [] [] 0 1) := by
  show EStateM.Result.ok _ _ = _
  simp [CodeUnit.grow]

lemma declare_eq (name : String) (u : CodeUnit) :
    declare name u = .ok () (u.grow [] [name] 0 0) := by
  show EStateM.Result.ok () (u.declare name) = _
  simp [CodeUnit.declare, CodeUnit.grow]

end Lower

/-! ### Lowering -/

/-- How lowering ends: with an error about the first unknown name or, if there is none, with a
result. -/
def Lower.Ends {α : Type} (unknown : Option (String × Span)) (a : α) (u : CodeUnit)
    (r : EStateM.Result LowerError CodeUnit α) : Prop :=
  match unknown with
  | none => r = .ok a u
  | some (name, span) => ∃ v, r = .error (.undefinedIdentifier name span) v

namespace Lower.Ends

variable {α β : Type} {u v w : CodeUnit} {a : α} {b : β} {x : Lower α} {f : α → Lower β}
  {first second : Option (String × Span)}

/-- The first unknown name of two computations is that of the first one, if it has one. -/
lemma bind (hx : Ends first a v (x u)) (hf : Ends second b w (f a v)) :
    Ends (first.or second) b w ((x >>= f) u) := by
  cases first with
  | none =>
    have hok : x u = .ok a v := hx
    rw [Option.none_or, bind_of_ok hok]
    exact hf
  | some unknown =>
    obtain ⟨v', herror⟩ := hx
    refine ⟨v', ?_⟩
    rw [bind_eq, herror]

/-- A computation that knows all its names does not change which name is the first unknown. -/
lemma bind_ok (hx : Ends first a v (x u)) (hf : f a v = .ok b w) :
    Ends first b w ((x >>= f) u) := by
  have hnone : Ends none b w (f a v) := hf
  rw [← Option.or_none (o := first)]
  exact hx.bind hnone

end Lower.Ends

namespace CodeUnit

/-- No name that is read could be taken for a temporary, unless it is declared. -/
def Apart (u : CodeUnit) (us : List Use) : Prop :=
  ∀ name span, .read name span ∈ us → name ∈ u.symbols.names ∨ ∀ i, name ≠ (Symbol.temp i).text

variable {u : CodeUnit} {us vs : List Use}

lemma Apart.left (h : u.Apart (us ++ vs)) : u.Apart us :=
  fun name span hread => h name span (List.mem_append_left _ hread)

lemma Apart.right (h : u.Apart (us ++ vs)) : u.Apart vs :=
  fun name span hread => h name span (List.mem_append_right _ hread)

lemma Apart.grow (h : u.Apart us) (code : List Instruction) (names : List String)
    (temps labels : Nat) : (u.grow code names temps labels).Apart us := by
  intro name span hread
  exact (h name span hread).imp_left fun hname => mem_names_grow.mpr (.inl hname)

end CodeUnit

lemma exists_temp_of_mem_tempNames {t n : Nat} {name : String} (h : name ∈ tempNames t n) :
    ∃ i, name = (Symbol.temp i).text := by
  obtain ⟨i, -, -, rfl⟩ := mem_tempNames.mp h
  exact ⟨i, rfl⟩

namespace Lower.Ends

variable {α : Type} {u v : CodeUnit} {us : List Use} {a : α}
  {r : EStateM.Result LowerError CodeUnit α}

/-- After names were written, they are known. Temporaries make no difference. -/
lemma of_declared {written names : List String} (h : u.Apart us)
    (hwritten : ∀ name ∈ written, name ∈ names)
    (hnames : ∀ name ∈ names, name ∈ written ∨ ∃ i, name = (Symbol.temp i).text)
    (hr : Ends (Use.firstUnknown (names.foldl Symbols.declare u.symbols).names us) a v r) :
    Ends (Use.firstUnknown (u.symbols.names ++ written) us) a v r := by
  rwa [Use.firstUnknown_congr] at hr
  intro name span hread
  rw [Symbols.mem_names_foldl_declare, List.mem_append]
  constructor
  · rintro (hold | hnew)
    · exact .inl hold
    · rcases hnames name hnew with hname | ⟨i, htemp⟩
      · exact .inr hname
      · exact .inl ((h name span hread).resolve_right fun hapart => hapart i htemp)
  · exact Or.imp_right (hwritten name)

/-- After an expression, the names that are read are as known as before. -/
lemma of_temps {t n : Nat} (h : u.Apart us)
    (hr : Ends (Use.firstUnknown ((tempNames t n).foldl Symbols.declare u.symbols).names us) a v
      r) : Ends (Use.firstUnknown u.symbols.names us) a v r := by
  rw [← List.append_nil u.symbols.names]
  exact of_declared h (by simp) (fun _ hname => .inr (exists_temp_of_mem_tempNames hname)) hr

end Lower.Ends

/-- Lowering an expression adds its code and temporaries and gives its operand. It fails at the
first name that is not declared. -/
theorem Expr.lower_ends (e : Expr) (u : CodeUnit) (h : u.Apart e.uses) :
    Lower.Ends (Use.firstUnknown u.symbols.names e.uses) (e.operand u.temps)
      (u.grow (e.code u.temps) (tempNames u.temps e.temps) e.temps 0) (e.lower u) := by
  induction e generalizing u with
  | ident name span =>
    have hget : (get : Lower CodeUnit) u = .ok u u := rfl
    have huses : (Expr.ident name span).uses = [.read name span] := rfl
    rw [lower, bind_of_ok hget, huses, Use.firstUnknown]
    by_cases hname : name ∈ u.symbols.names
    · rw [if_pos hname, if_pos ((u.symbols.contains_iff name).mpr hname)]
      simp [Lower.Ends, Use.firstUnknown, pure_eq, operand, code, temps, tempNames]
    · rw [if_neg hname, if_neg fun hc => hname ((u.symbols.contains_iff name).mp hc)]
      exact ⟨u, rfl⟩
  | number x span =>
    show _ = _
    simp [lower, pure_eq, operand, code, temps, tempNames]
  | string s span =>
    show _ = _
    rw [lower, bind_of_ok (Lower.newTemp_eq u), bind_of_ok (Lower.emit_eq _ _), CodeUnit.grow_grow]
    rfl
  | binary op l r span ihl ihr =>
    rw [uses_binary] at h ⊢
    rw [lower, Use.firstUnknown_append, filterMap_written?_uses, List.append_nil]
    refine (ihl u h.left).bind ?_
    refine .bind_ok (.of_temps h.right (ihr _ (h.right.grow _ _ _ _))) ?_
    rw [bind_of_ok (Lower.newTemp_eq _), bind_of_ok (Lower.emit_eq _ _)]
    simp [pure_eq, operand, code, temps, tempNames_add, binaryInstruction, Nat.add_assoc]
    rfl

/-- Reading lines of input adds one instruction for each name. -/
lemma Lower.inputs_eq (names : List String) (u : CodeUnit) :
    Lower.inputs names u = .ok () (u.grow (names.map Statement.inputInstruction) names 0 0) := by
  induction names generalizing u with
  | nil => simp [inputs, pure_eq]
  | cons name names ih =>
    rw [inputs, bind_of_ok (declare_eq name u), bind_of_ok (emit_eq _ _), ih]
    simp [Statement.inputInstruction]

namespace Statement

/-- Lowering declares what a statement assigns, and temporaries. -/
lemma mem_declared {s : Statement} {t : Nat} {name : String} (h : name ∈ s.declared t) :
    name ∈ s.assigned ∨ ∃ i, name = (Symbol.temp i).text := by
  induction s generalizing t with
  | assign x e span =>
    rcases List.mem_append.mp h with hname | hname
    · exact .inr (exists_temp_of_mem_tempNames hname)
    · exact .inl hname
  | print item span =>
    cases item with
    | none => cases h
    | some e => exact .inr (exists_temp_of_mem_tempNames h)
  | ifThen c s span ih =>
    rcases List.mem_append.mp h with hname | hname
    · exact .inr (exists_temp_of_mem_tempNames hname)
    · exact ih hname
  | ifThenElse c s e span ihs ihe =>
    rcases List.mem_append.mp h with hname | hname
    · rcases List.mem_append.mp hname with hname | hname
      · exact .inr (exists_temp_of_mem_tempNames hname)
      · exact (ihs hname).imp_left (List.mem_append_left _)
    · exact (ihe hname).imp_left (List.mem_append_right _)
  | goto e span => exact .inr (exists_temp_of_mem_tempNames h)
  | gosub e span => exact .inr (exists_temp_of_mem_tempNames h)
  | ret span => cases h
  | input names span => exact .inl h
  | halt span => cases h

/-- Lowering declares everything that a statement assigns. -/
lemma mem_declared_of_assigned {s : Statement} (t : Nat) {name : String}
    (h : name ∈ s.assigned) : name ∈ s.declared t := by
  induction s generalizing t with
  | assign x e span => exact List.mem_append_right _ h
  | ifThen c s span ih => exact List.mem_append_right _ (ih _ h)
  | ifThenElse c s e span ihs ihe =>
    rcases List.mem_append.mp h with hname | hname
    · exact List.mem_append_left _ (List.mem_append_right _ (ihs _ hname))
    · exact List.mem_append_right _ (ihe _ hname)
  | input names span => exact h
  | _ => cases h

/-- Every `INPUT` in a statement has a name. -/
def InputsNamed : Statement → Prop
  | .input names _ => names ≠ []
  | .ifThen _ t _ => t.InputsNamed
  | .ifThenElse _ t e _ => t.InputsNamed ∧ e.InputsNamed
  | _ => True

/-- Lowering a statement adds its code, names and numbers. It fails at the first name that is read
before it is declared. -/
theorem lower_ends (s : Statement) (u : CodeUnit) (hs : s.InputsNamed) (h : u.Apart s.uses) :
    Lower.Ends (Use.firstUnknown u.symbols.names s.uses) ()
      (u.grow (s.code u.temps u.labels) (s.declared u.temps) s.temps s.labels) (s.lower u) := by
  induction s generalizing u with
  | assign name e span =>
    rw [uses] at h ⊢
    rw [lower, Use.firstUnknown_append, Use.firstUnknown, Use.firstUnknown, Option.or_none]
    refine (e.lower_ends u h.left).bind_ok ?_
    rw [bind_of_ok (Lower.declare_eq _ _), Lower.emit_eq]
    simp [code, declared, temps, labels, assignInstruction]
  | print item span =>
    cases item with
    | none =>
      rw [lower, Lower.emit_eq]
      simp [Lower.Ends, uses, Use.firstUnknown, code, declared, temps, labels, blankInstruction]
    | some e =>
      have huses : (Statement.print (some e) span).uses = e.uses := by simp [uses]
      rw [huses] at h ⊢
      rw [lower]
      refine (e.lower_ends u h).bind_ok ?_
      rw [Lower.emit_eq]
      simp [code, declared, temps, labels, printInstruction]
  | ifThen c t span ih =>
    rw [uses] at h ⊢
    rw [lower, Use.firstUnknown_append, Expr.filterMap_written?_uses, List.append_nil]
    refine (c.lower_ends u h.left).bind ?_
    rw [bind_of_ok (Lower.newLabel_eq _), bind_of_ok (Lower.newLabel_eq _),
      bind_of_ok (Lower.emit_eq _ _)]
    simp only [CodeUnit.grow_grow, List.append_nil]
    refine .bind_ok (.of_temps h.right (ih _ hs (h.right.grow _ _ _ _))) ?_
    rw [Lower.defineLabel, Lower.emit_eq]
    simp [code, declared, temps, labels, branchInstruction, labelInstruction]
  | ifThenElse c t e span iht ihe =>
    rw [uses] at h ⊢
    rw [lower, List.append_assoc, Use.firstUnknown_append, Expr.filterMap_written?_uses,
      List.append_nil]
    refine (c.lower_ends u h.left.left).bind ?_
    rw [bind_of_ok (Lower.newLabel_eq _), bind_of_ok (Lower.newLabel_eq _),
      bind_of_ok (Lower.newLabel_eq _), bind_of_ok (Lower.emit_eq _ _)]
    simp only [CodeUnit.grow_grow, List.append_nil]
    rw [Use.firstUnknown_append, t.filterMap_written?_uses]
    refine .bind (.of_temps h.left.right (iht _ hs.1 (h.left.right.grow _ _ _ _))) ?_
    rw [bind_of_ok (Lower.emit_eq _ _), Lower.defineLabel, bind_of_ok (Lower.emit_eq _ _)]
    simp only [CodeUnit.grow_grow, List.append_nil]
    have hwritten : ∀ name ∈ t.assigned,
        name ∈ tempNames u.temps c.temps ++ t.declared (u.temps + c.temps) :=
      fun name hname => List.mem_append_right _ (mem_declared_of_assigned _ hname)
    have hnames : ∀ name ∈ tempNames u.temps c.temps ++ t.declared (u.temps + c.temps),
        name ∈ t.assigned ∨ ∃ i, name = (Symbol.temp i).text := by
      intro name hname
      rcases List.mem_append.mp hname with htemp | hdeclared
      · exact .inr (exists_temp_of_mem_tempNames htemp)
      · exact mem_declared hdeclared
    refine .bind_ok (.of_declared h.right hwritten hnames (ihe _ hs.2 (h.right.grow _ _ _ _))) ?_
    rw [Lower.defineLabel, Lower.emit_eq]
    simp [code, declared, temps, labels, branchInstruction, skipInstruction, labelInstruction,
      Nat.add_assoc]
  | goto e span =>
    rw [uses] at h ⊢
    rw [lower]
    refine (e.lower_ends u h).bind_ok ?_
    rw [Lower.emit_eq]
    simp [code, declared, temps, labels, gotoInstruction]
  | gosub e span =>
    rw [uses] at h ⊢
    rw [lower]
    refine (e.lower_ends u h).bind_ok ?_
    rw [Lower.emit_eq]
    simp [code, declared, temps, labels, gosubInstruction]
  | ret span => exact Lower.emit_eq _ u
  | input names span =>
    have hnone : Use.firstUnknown u.symbols.names (Statement.input names span).uses = none :=
      Use.firstUnknown_eq_none (by simp [uses])
    have hsome : names.isEmpty = false := by simpa [InputsNamed] using hs
    rw [hnone, lower, if_neg (by simp [hsome])]
    exact Lower.inputs_eq names u
  | halt span => exact Lower.emit_eq _ u

end Statement

/-! ### Lines -/

namespace LineMap

lemma get?_insert (m : LineMap) (line index n : Nat) :
    (m.insert line index).get? n = if n = line then some index else m.get? n := by
  obtain ⟨entries, ascending⟩ := m
  have hentries : ((insertEntry line index entries).find? fun e => e.1 == n).map Prod.snd =
      if n = line then some index else (entries.find? fun e => e.1 == n).map Prod.snd := by
    clear ascending
    induction entries with
    | nil =>
      by_cases hn : n = line
      · simp [insertEntry, hn]
      · simp [insertEntry, hn, Ne.symm hn]
    | cons e es ih =>
      rw [insertEntry]
      by_cases hn : n = line
      · subst hn
        rw [if_pos rfl] at ih ⊢
        split
        · simp
        · split
          · simp
          next hne =>
            have hskip : (e.1 == n) = false := by simpa using Ne.symm hne
            rw [List.find?_cons, hskip]
            exact ih
      · have hskip : (line == n) = false := by simpa using Ne.symm hn
        rw [if_neg hn] at ih ⊢
        split
        · rw [List.find?_cons, hskip]
        · split
          next heq => rw [List.find?_cons, List.find?_cons, ← heq, hskip]
          · rw [List.find?_cons, List.find?_cons]
            cases e.1 == n with
            | true => rfl
            | false => exact ih
  exact hentries

end LineMap

namespace Line

/-- The number of temporaries that lines take. -/
def temps : List Line → Nat
  | [] => 0
  | x :: xs => x.statement.temps + temps xs

/-- The number of labels that lines take. -/
def labels : List Line → Nat
  | [] => 0
  | x :: xs => x.statement.labels + labels xs

/-- The instructions of lines whose temporaries start at `t` and whose labels start at `l`. -/
def code (t l : Nat) : List Line → List Instruction
  | [] => []
  | x :: xs => x.statement.code t l ++ code (t + x.statement.temps) (l + x.statement.labels) xs

/-- The names that lowering lines declares, in order. -/
def declared (t : Nat) : List Line → List String
  | [] => []
  | x :: xs => x.statement.declared t ++ declared (t + x.statement.temps) xs

/-- A line map in which lines are entered, if the code of the first one is at `start`. -/
def mapped (start t l : Nat) (map : LineMap) : List Line → LineMap
  | [] => map
  | x :: xs =>
    mapped (start + (x.statement.code t l).length) (t + x.statement.temps)
      (l + x.statement.labels) (map.insert x.number start) xs

/-- Lowering lines adds their code, names and numbers, and enters each line where its code starts.
It fails at the first name that is read before it is declared. -/
theorem lowerAll_ends (ls : List Line) (u : CodeUnit)
    (hs : ∀ x ∈ ls, x.statement.InputsNamed) (h : u.Apart (uses ls)) :
    Lower.Ends (Use.firstUnknown u.symbols.names (uses ls)) ()
      { u.grow (code u.temps u.labels ls) (declared u.temps ls) (temps ls) (labels ls) with
        lineMap := mapped u.code.size u.temps u.labels u.lineMap ls } (lowerAll ls u) := by
  induction ls generalizing u with
  | nil => simp [Lower.Ends, uses, Use.firstUnknown, lowerAll, pure_eq, code, declared, temps,
      labels, mapped]
  | cons x xs ih =>
    have hmap : (modify fun u => u.mapLine x.number : Lower PUnit) u =
      .ok () (u.mapLine x.number) := rfl
    have huses : uses (x :: xs) = x.statement.uses ++ uses xs := List.flatMap_cons
    rw [huses] at h ⊢
    have hleft : (u.mapLine x.number).Apart x.statement.uses := h.left
    have hright : (u.mapLine x.number).Apart (uses xs) := h.right
    let next := (u.mapLine x.number).grow (x.statement.code u.temps u.labels)
      (x.statement.declared u.temps) x.statement.temps x.statement.labels
    have hxs := ih next (fun y hy => hs y (List.mem_cons_of_mem _ hy)) (hright.grow _ _ _ _)
    have hunit : { u.grow (code u.temps u.labels (x :: xs)) (declared u.temps (x :: xs))
          (temps (x :: xs)) (labels (x :: xs)) with
        lineMap := mapped u.code.size u.temps u.labels u.lineMap (x :: xs) } =
      { next.grow (code next.temps next.labels xs) (declared next.temps xs) (temps xs)
          (labels xs) with
        lineMap := mapped next.code.size next.temps next.labels next.lineMap xs } := by
      simp [next, CodeUnit.grow, CodeUnit.mapLine, code, declared, temps, labels, mapped,
        Nat.add_assoc]
    rw [lowerAll, bind_of_ok hmap, Use.firstUnknown_append, Statement.filterMap_written?_uses,
      hunit]
    refine (x.statement.lower_ends _ (hs x List.mem_cons_self) hleft).bind ?_
    exact .of_declared hright (fun _ => Statement.mem_declared_of_assigned _)
      (fun _ => Statement.mem_declared) hxs

lemma temps_append (xs ys : List Line) : temps (xs ++ ys) = temps xs + temps ys := by
  induction xs with
  | nil => simp [temps]
  | cons x xs ih => simp [temps, ih, Nat.add_assoc]

lemma code_append (t l : Nat) (xs ys : List Line) :
    code t l (xs ++ ys) = code t l xs ++ code (t + temps xs) (l + labels xs) ys := by
  induction xs generalizing t l with
  | nil => simp [code, temps, labels]
  | cons x xs ih => simp [code, temps, labels, ih, Nat.add_assoc]

lemma get?_mapped_of_not_mem {start t l n : Nat} {map : LineMap} {ls : List Line}
    (h : n ∉ ls.map Line.number) : (mapped start t l map ls).get? n = map.get? n := by
  induction ls generalizing start t l map with
  | nil => rfl
  | cons x xs ih =>
    rw [List.map_cons, List.mem_cons, not_or] at h
    rw [mapped, ih h.2, LineMap.get?_insert, if_neg h.1]

/-- A line starts after the code of the lines before it. -/
lemma get?_mapped {start t l : Nat} {map : LineMap} {xs ys : List Line} {x : Line}
    (h : ((xs ++ x :: ys).map Line.number).Nodup) :
    (mapped start t l map (xs ++ x :: ys)).get? x.number =
      some (start + (code t l xs).length) := by
  induction xs generalizing start t l map with
  | nil =>
    rw [List.nil_append, List.map_cons, List.nodup_cons] at h
    rw [List.nil_append, mapped, get?_mapped_of_not_mem h.1, LineMap.get?_insert, if_pos rfl]
    rfl
  | cons z zs ih =>
    rw [List.cons_append, List.map_cons, List.nodup_cons] at h
    rw [List.cons_append, mapped, ih h.2, code, List.length_append, Nat.add_assoc]

end Line

end LineBasic
