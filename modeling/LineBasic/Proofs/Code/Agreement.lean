import LineBasic.Command
import LineBasic.Proofs.Code.Program

/-!
# The check and lowering agree

The check looks for names that are read and never assigned, and lowering fails at a name that is
not declared. Both go through a program in the same order.

* `Statement.filterMap_unknownName?`: the unknown names that the check reports in a statement are
  those that it reads, in order;
* `Program.findSome?_errors`: the first one reported is the first one that lowering meets;
* `Program.lower_eq`: over any table, lowering fails at the first name that is read and not known,
  and lays the program out if there is none;
* `Program.lower_check`: lowering over the table of the check fails at the first reported
  name, if there is one;
* `Program.check_agrees_with_lower`: lowering fails exactly if the check reports an unknown name,
  and after a check without errors a listing is printed.
-/

namespace LineBasic

/-- The name and place that a finding is about, if it is about a name that is never assigned. -/
def Finding.unknownName? : Finding → Option (String × Span)
  | ⟨.neverAssigned name, span⟩ => some (name, span)
  | _ => none

/-! ### What the check reports -/

lemma Expr.filterMap_unknownName? (known : List String) (e : Expr) :
    (e.problems known).filterMap Finding.unknownName? =
      e.reads.filter fun x => decide (x.1 ∉ known) := by
  rw [problems, List.filterMap_filterMap, ← List.filterMap_eq_filter]
  congr 1
  funext x
  obtain ⟨name, span⟩ := x
  by_cases hname : name ∈ known
  · simp [hname, Option.guard]
  · simp [hname, Option.guard, Finding.unknownName?]

/-- A fixed line that is not there is no unknown name. -/
lemma Program.filterMap_unknownName?_target (p : Program) (known : List String) (target : Expr) :
    (p.targetProblems known target).filterMap Finding.unknownName? =
      target.reads.filter fun x => decide (x.1 ∉ known) := by
  rw [targetProblems, List.filterMap_append, Expr.filterMap_unknownName?]
  cases target.constant? with
  | none => simp
  | some x =>
    dsimp only
    split
    · simp
    · simp [Finding.unknownName?]

/-- The unknown names that the check reports in a statement are those that it reads, in order. -/
lemma Statement.filterMap_unknownName? (p : Program) (known : List String) (s : Statement) :
    (s.problems p known).filterMap Finding.unknownName? =
      (s.uses.filterMap Use.read?).filter fun x => decide (x.1 ∉ known) := by
  induction s with
  | assign name e span =>
    simp [problems, uses, Expr.filterMap_unknownName?, Use.read?]
  | print item span => cases item <;> simp [problems, uses, Expr.filterMap_unknownName?]
  | ifThen c t span ih => simp [problems, uses, Expr.filterMap_unknownName?, ih]
  | ifThenElse c t e span iht ihe =>
    simp [problems, uses, Expr.filterMap_unknownName?, iht, ihe]
  | goto e span => simp [problems, uses, p.filterMap_unknownName?_target]
  | gosub e span => simp [problems, uses, p.filterMap_unknownName?_target]
  | ret span => rfl
  | input names span => simp [problems, uses, Function.comp_def, Use.read?]
  | halt span => rfl

namespace Program

variable {p : Program}

/-- All that a program writes it assigns. -/
lemma mem_assigned_of_write {name : String} (h : .write name ∈ Line.uses p.lines) :
    name ∈ p.assigned := by
  obtain ⟨x, hx, hwrite⟩ := List.mem_flatMap.mp h
  exact mem_assigned.mpr ⟨x, hx, Statement.mem_assigned_of_write hwrite⟩

/-- The first unknown name that the check reports is the first one that lowering meets. -/
lemma findSome?_errors (p : Program) :
    p.check.errors.findSome? Finding.unknownName? =
      Use.firstUnknown p.assigned (Line.uses p.lines) := by
  have hlines (ls : List Line) :
      (ls.flatMap fun l => l.statement.problems p p.assigned).filterMap Finding.unknownName? =
        ((Line.uses ls).filterMap Use.read?).filter fun x => decide (x.1 ∉ p.assigned) := by
    induction ls with
    | nil => rfl
    | cons x xs ih =>
      rw [Line.uses, List.flatMap_cons, List.flatMap_cons, List.filterMap_append,
        List.filterMap_append, List.filter_append, x.statement.filterMap_unknownName?, ih,
        Line.uses]
  calc p.check.errors.findSome? Finding.unknownName?
      = (p.problems.filterMap Finding.unknownName?).head? := List.head?_filterMap.symm
    _ = (((Line.uses p.lines).filterMap Use.read?).filter fun x =>
          decide (x.1 ∉ p.assigned)).head? := by rw [problems, hlines]
    _ = ((Line.uses p.lines).filterMap Use.read?).find? fun x => decide (x.1 ∉ p.assigned) :=
        List.head?_filter ..
    _ = Use.firstUnknown p.assigned (Line.uses p.lines) :=
        (Use.firstUnknown_eq_find? fun _ => mem_assigned_of_write).symm

/-! ### What lowering does -/

/-- No name of a program that is read from a text could be taken for a temporary. -/
lemma apart_of_written (hp : ∀ l ∈ p.lines, l.Written) (u : CodeUnit) :
    u.Apart (Line.uses p.lines) := by
  intro name span hread
  obtain ⟨x, hx, hread⟩ := List.mem_flatMap.mp hread
  exact .inr ((hp x hx).statement.isName hread).ne_temp

/-- The unit that a program is lowered to over a table of variables, if all that it reads is
known. -/
def laidOut (p : Program) (symbols : Symbols) : CodeUnit :=
  { (CodeUnit.start symbols).grow (Line.code 0 0 p.lines) (Line.declared 0 p.lines)
      (Line.temps p.lines) (Line.labels p.lines) with
    lineMap := Line.mapped 0 0 0 .empty p.lines }

/-- Lowering fails at the first name that is read and not known, and lays the program out if there
is none. -/
lemma lower_eq (hp : ∀ l ∈ p.lines, l.Written) (symbols : Symbols) :
    p.lower symbols =
      match Use.firstUnknown symbols.names (Line.uses p.lines) with
      | none => .ok (p.laidOut symbols)
      | some (name, span) => .error (.undefinedIdentifier name span) := by
  have hends := Line.lowerAll_ends p.lines (.start symbols)
    (fun x hx => (hp x hx).statement.wellFormed.inputsNamed) (apart_of_written hp _)
  have hknown : (CodeUnit.start symbols).symbols = symbols := rfl
  rw [hknown] at hends
  rw [lower, lowerInto]
  cases hfirst : Use.firstUnknown symbols.names (Line.uses p.lines) with
  | none =>
    rw [hfirst] at hends
    have hall : Line.lowerAll p.lines (.start symbols) = .ok () _ := hends
    rw [hall]
    rfl
  | some unknown =>
    rw [hfirst] at hends
    obtain ⟨u, herror⟩ := hends
    simp only [herror]

/-- Lowering over the table of the check fails at the first unknown name that the check reports,
if there is one. -/
lemma lower_check (hp : ∀ l ∈ p.lines, l.Written) :
    match p.check.errors.findSome? Finding.unknownName? with
    | none => ∃ u, p.lower p.check.symbols = .ok u
    | some (name, span) => p.lower p.check.symbols = .error (.undefinedIdentifier name span) := by
  have hknown : Use.firstUnknown p.check.symbols.names (Line.uses p.lines) =
      p.check.errors.findSome? Finding.unknownName? := by
    rw [findSome?_errors]
    exact Use.firstUnknown_congr fun _ _ _ => Symbols.mem_names_ofNames
  have hlower := lower_eq hp p.check.symbols
  rw [hknown] at hlower
  cases hfirst : p.check.errors.findSome? Finding.unknownName? with
  | none =>
    rw [hfirst] at hlower
    exact ⟨_, hlower⟩
  | some unknown =>
    rw [hfirst] at hlower
    exact hlower

/-- An unknown name is reported exactly if a first one is. -/
lemma findSome?_unknownName?_eq_none {fs : List Finding} :
    fs.findSome? Finding.unknownName? = none ↔
      ¬ ∃ f ∈ fs, ∃ name, f.problem = .neverAssigned name := by
  rw [List.findSome?_eq_none_iff]
  constructor
  · rintro hnone ⟨⟨problem, span⟩, hf, name, hproblem⟩
    obtain rfl : problem = .neverAssigned name := hproblem
    cases hnone _ hf
  · rintro hno ⟨problem, span⟩ hf
    cases problem with
    | neverAssigned name => exact absurd ⟨_, hf, name, rfl⟩ hno
    | undefinedLine target => rfl
    | returnWithoutGosub => rfl

/-- After a check without errors, a program that can be lowered is listed. -/
lemma perform_tac {source file : String} {content : Option (List UInt8)} {u : CodeUnit}
    (hp : ofText source = .ok p) (hcheck : p.check.hasErrors = false)
    (hcontent : FileFault.textOf content = .ok source) (hlower : p.lower p.check.symbols = .ok u)
    (input : List UInt8) (fuel : Nat) :
    Command.tac.perform file content input fuel =
      some (.success u.listing (Source.report ⟨file, source⟩ p.check.diagnostics)) := by
  have hload : Source.load ⟨file, source⟩ = .ok (p, p.check) := by
    rw [Source.load, hp]
    simp [hcheck]
  rw [Command.perform, hcontent]
  simp only [Command.performOn, hload, hlower]

/-- The check and lowering agree. Take a program that was read from a text, and lower it over the
table of variables that the check makes. This fails exactly if the check reports a name that is
never assigned, and it fails with the first such name and its place. So after a check without
errors the command for flat code prints a listing. -/
theorem check_agrees_with_lower (source : String) (p : Program) (hp : ofText source = .ok p) :
    ((∃ e, p.lower p.check.symbols = .error e) ↔
      ∃ f ∈ p.check.errors, ∃ name, f.problem = .neverAssigned name) ∧
    (∀ e, p.lower p.check.symbols = .error e →
      ∃ name span, p.check.errors.findSome? Finding.unknownName? = some (name, span) ∧
        e = .undefinedIdentifier name span) ∧
    (p.check.hasErrors = false →
      ∀ file content input fuel, FileFault.textOf content = .ok source →
        ∃ u, p.lower p.check.symbols = .ok u ∧
          Command.tac.perform file content input fuel =
            some (.success u.listing (Source.report ⟨file, source⟩ p.check.diagnostics))) := by
  have hlower := lower_check (written_of_ofText hp)
  cases hfirst : p.check.errors.findSome? Finding.unknownName? with
  | none =>
    rw [hfirst] at hlower
    obtain ⟨u, hok⟩ := hlower
    have hno := findSome?_unknownName?_eq_none.mp hfirst
    have hnever : ∀ e, p.lower p.check.symbols ≠ .error e := by simp [hok]
    refine ⟨⟨fun ⟨e, he⟩ => absurd he (hnever e), fun hsome => absurd hsome hno⟩,
      fun e he => absurd he (hnever e), fun hcheck file content input fuel hcontent => ?_⟩
    exact ⟨u, hok, perform_tac hp hcheck hcontent hok input fuel⟩
  | some unknown =>
    obtain ⟨name, span⟩ := unknown
    rw [hfirst] at hlower
    have hsome : ∃ f ∈ p.check.errors, ∃ name, f.problem = .neverAssigned name := by
      refine Classical.byContradiction fun hno => ?_
      cases hfirst.symm.trans (findSome?_unknownName?_eq_none.mpr hno)
    refine ⟨⟨fun _ => hsome, fun _ => ⟨_, hlower⟩⟩, fun e he => ?_, fun hcheck => ?_⟩
    · exact ⟨name, span, rfl, (Except.error.inj (hlower.symm.trans he)).symm⟩
    · obtain ⟨f, hf, -⟩ := hsome
      have hnil : p.check.errors = [] := by simpa [Report.hasErrors] using hcheck
      rw [hnil] at hf
      cases hf

/-- A program that jumps to a missing line and prints two unknown names. -/
def undefinedProgram : Program where
  lines :=
    [⟨10, .goto (.number 99 ⟨8, 10⟩) ⟨3, 10⟩, ⟨0, 10⟩⟩,
     ⟨20, .print (some (.binary (.arith .add) (.ident "B" ⟨20, 21⟩) (.ident "A" ⟨22, 23⟩) ⟨20, 23⟩))
        ⟨14, 23⟩, ⟨11, 23⟩⟩]
  ascending := by decide

/-- A program without errors. -/
def printingProgram : Program where
  lines := [⟨10, .print (some (.number 1 ⟨9, 10⟩)) ⟨3, 10⟩, ⟨0, 10⟩⟩]
  ascending := by decide

/-- Lowering `undefinedProgram` fails at `B`, although the missing line is reported before it, and
`printingProgram` is listed. -/
theorem undefinedProgram_check_agrees :
    ofText "10 GOTO 99\n20 PRINT B+A" = .ok undefinedProgram ∧
      undefinedProgram.lower undefinedProgram.check.symbols =
        .error (.undefinedIdentifier "B" ⟨20, 21⟩) ∧
      ofText "10 PRINT 1" = .ok printingProgram ∧ printingProgram.check.hasErrors = false ∧
      ∃ u : CodeUnit, Command.tac.perform "P" (some "10 PRINT 1".toUTF8.toList) [] 0 =
        some (.success u.listing (Source.report ⟨"P", "10 PRINT 1"⟩ [])) := by
  have hp : ofText "10 GOTO 99\n20 PRINT B+A" = .ok undefinedProgram :=
    eq_ok_of_lines (by decide +kernel)
  have hfinding : ⟨.neverAssigned "A", ⟨22, 23⟩⟩ ∈ undefinedProgram.check.errors := by
    decide +kernel
  have hfirst : undefinedProgram.check.errors.findSome? Finding.unknownName? =
      some ("B", ⟨20, 21⟩) := by decide +kernel
  obtain ⟨hfails, hwhich, -⟩ := check_agrees_with_lower _ _ hp
  obtain ⟨e, he⟩ := hfails.mpr ⟨_, hfinding, "A", rfl⟩
  obtain ⟨name, span, hsome, rfl⟩ := hwhich e he
  cases hfirst.symm.trans hsome
  have hp' : ofText "10 PRINT 1" = .ok printingProgram := eq_ok_of_lines (by decide +kernel)
  have hcheck : printingProgram.check.hasErrors = false := by decide +kernel
  have hbytes : Text.ofBytes? "10 PRINT 1".toUTF8.toList = some "10 PRINT 1" := by decide +kernel
  have hcontent : FileFault.textOf (some "10 PRINT 1".toUTF8.toList) = .ok "10 PRINT 1" := by
    rw [FileFault.textOf, hbytes]
  obtain ⟨u, -, hlisting⟩ :=
    (check_agrees_with_lower _ _ hp').2.2 hcheck "P" _ [] 0 hcontent
  exact ⟨hp, he, hp', hcheck, u, hlisting⟩

end Program

end LineBasic
