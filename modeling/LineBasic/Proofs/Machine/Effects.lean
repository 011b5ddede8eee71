import LineBasic.Proofs.Machine.Execute

/-!
# What executing a statement does

All that a statement can do is said once: how it fails or goes on, what it writes and what it
stores. What holds of every execution is proved from this, by one case for each way to act.

* `Write`, `Statement.writes`: the pieces of output of a statement, in order;
* `Entry`, `Statement.entries`: what it stores and writes, in order;
* `Statement.Fails`: how a statement fails before it does anything;
* `Statement.Executes`, `Statement.executes`: what executing a statement does;
* `Statement.moves`: what a statement can do to the call stack;
* `Statement.names_execute`: which variables it can declare;
* `Statement.state_execute`: only an `END` ends a run, and it does not fail.
-/

namespace LineBasic

/-! ### Pieces of output -/

/-- A piece of output. -/
structure Write where
  /-- The machine just before the text is written. -/
  before : Machine
  text : String

/-- The prompts written when values are read. -/
def Exec.writesInto : List String → Machine → List Write
  | [], _ => []
  | name :: names, m =>
    ⟨m, m.prompt⟩ ::
      match readValue m with
      | .ok v m' => writesInto names { m' with symbols := m'.symbols.set name v }
      | .error _ _ => []

/-- What a statement writes. -/
def Statement.writes : Statement → Machine → List Write
  | .print item span, m =>
    match printed m.symbols item with
    | .ok v => [⟨m.remarked v.printRemark? span, v.text ++ "\n"⟩]
    | .error _ => []
  | .ifThen c t span, m =>
    match c.evaluate m.symbols with
    | .ok v => if v.isTruthy then t.writes (m.remarked v.conditionRemark? span) else []
    | .error _ => []
  | .ifThenElse c t e span, m =>
    match c.evaluate m.symbols with
    | .ok v =>
      if v.isTruthy then t.writes (m.remarked v.conditionRemark? span)
      else e.writes (m.remarked v.conditionRemark? span)
    | .error _ => []
  | .input names _, m => Exec.writesInto names m
  | _, _ => []

/-! ### Entries -/

/-- Something that a run does. -/
inductive Entry where
  /-- A `LET` has set a variable. -/
  | assigned (name : String) (value : Value)
  /-- A `PRINT` has written a text. -/
  | printed (text : String)
  /-- The prompt has been written. -/
  | prompted
  /-- An `INPUT` has set a variable. -/
  | stored (name : String) (value : Value)
deriving DecidableEq

/-- The entries of reading values. -/
def Exec.entriesInto : List String → Machine → List Entry
  | [], _ => []
  | name :: names, m =>
    .prompted ::
      match readValue m with
      | .ok v m' => .stored name v :: entriesInto names { m' with symbols := m'.symbols.set name v }
      | .error _ _ => []

/-- The entries of a statement. -/
def Statement.entries : Statement → Machine → List Entry
  | .assign name e _, m =>
    match e.evaluate m.symbols with
    | .ok v => [.assigned name v]
    | .error _ => []
  | .print item _, m =>
    match printed m.symbols item with
    | .ok v => [.printed (v.text ++ "\n")]
    | .error _ => []
  | .ifThen c t span, m =>
    match c.evaluate m.symbols with
    | .ok v => if v.isTruthy then t.entries (m.remarked v.conditionRemark? span) else []
    | .error _ => []
  | .ifThenElse c t e span, m =>
    match c.evaluate m.symbols with
    | .ok v =>
      if v.isTruthy then t.entries (m.remarked v.conditionRemark? span)
      else e.entries (m.remarked v.conditionRemark? span)
    | .error _ => []
  | .input names _, m => Exec.entriesInto names m
  | _, _ => []

namespace Statement

/-! ### Ways to act -/

/-- The branch that a conditional takes when its condition has the value `v`. -/
inductive Takes (symbols : Symbols) (v : Value) : Statement → Statement → Prop
  | only {c : Expr} {t : Statement} {span : Span} (hv : c.evaluate symbols = .ok v)
      (htrue : v.isTruthy = true) : Takes symbols v (.ifThen c t span) t
  | first {c : Expr} {t e : Statement} {span : Span} (hv : c.evaluate symbols = .ok v)
      (htrue : v.isTruthy = true) : Takes symbols v (.ifThenElse c t e span) t
  | second {c : Expr} {t e : Statement} {span : Span} (hv : c.evaluate symbols = .ok v)
      (hfalse : v.isTruthy = false) : Takes symbols v (.ifThenElse c t e span) e

/-- How a statement fails before it does anything. -/
inductive Fails (m : Machine) : Statement → Fault → Prop
  | assign {name : String} {e : Expr} {span : Span} {f : Fault}
      (he : e.evaluate m.symbols = .error f) : Fails m (.assign name e span) f
  | print {e : Expr} {span : Span} {f : Fault} (he : e.evaluate m.symbols = .error f) :
      Fails m (.print (some e) span) f
  | ifThen {c : Expr} {t : Statement} {span : Span} {f : Fault}
      (hc : c.evaluate m.symbols = .error f) : Fails m (.ifThen c t span) f
  | ifThenElse {c : Expr} {t e : Statement} {span : Span} {f : Fault}
      (hc : c.evaluate m.symbols = .error f) : Fails m (.ifThenElse c t e span) f
  | goto {target : Expr} {span : Span} {f : Fault} (htarget : target.target m.symbols = .error f) :
      Fails m (.goto target span) f
  | gosub {target : Expr} {span : Span} {f : Fault}
      (htarget : target.target m.symbols = .error f) : Fails m (.gosub target span) f
  | below {target : Expr} {span : Span} {line : Int} (htarget : target.target m.symbols = .ok line)
      (hneg : line < 0) : Fails m (.goto target span) (.lineNotFound line)
  | ret {span : Span} (hret : m.stack.ret = none) : Fails m (.ret span) .returnOutsideSub

/-- What executing a statement does: the pieces that it writes, its entries and its outcome. -/
inductive Executes : Statement → Machine → List Write → List Entry → Outcome → Prop
  | fails {s : Statement} {m : Machine} {f : Fault} (hfails : s.Fails m f) :
      Executes s m [] [] (.error f m)
  | assigns {name : String} {e : Expr} {span : Span} {m : Machine} {v : Value}
      (hv : e.evaluate m.symbols = .ok v) :
      Executes (.assign name e span) m [] [.assigned name v]
        (.ok .next { m with symbols := m.symbols.set name v })
  | prints {item : Option Expr} {span : Span} {m : Machine} {v : Value}
      (hv : printed m.symbols item = .ok v)
      (hwrote : ((m.remarked v.printRemark? span).wrote (v.text ++ "\n")).2 = none) :
      Executes (.print item span) m [⟨m.remarked v.printRemark? span, v.text ++ "\n"⟩]
        [.printed (v.text ++ "\n")]
        (.ok .next ((m.remarked v.printRemark? span).wrote (v.text ++ "\n")).1)
  | refused {item : Option Expr} {span : Span} {m : Machine} {v : Value} {cause : String}
      (hv : printed m.symbols item = .ok v)
      (hwrote : ((m.remarked v.printRemark? span).wrote (v.text ++ "\n")).2 = some cause) :
      Executes (.print item span) m [⟨m.remarked v.printRemark? span, v.text ++ "\n"⟩]
        [.printed (v.text ++ "\n")]
        (.error (.output cause) ((m.remarked v.printRemark? span).wrote (v.text ++ "\n")).1)
  | passes {c : Expr} {t : Statement} {span : Span} {m : Machine} {v : Value}
      (hv : c.evaluate m.symbols = .ok v) (hfalse : v.isTruthy = false) :
      Executes (.ifThen c t span) m [] [] (.ok .next (m.remarked v.conditionRemark? span))
  | branches {s t : Statement} {m : Machine} {v : Value} {ws : List Write} {es : List Entry}
      {r : Outcome} (htakes : s.Takes m.symbols v t)
      (hbranch : Executes t (m.remarked v.conditionRemark? s.span) ws es r) :
      Executes s m ws es r
  | jumps {target : Expr} {span : Span} {m : Machine} {line : Int}
      (htarget : target.target m.symbols = .ok line) :
      Executes (.goto target span) m [] [] (.ok .jump { m with stack := m.stack.goto line })
  | calls {target : Expr} {span : Span} {m : Machine} {line : Int}
      (htarget : target.target m.symbols = .ok line) :
      Executes (.gosub target span) m [] []
        (.ok .call { m.remarked (if line < 0 then some (.negativeLine line) else none) span with
          stack := m.stack.call line })
  | returns {span : Span} {m : Machine} {stack : CallStack} (hret : m.stack.ret = some stack) :
      Executes (.ret span) m [] [] (.ok .ret { m with stack := stack })
  | reads {names : List String} {span : Span} {m m' : Machine}
      (hread : Exec.readInto names m = .ok () m') :
      Executes (.input names span) m (Exec.writesInto names m) (Exec.entriesInto names m)
        (.ok .next m')
  | readFails {names : List String} {span : Span} {m m' : Machine} {f : Fault}
      (hread : Exec.readInto names m = .error f m') :
      Executes (.input names span) m (Exec.writesInto names m) (Exec.entriesInto names m)
        (.error f m')
  | halts {span : Span} {m : Machine} : Executes (.halt span) m [] [] (.ok .next m.exit)

/-- What executing a statement does. -/
theorem executes (s : Statement) (m : Machine) :
    Executes s m (s.writes m) (s.entries m) (s.execute m) := by
  induction s generalizing m with
  | assign name e span =>
    rw [execute_assign, entries]
    cases hv : e.evaluate m.symbols with
    | error f => exact .fails (.assign hv)
    | ok v => exact .assigns hv
  | print item span =>
    rw [execute_print, writes, entries]
    cases hv : printed m.symbols item with
    | error f =>
      cases item with
      | none => cases hv
      | some e => exact .fails (.print hv)
    | ok v =>
      dsimp only
      cases hwrote : ((m.remarked v.printRemark? span).wrote (v.text ++ "\n")).2 with
      | none => exact .prints hv hwrote
      | some cause => exact .refused hv hwrote
  | ifThen c t span ih =>
    rw [execute_ifThen, writes, entries]
    cases hv : c.evaluate m.symbols with
    | error f => exact .fails (.ifThen hv)
    | ok v =>
      dsimp only
      cases htrue : v.isTruthy with
      | true => exact .branches (.only hv htrue) (ih _)
      | false => exact .passes hv htrue
  | ifThenElse c t e span iht ihe =>
    rw [execute_ifThenElse, writes, entries]
    cases hv : c.evaluate m.symbols with
    | error f => exact .fails (.ifThenElse hv)
    | ok v =>
      dsimp only
      cases htrue : v.isTruthy with
      | true => exact .branches (.first hv htrue) (iht _)
      | false => exact .branches (.second hv htrue) (ihe _)
  | goto target span =>
    rw [execute_goto]
    cases htarget : target.target m.symbols with
    | error f => exact .fails (.goto htarget)
    | ok line =>
      dsimp only
      split
      next hneg => exact .fails (.below htarget hneg)
      next => exact .jumps htarget
  | gosub target span =>
    rw [execute_gosub]
    cases htarget : target.target m.symbols with
    | error f => exact .fails (.gosub htarget)
    | ok line => exact .calls htarget
  | ret span =>
    rw [execute_ret]
    cases hret : m.stack.ret with
    | none => exact .fails (.ret hret)
    | some stack => exact .returns hret
  | input names span =>
    rw [execute_input]
    cases hread : Exec.readInto names m with
    | error f m' => exact .readFails hread
    | ok _ m' => exact .reads hread
  | halt span => exact .halts

lemma Takes.reached {symbols : Symbols} {v : Value} {s t : Statement} (h : s.Takes symbols v t) :
    s.reached symbols = t.reached symbols := by
  cases h with
  | only hv htrue => simp only [Statement.reached, hv, htrue, if_true]
  | first hv htrue => simp only [Statement.reached, hv, htrue, if_true]
  | second hv hfalse => simp only [Statement.reached, hv, hfalse, Bool.false_eq_true, if_false]

/-- What holds of a statement, and of the branch of each conditional that it holds of, holds of what
is reached. -/
lemma reached_of_takes {symbols : Symbols} {P : Statement → Prop}
    (htakes : ∀ {v s t}, Takes symbols v s t → P s → P t) {s : Statement} (hs : P s) :
    P (s.reached symbols) := by
  induction s with
  | ifThen c t span ih =>
    cases hv : c.evaluate symbols with
    | error f => simpa only [Statement.reached, hv] using hs
    | ok v =>
      cases htrue : v.isTruthy with
      | true =>
        have htaken : Takes symbols v (.ifThen c t span) t := .only hv htrue
        rw [htaken.reached]
        exact ih (htakes htaken hs)
      | false => simpa only [Statement.reached, hv, htrue, Bool.false_eq_true, if_false] using hs
  | ifThenElse c t e span iht ihe =>
    cases hv : c.evaluate symbols with
    | error f => simpa only [Statement.reached, hv] using hs
    | ok v =>
      cases htrue : v.isTruthy with
      | true =>
        have htaken : Takes symbols v (.ifThenElse c t e span) t := .first hv htrue
        rw [htaken.reached]
        exact iht (htakes htaken hs)
      | false =>
        have htaken : Takes symbols v (.ifThenElse c t e span) e := .second hv htrue
        rw [htaken.reached]
        exact ihe (htakes htaken hs)
  | _ => exact hs

lemma Takes.mem_assigned {symbols : Symbols} {v : Value} {s t : Statement}
    (h : s.Takes symbols v t) {name : String} (hname : name ∈ t.assigned) : name ∈ s.assigned := by
  cases h with
  | only => exact hname
  | first => exact List.mem_append_left _ hname
  | second => exact List.mem_append_right _ hname

/-! ### Effects on the call stack -/

/-- What a statement can do to the call stack: it fails or goes on without touching it, or
it is a jump, a call or a return and does what its kind does. -/
inductive Moves (symbols : Symbols) (stack : CallStack) (state : RunState) (s : Statement) :
    Outcome → Prop
  | fails (f : Fault) (m : Machine) (hstack : m.stack = stack) :
      Moves symbols stack state s (.error f m)
  | goesOn (m : Machine) (hstack : m.stack = stack) : Moves symbols stack state s (.ok .next m)
  | jumps (target : Expr) (span : Span) (line : Int) (m : Machine)
      (hgoto : s = .goto target span) (htarget : target.target symbols = .ok line)
      (hstack : m.stack = stack.goto line) : Moves symbols stack state s (.ok .jump m)
  | calls (target : Expr) (span : Span) (line : Int) (m : Machine)
      (hgosub : s = .gosub target span) (htarget : target.target symbols = .ok line)
      (hstack : m.stack = stack.call line) : Moves symbols stack state s (.ok .call m)
  | returns (span : Span) (m : Machine) (hret : s = .ret span)
      (hstack : stack.ret = some m.stack) (hstate : m.state = state) :
      Moves symbols stack state s (.ok .ret m)

variable {s : Statement} {m : Machine} {ws : List Write} {es : List Entry} {r : Outcome}

lemma Executes.moves (h : Executes s m ws es r) :
    Moves m.symbols m.stack m.state (s.reached m.symbols) r := by
  induction h with
  | fails => exact .fails _ _ rfl
  | assigns => exact .goesOn _ rfl
  | prints => exact .goesOn _ (Machine.stack_remarked ..)
  | refused => exact .fails _ _ (Machine.stack_remarked ..)
  | passes => exact .goesOn _ (Machine.stack_remarked ..)
  | branches htakes _ ih => simpa [htakes.reached] using ih
  | jumps htarget => exact .jumps _ _ _ _ rfl htarget rfl
  | calls htarget => exact .calls _ _ _ _ rfl htarget rfl
  | returns hret => exact .returns _ _ rfl hret rfl
  | reads hread => exact .goesOn _ (Exec.stack_of_readInto hread)
  | readFails hread => exact .fails _ _ (Exec.stack_of_readInto hread)
  | halts => exact .goesOn _ rfl

/-- What executing a statement can do to the call stack. -/
theorem moves (s : Statement) (m : Machine) :
    Moves m.symbols m.stack m.state (s.reached m.symbols) (s.execute m) :=
  (s.executes m).moves

/-! ### Effects on the variables -/

lemma Executes.names (h : Executes s m ws es r) :
    m.symbols.Extends s.assigned (Exec.machineAfter r).symbols := by
  induction h with
  | assigns => exact .set _ (List.mem_singleton_self _) _
  | branches htakes _ ih =>
    rw [Machine.symbols_remarked] at ih
    exact ih.mono fun name => htakes.mem_assigned
  | reads hread => exact Exec.names_of_readInto hread
  | readFails hread => exact Exec.names_of_readInto hread
  | halts => exact .refl _ _
  | _ => simp [Exec.machineAfter, Symbols.Extends.refl]

/-- A statement declares no variables but those that it assigns. -/
theorem names_execute (s : Statement) (m : Machine) :
    m.symbols.Extends s.assigned (Exec.machineAfter (s.execute m)).symbols :=
  (s.executes m).names

/-! ### Effects on the state of the run -/

lemma Executes.state (h : Executes s m ws es r) :
    (Exec.machineAfter r).state = m.state ∨
      r = .ok .next (Exec.machineAfter r) ∧ (Exec.machineAfter r).state = .exited ∧
        ∃ span, s.reached m.symbols = .halt span := by
  induction h with
  | branches htakes _ ih => simpa [htakes.reached] using ih
  | reads hread => exact .inl (Exec.state_of_readInto hread)
  | readFails hread => exact .inl (Exec.state_of_readInto hread)
  | halts => exact .inr ⟨rfl, rfl, _, rfl⟩
  | _ => exact .inl (by simp [Exec.machineAfter])

/-- Only an `END` ends a run, and it does not fail. -/
theorem state_execute (s : Statement) (m : Machine) :
    (Exec.machineAfter (s.execute m)).state = m.state ∨
      s.execute m = .ok .next (Exec.machineAfter (s.execute m)) ∧
        (Exec.machineAfter (s.execute m)).state = .exited ∧
        ∃ span, s.reached m.symbols = .halt span :=
  (s.executes m).state

end Statement

end LineBasic
