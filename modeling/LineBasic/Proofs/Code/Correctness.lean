import LineBasic.Proofs.Code.Program

/-!
# Lowering preserves meaning

A run of a checked program and a run of its flat code do the same.

* `FlatMachine.Callers`: the frames of a call stack and the indices that flat code returns to;
* `FlatMachine.Related`: a run that is at a line, and a run of flat code at the place of this line;
* `FlatMachine.follows_step`: flat code follows each step of a run;
* `FlatMachine.follows_resume`: flat code follows a run of any length;
* `Program.lower_preserves_runs`: both end in the same way with the same values, input and
  output, or neither ends.
-/

namespace LineBasic

/-- The numbers written in a program. -/
def Program.literals (p : Program) : List Number := p.lines.flatMap fun x => x.statement.literals

namespace FlatMachine

/-- The machine has the code of a checked program and reads the numbers in it back. -/
structure Runs (f : FlatMachine) (p : Program) : Prop where
  checked : p.Checked
  unit_eq : f.unit = p.flat
  reads : f.ReadsBack p.literals

/-! ### Call stacks -/

/-- The frames of a call stack and the indices that flat code returns to. From each of these
nothing is left to do on the line of the call, so that both return to the line after it. -/
inductive Callers (p : Program) (f : FlatMachine) : CallStack → List Nat → Prop
  | main (line : Int) : Callers p f (.start line) []
  | called {stack : CallStack} {n stop back : Nat} {returns : List Nat}
      (hline : lineIndex? stack.line = some n) (hends : p.EndsAt f n stop)
      (hquiet : f.Quiet back stop) (rest : Callers p f stack returns) (line : Int) :
      Callers p f (stack.call line) (back :: returns)

variable {p : Program} {f : FlatMachine}

/-- The line of the current frame does not matter. -/
lemma Callers.goto {stack : CallStack} {returns : List Nat} (h : Callers p f stack returns)
    (line : Int) : Callers p f (stack.goto line) returns := by
  cases h with
  | main => exact .main line
  | called hline hends hquiet rest => exact .called hline hends hquiet rest line

lemma Callers.eq_nil {stack : CallStack} {returns : List Nat} (h : Callers p f stack returns)
    (hret : stack.ret = none) : returns = [] := by
  cases h with
  | main => rfl
  | called => cases hret

/-- Both can return or none. -/
lemma Callers.ret {stack stack' : CallStack} {returns : List Nat} (h : Callers p f stack returns)
    (hret : stack.ret = some stack') :
    ∃ n stop back rest, returns = back :: rest ∧ lineIndex? stack'.line = some n ∧
      p.EndsAt f n stop ∧ f.Quiet back stop ∧ Callers p f stack' rest := by
  cases h with
  | main => cases hret
  | called hline hends hquiet rest =>
    cases hret
    exact ⟨_, _, _, _, rfl, hline, hends, hquiet, rest⟩

/-! ### Lines -/

/-- A run that is at a line of a program, and a run of flat code at the place of this line. -/
structure Related (p : Program) (f : FlatMachine) (m : Machine) (s : FlatState) : Prop where
  agrees : Agrees p.assigned f.prompt m s
  running : m.state = .running
  place : (lineIndex? m.stack.line).bind f.unit.lineMap.get? = some s.counter
  callers : Callers p f m.stack s.returns

/-- How flat code, from a state `s`, follows a step of a run. Where the step leads to a missing
line, flat code fails already and the run does so in its next step. -/
inductive FollowsStep (p : Program) (f : FlatMachine) (s : FlatState) : Transition → Prop
  | next {m : Machine} {n : Nat} {s' : FlatState} (hpos : 0 < n) (hsteps : f.Steps n s s')
      (hrelated : Related p f m s') : FollowsStep p f s (.next m)
  | misses {m : Machine} {n : Nat} {s' : FlatState} (hline : p.lineAt? m.stack.line = none)
      (hsteps : f.Steps n s s') (hstep : f.step s' = .failed (.lineNotMapped m.stack.line) s')
      (hagrees : Agrees p.assigned f.prompt m s') : FollowsStep p f s (.next m)
  | done {m : Machine} {s' : FlatState} (hleads : f.Leads s (.done s'))
      (hagrees : Agrees p.assigned f.prompt m s') : FollowsStep p f s (.done m)
  | fails {failure : Failure} {m : Machine} {fault : FlatFault} {s' : FlatState}
      (hfault : failure.fault.flat? = some fault) (hleads : f.Leads s (.failed fault s'))
      (hagrees : Agrees p.assigned f.prompt m s') : FollowsStep p f s (.failed failure m)

/-- Flat code at the end of a line is where the next line starts, or at its own end. -/
lemma follows_advance (hp : p.FromText) {n stop k : Nat} {m : Machine} {s s' : FlatState}
    (hpos : 0 < k) (hsteps : f.Steps k s s') (hends : p.EndsAt f n stop)
    (hcounter : s'.counter = stop) (hagrees : Agrees p.assigned f.prompt m s')
    (hstate : m.state = .running) (hcallers : Callers p f m.stack s'.returns) :
    FollowsStep p f s (m.advance p n) := by
  rw [Program.EndsAt] at hends
  rw [Machine.advance]
  cases hnext : p.next? n with
  | some next =>
    rw [hnext] at hends
    obtain ⟨x, hx, rfl⟩ := Program.mem_of_next? hnext
    refine .next hpos hsteps ⟨hagrees.moved _ _ _, hstate, ?_, hcallers.goto x.number⟩
    show (lineIndex? (x.number : Int)).bind f.unit.lineMap.get? = some s'.counter
    rw [lineIndex?_natCast (hp x hx).le_max, hcounter]
    exact hends
  | none =>
    rw [hnext] at hends
    have hover : f.step s' = .done s' := by
      rw [step, hcounter, ← hends]
      simp
    exact .done (hsteps.leads (.of_step hover)) (hagrees.moved _ _ _)

/-- A jump or call comes to the place of its line, or both miss the line. -/
lemma follows_enter (hf : f.unit = p.flat) {k : Nat} {m : Machine} {s s' : FlatState}
    {returns : List Nat} (hsteps : f.Steps k s s')
    (hstep : f.step s' = f.enterLine s' m.stack.line returns)
    (hagrees : Agrees p.assigned f.prompt m s') (hstate : m.state = .running)
    (hcallers : Callers p f m.stack returns) : FollowsStep p f s (.next m) := by
  rw [enterLine] at hstep
  cases hplace : (lineIndex? m.stack.line).bind f.unit.lineMap.get? with
  | some index =>
    rw [hplace] at hstep
    exact .next (Nat.succ_pos k) (hsteps.trans (.one hstep))
      ⟨hagrees.entered index returns, hstate, hplace, hcallers⟩
  | none =>
    rw [hplace] at hstep
    exact .misses (Program.lineAt?_eq_none_of_not_mapped hf hplace) hsteps hstep hagrees

/-- A return comes to where nothing is left to do on the line of the call. -/
lemma follows_return (hp : p.FromText) {k n : Nat} {m m' : Machine} {s s' : FlatState}
    (hsteps : f.Steps k s s') (hret : f.unit.code[s'.counter]? = some Statement.retInstruction)
    (hstack : m.stack.ret = some m'.stack) (hcallers : Callers p f m.stack s'.returns)
    (hagrees : Agrees p.assigned f.prompt m' s') (hstate : m'.state = .running) :
    FollowsStep p f s (m'.follow p n .ret) := by
  obtain ⟨caller, stop, back, rest, hreturns, hline, hends, hquiet, hrest⟩ := hcallers.ret hstack
  have hstep : f.step s' = .next { s' with counter := back, returns := rest } := by
    rw [step_ret hret, hreturns]
  obtain ⟨j, hback⟩ := hquiet { s' with counter := back, returns := rest } rfl
  rw [Machine.follow_of_running hstate]
  dsimp only
  rw [hline]
  exact follows_advance hp (Nat.add_pos_left (Nat.succ_pos k) j)
    ((hsteps.trans (.one hstep)).trans hback) hends rfl (hagrees.entered stop rest) hstate hrest

/-- Flat code follows each step of a run. -/
theorem follows_step (hf : f.Runs p) {m : Machine} {s : FlatState} (h : Related p f m s) :
    FollowsStep p f s (m.step p) := by
  have hp := hf.checked.fromText
  obtain ⟨x, t, l, hl, hplaced⟩ := Program.placed_of_mapped hf.unit_eq h.place
  obtain ⟨hx, hn⟩ := Program.lineAt?_eq_some hl
  have hliterals : f.ReadsBack x.statement.literals :=
    fun y hy => hf.reads y (List.mem_flatMap.mpr ⟨x, hx, hy⟩)
  have hfollows := Statement.followed (Program.names_flat hp hf.unit_eq)
    (Program.nodup_labels_flat hf.unit_eq) x.statement t l _ m s
    ⟨Program.lowerable_of_checked hf.checked hx, hplaced.temps, hliterals, hplaced.code,
      .refl f _, h.agrees, h.running, h.callers.eq_nil⟩
  have hmoves := x.statement.moves m
  rw [Machine.step_of_lineAt? hl]
  generalize x.statement.execute m = outcome at hfollows hmoves
  -- what the code does is known from `hfollows`, and where the call stack is from `hmoves`
  cases hfollows with
  | fails hfault hleads hagrees => exact .fails hfault hleads hagrees
  | goesOn hpos hsteps hcounter hreturns hagrees hstate =>
    cases hmoves with
    | goesOn m' hstack =>
      dsimp only
      rw [Machine.follow_of_running hstate]
      refine follows_advance hp hpos hsteps hplaced.ends hcounter hagrees hstate ?_
      rw [hstack, hreturns]
      exact h.callers
  | @halts m' s' hleads hagrees hstate =>
    have hdone : m'.follow p x.number .next = .done m' := by simp [Machine.follow, hstate]
    dsimp only
    rw [hdone]
    exact .done hleads hagrees
  | jumps hsteps hreturns hagrees hstate hstep =>
    cases hmoves with
    | jumps target span line m' _ _ hstack =>
      dsimp only
      rw [Machine.follow_of_running hstate]
      refine follows_enter hf.unit_eq hsteps hstep hagrees hstate ?_
      rw [hstack, hreturns]
      exact h.callers.goto line
  | calls hsteps hreturns hagrees hstate hquiet hstep =>
    cases hmoves with
    | calls target span line m' _ _ hstack =>
      dsimp only
      rw [Machine.follow_of_running hstate]
      refine follows_enter hf.unit_eq hsteps hstep hagrees hstate ?_
      rw [hstack, hreturns]
      exact .called hn hplaced.ends hquiet h.callers line
  | returns hsteps hreturns hagrees hstate hret =>
    cases hmoves with
    | returns span m' _ hstack _ =>
      have hcallers := h.callers
      rw [← hreturns] at hcallers
      exact follows_return hp hsteps hret hstack hcallers hagrees hstate

/-! ### Runs -/

/-- A run and a run of flat code end in the same way: both well, or with corresponding faults. -/
inductive SameEnd : Except Failure Unit → Except FlatFault Unit → Prop
  | ok : SameEnd (.ok ()) (.ok ())
  | error {failure : Failure} {fault : FlatFault} (h : failure.fault.flat? = some fault) :
      SameEnd (.error failure) (.error fault)

/-- How flat code, from a state `s`, follows a run of `fuel` steps. It is at most one step behind
in the count of steps. -/
inductive FollowsRun (p : Program) (f : FlatMachine) (s : FlatState) (fuel : Nat) :
    RunResult → Prop
  | ended {result : Except Failure Unit} {m : Machine} {n : Nat} {result' : Except FlatFault Unit}
      {s' : FlatState} (hend : SameEnd result result') (hrun : f.resume n s = .ended result' s')
      (hagrees : Agrees p.assigned f.prompt m s') : FollowsRun p f s fuel (.ended result m)
  | unfinished {m : Machine} {n : Nat} {s' : FlatState} (hsteps : f.Steps n s s')
      (hfuel : fuel ≤ n + 1) (hagrees : Agrees p.assigned f.prompt m s') :
      FollowsRun p f s fuel (.unfinished m)

/-- Steps before count. -/
lemma FollowsRun.of_steps {s s' : FlatState} {n fuel : Nat} {result : RunResult}
    (h : FollowsRun p f s' fuel result) (hpos : 0 < n) (hsteps : f.Steps n s s') :
    FollowsRun p f s (fuel + 1) result := by
  cases h with
  | ended hend hrun hagrees => exact .ended hend ((hsteps.resume _).trans hrun) hagrees
  | unfinished hsteps' hfuel hagrees =>
    exact .unfinished (hsteps.trans hsteps') (by omega) hagrees

lemma FollowsRun.of_fails {s s' : FlatState} {fuel : Nat} {failure : Failure} {m : Machine}
    {fault : FlatFault} (hfault : failure.fault.flat? = some fault)
    (hleads : f.Leads s (.failed fault s')) (hagrees : Agrees p.assigned f.prompt m s') :
    FollowsRun p f s fuel (.ended (.error failure) m) := by
  obtain ⟨n, hrun⟩ := hleads.ended_error
  exact .ended (.error hfault) hrun hagrees

/-- Flat code follows a run of any length. -/
theorem follows_resume (hf : f.Runs p) {m : Machine} {s : FlatState} (h : Related p f m s)
    (fuel : Nat) : FollowsRun p f s fuel (m.resume p fuel) := by
  induction fuel generalizing m s with
  | zero => exact .unfinished (.refl s) (Nat.zero_le 1) h.agrees
  | succ fuel ih =>
    have hstep := follows_step hf h
    rw [Machine.resume]
    generalize m.step p = transition at hstep
    cases hstep with
    | next hpos hsteps hrelated => exact (ih hrelated).of_steps hpos hsteps
    | @misses m' n s' hline hsteps hfailed hagrees =>
      -- the run takes one more step to find that the line is missing
      cases fuel with
      | zero => exact .unfinished hsteps (Nat.le_add_left 1 n) hagrees
      | succ fuel =>
        have hmissing : m'.step p =
            .failed ⟨.noStatement m'.stack.line, some m'.stack.line, none⟩ m' := by
          rw [Machine.step, hline]
        dsimp only
        rw [Machine.resume, hmissing]
        exact .of_fails rfl (hsteps.leads (.of_step hfailed)) hagrees
    | @done m' s' hleads hagrees =>
      obtain ⟨n, hrun⟩ := hleads.ended_ok
      dsimp only
      rw [Machine.finish_of_neverFails hagrees.never]
      exact .ended .ok hrun hagrees
    | fails hfault hleads hagrees => exact .of_fails hfault hleads hagrees

/-- Where a run of flat code ends, the run that it follows has ended two steps later at most. -/
lemma ended_of_resume (hf : f.Runs p) {m : Machine} {s s' : FlatState} (h : Related p f m s)
    {n : Nat} {result' : Except FlatFault Unit} (hrun : f.resume n s = .ended result' s') :
    ∃ result m', m.resume p (n + 2) = .ended result m' ∧ SameEnd result result' ∧
      Agrees p.assigned f.prompt m' s' := by
  have hfollows := follows_resume hf h (n + 2)
  cases hresult : m.resume p (n + 2) with
  | ended result m' =>
    rw [hresult] at hfollows
    cases hfollows with
    | ended hend hrun' hagrees =>
      obtain ⟨rfl, rfl⟩ := resume_unique hrun hrun'
      exact ⟨result, m', rfl, hend, hagrees⟩
  | unfinished m' =>
    rw [hresult] at hfollows
    cases hfollows with
    | @unfinished _ k s₁ hsteps hfuel hagrees =>
      -- flat code would then make more than `n` steps
      have hended := resume_mono hrun (k := k) (by omega)
      cases hsteps.resume_eq.symm.trans hended

/-- At the start, all variables are unset and flat code is at the place of the first line. -/
lemma related_start (hf : f.Runs p) {first : Nat} (hfirst : p.first? = some first)
    (input : Input) :
    Related p f ((Machine.start f.prompt input .unlimited).reset p first) (.start input) := by
  have hagrees : Agrees p.assigned f.prompt
      ((Machine.start f.prompt input .unlimited).reset p first) (.start input) :=
    ⟨fun name hname => Symbols.get?_ofNames hname, rfl, rfl, ⟨rfl, rfl⟩, rfl⟩
  refine ⟨hagrees, rfl, ?_, .main first⟩
  obtain ⟨x, hx, rfl⟩ := Option.map_eq_some_iff.mp hfirst
  obtain ⟨ys, hys⟩ := List.head?_eq_some_iff.mp hx
  have hmax := (hf.checked.fromText x (List.mem_of_head? hx)).le_max
  have hsplit : p.lines = [] ++ x :: ys := hys
  show (lineIndex? (x.number : Int)).bind f.unit.lineMap.get? = some 0
  rw [lineIndex?_natCast hmax]
  exact Program.get?_lineMap_of_split hf.unit_eq hsplit

end FlatMachine

namespace Program

open FlatMachine

/-- Lowering preserves meaning. Take a program with lines that was read from a text and in which
the check finds no error, a prompt and an input, which may fail, and let numbers be read in flat
code as they are written there. (So no two numbers of the program are written alike, as the two
zeros are.) Then the program can be lowered, and the run of the program and the run of its flat code
both end or both do not. Where they end, they do so in the same way, with the same values of all
variables of the program, the same input left and the same output. Where the run of the program has
not ended, the run of flat code has come as far, with the same values, input and output. -/
theorem lower_preserves_runs (source : String) (p : Program) (hp : ofText source = .ok p)
    (hlines : p.isEmpty = false) (hcheck : p.check.hasErrors = false)
    (readNumber? : String → Option Number)
    (hread : ∀ x ∈ p.literals, readNumber? (Value.numberText x) = some x) (prompt : String)
    (input : Input) :
    ∃ u, p.lower p.check.symbols = .ok u ∧
      (∀ fuel result m,
        (Machine.start prompt input .unlimited).run p fuel = .ended result m →
          ∃ fuel' result' s,
            FlatMachine.run ⟨u, readNumber?, prompt⟩ input fuel' = .ended result' s ∧
              SameEnd result result' ∧ Agrees p.assigned prompt m s) ∧
      (∀ fuel' result' s, FlatMachine.run ⟨u, readNumber?, prompt⟩ input fuel' = .ended result' s →
          ∃ fuel result m, (Machine.start prompt input .unlimited).run p fuel = .ended result m ∧
            SameEnd result result' ∧ Agrees p.assigned prompt m s) ∧
      ∀ fuel m, (Machine.start prompt input .unlimited).run p fuel = .unfinished m →
        ∃ fuel' s, fuel ≤ fuel' + 1 ∧
          FlatMachine.run ⟨u, readNumber?, prompt⟩ input fuel' = .unfinished s ∧
          Agrees p.assigned prompt m s := by
  have hchecked := checked_of_hasErrors hp hcheck
  have hruns : (FlatMachine.mk p.flat readNumber? prompt).Runs p := ⟨hchecked, rfl, hread⟩
  obtain ⟨first, hfirst⟩ := exists_first? hlines
  have hrelated := related_start hruns hfirst input
  have hrun (fuel : Nat) : (Machine.start prompt input .unlimited).run p fuel =
      ((Machine.start prompt input .unlimited).reset p first).resume p fuel := by
    rw [Machine.run, hfirst]
  refine ⟨p.flat, lower_of_checked hchecked, ?_, ?_, ?_⟩
  · intro fuel result m hended
    have hfollows := follows_resume hruns hrelated fuel
    rw [← hrun, hended] at hfollows
    cases hfollows with
    | ended hend hflat hagrees => exact ⟨_, _, _, hflat, hend, hagrees⟩
  · intro fuel' result' s hflat
    obtain ⟨result, m, hended, hend, hagrees⟩ := ended_of_resume hruns hrelated hflat
    exact ⟨fuel' + 2, result, m, (hrun _).trans hended, hend, hagrees⟩
  · intro fuel m hunfinished
    have hfollows := follows_resume hruns hrelated fuel
    rw [← hrun, hunfinished] at hfollows
    cases hfollows with
    | unfinished hsteps hfuel hagrees => exact ⟨_, _, hfuel, hsteps.resume_eq, hagrees⟩

/-- A program that reads a number and calls line 4 in a conditional, to print the number plus
one. -/
def askingProgram : Program where
  lines :=
    [⟨1, .input ["A"] ⟨2, 9⟩, ⟨0, 9⟩⟩,
     ⟨2, .ifThen (.ident "A" ⟨15, 16⟩) (.gosub (.number 4 ⟨28, 29⟩) ⟨22, 29⟩) ⟨12, 29⟩, ⟨10, 29⟩⟩,
     ⟨3, .halt ⟨32, 35⟩, ⟨30, 35⟩⟩,
     ⟨4, .print (some (.binary (.arith .add) (.ident "A" ⟨44, 45⟩) (.number 1 ⟨46, 47⟩) ⟨44, 47⟩))
        ⟨38, 47⟩, ⟨36, 47⟩⟩,
     ⟨5, .ret ⟨50, 56⟩, ⟨48, 56⟩⟩]
  ascending := by decide

/-- What a run has written that has ended without a failure. -/
def written? : RunResult → Option ByteArray
  | .ended (.ok ()) m => some m.output.written
  | _ => none

/-- On input 3, the flat code of `askingProgram` asks, prints 4 and ends, as the program does. -/
theorem askingProgram_lower_preserves_runs :
    ∃ u fuel s, askingProgram.lower askingProgram.check.symbols = .ok u ∧
      FlatMachine.run ⟨u, fun text => Number.ofChars? text.toList, "? "⟩ "3\n".toUTF8.toList fuel =
        .ended (.ok ()) s ∧ s.output = "? 4\n".toUTF8 := by
  have hp : ofText "1 INPUT A\n2 IF A THEN GOSUB 4\n3 END\n4 PRINT A+1\n5 RETURN" =
    .ok askingProgram := eq_ok_of_lines (by decide +kernel)
  have hread : ∀ x ∈ askingProgram.literals,
      Number.ofChars? (Value.numberText x).toList = some x := by decide +kernel
  obtain ⟨u, hlower, hends, -⟩ := lower_preserves_runs _ _ hp rfl (by decide +kernel)
    (fun text => Number.ofChars? text.toList) hread "? " "3\n".toUTF8.toList
  have hwritten :
      written? ((Machine.start "? " "3\n".toUTF8.toList .unlimited).run askingProgram 6) =
        some "? 4\n".toUTF8 := by decide +kernel
  unfold written? at hwritten
  split at hwritten
  next m hended =>
    obtain ⟨fuel, result, s, hflat, hend, hagrees⟩ := hends 6 _ m hended
    cases hend with
    | ok => exact ⟨u, fuel, s, hlower, hflat, hagrees.output.trans (Option.some.inj hwritten)⟩
  next => cases hwritten

end Program

end LineBasic
