import LineBasic.Proofs.Check
import LineBasic.Proofs.Machine.Returns
import LineBasic.Proofs.Machine.Stages
import Mathlib.Data.List.Nodup
import Mathlib.Data.List.Perm.Subperm

/-!
# Programs that only go forward

A program without calls in which every jump goes to a fixed line further on executes no line twice,
so that its runs end. Without jumps it executes its lines from the first one on, and leaves none
out.

* `Program.Forward`: there are no calls, and every jump goes forward;
* `Machine.line_lt_of_step`: a step of such a program leads to a greater line;
* `Machine.pairwise_executed`: so the lines that a run executes have ascending numbers;
* `Machine.Stops`: the line that a machine is at executes an `END` or fails;
* `Machine.step_of_straight`: without jumps, a step stops or goes on with the next line;
* `Machine.goesThrough_run`: so a run goes through the lines in their order;
* `Machine.run_forward`: what such a program executes, and how long it runs.
-/

namespace LineBasic

/-- There is no `GOSUB`, and the target of every `GOTO` is a number that names a line after the one
that the `GOTO` is in. -/
structure Program.Forward (p : Program) : Prop where
  noCalls : ∀ target span, .gosub target span ∉ p.parts
  ahead : ∀ l ∈ p.lines, ∀ target span, .goto target span ∈ l.statement.parts →
    ∃ x, target.constant? = some x ∧ (l.number : Int) < x.toLine

/-! ### What is reached -/

namespace Statement

/-- What is reached is inside the statement. -/
lemma reached_mem_parts (s : Statement) (symbols : Symbols) : s.reached symbols ∈ s.parts := by
  have hinside : ∀ u ∈ (s.reached symbols).parts, u ∈ s.parts :=
    reached_of_takes (P := fun t => ∀ u ∈ t.parts, u ∈ s.parts)
      (fun htakes hs u hu => hs u (htakes.mem_parts hu)) fun _ hu => hu
  exact hinside _ (mem_parts _)

/-- A statement that comes to no `END` does not end the run. -/
lemma state_of_ne_halt {s : Statement} {m : Machine}
    (h : ¬ ∃ span, s.reached m.symbols = .halt span) :
    (Exec.machineAfter (s.execute m)).state = m.state :=
  (s.state_execute m).resolve_right fun hends => h hends.2.2

end Statement

namespace Program

variable {p : Program}

lemma mem_parts {l : Line} (hl : l ∈ p.lines) {s : Statement} (hs : s ∈ l.statement.parts) :
    s ∈ p.parts := List.mem_flatMap.mpr ⟨l, hl, hs⟩

lemma hasGosub_eq_false (h : ∀ target span, .gosub target span ∉ p.parts) :
    p.hasGosub = false := by
  rw [← Bool.not_eq_true, hasGosub_iff]
  rintro ⟨target, span, hmem⟩
  exact h target span hmem

/-- A line whose number is in range is found at its number. -/
lemma lineAt?_number {l : Line} (hl : l ∈ p.lines) (hle : l.number ≤ maxLineNumber) :
    p.lineAt? (l.number : Int) = some l := by
  obtain ⟨l', hl'⟩ := lineAt?_of_le hle hl
  obtain ⟨hmem, hindex⟩ := lineAt?_eq_some hl'
  rw [lineIndex?_natCast hle] at hindex
  have heq : l' = l :=
    List.inj_on_of_nodup_map p.nodup_numbers hmem hl (Option.some.inj hindex).symm
  rw [hl', heq]

end Program

namespace Machine

variable {p : Program}

/-! ### Forward steps -/

/-- A step of a program that only goes forward leads to a greater line. -/
lemma line_lt_of_step (hforward : p.Forward) {m m' : Machine} (hdepth : m.stack.depth = 1)
    (hstep : m.step p = .next m') : m.stack.line < m'.stack.line := by
  obtain ⟨l, hl⟩ := exists_line_of_next hstep
  obtain ⟨hmem, hindex⟩ := Program.lineAt?_eq_some hl
  have hpart := l.statement.reached_mem_parts m.symbols
  have hmoves := l.statement.moves m
  rw [step_of_lineAt? hl] at hstep
  rw [lineIndex?_eq_some hindex]
  generalize l.statement.execute m = outcome at hmoves hstep
  cases hmoves with
  | fails f m₁ hstack => cases hstep
  | goesOn m₁ hstack =>
    obtain ⟨hrunning, -⟩ := follow_eq_next hstep
    dsimp only at hstep
    rw [follow_of_running hrunning] at hstep
    obtain ⟨k, hnext, rfl⟩ := advance_eq_next hstep
    exact Int.ofNat_lt.mpr (Program.lt_of_next? hnext)
  | jumps target span line m₁ hgoto htarget hstack =>
    obtain ⟨-, ⟨-, rfl⟩ | ⟨hflow, -⟩⟩ := follow_eq_next hstep
    · obtain ⟨x, hx, hlt⟩ := hforward.ahead l hmem target span (hgoto ▸ hpart)
      rw [Expr.target_of_constant? hx] at htarget
      cases htarget
      rw [hstack]
      exact hlt
    · simp at hflow
  | calls target span line m₁ hgosub htarget hstack =>
    exact absurd (Program.mem_parts hmem (hgosub ▸ hpart)) (hforward.noCalls target span)
  | returns span m₁ hret hstack hstate =>
    rw [CallStack.ret_of_depth_eq_one hdepth] at hstack
    cases hstack

/-- Without calls there is one frame at every stage of a run. -/
lemma depth_of_mem_stages (hnone : p.hasGosub = false) {fuel : Nat} {m₀ m : Machine}
    (h : m ∈ m₀.stages p fuel) : m.stack.depth = 1 := by
  obtain ⟨k, -, hrun⟩ := exists_of_mem_stages h
  exact ((Passes.of_unfinished hrun).fromCalls (isEmpty_of_unfinished hrun)).depth_eq_one hnone

/-- The lines that a run of a program that only goes forward executes have ascending numbers. -/
theorem pairwise_executed (hforward : p.Forward) (m₀ : Machine) (fuel : Nat) :
    (m₀.executed p fuel).Pairwise fun a b => a.number < b.number := by
  have hchain : ((m₀.stages p fuel).map fun m => m.stack.line).IsChain (· < ·) := by
    rw [List.isChain_map]
    refine (isChain_stages fuel m₀).imp_of_mem_imp fun a b ha _ hstep => ?_
    exact line_lt_of_step hforward
      (depth_of_mem_stages (Program.hasGosub_eq_false hforward.noCalls) ha) hstep
  have hlines := List.pairwise_map.mp hchain.pairwise
  rw [executed, List.pairwise_filterMap]
  refine hlines.imp fun {a b} hlt l hl l' hl' => ?_
  have ha := lineIndex?_eq_some (Program.lineAt?_eq_some hl).2
  have hb := lineIndex?_eq_some (Program.lineAt?_eq_some hl').2
  omega

/-- So no more lines are executed than there are. -/
lemma length_executed_le (hforward : p.Forward) (m₀ : Machine) (fuel : Nat) :
    (m₀.executed p fuel).length ≤ p.size := by
  have hnodup : (m₀.executed p fuel).Nodup :=
    (pairwise_executed hforward m₀ fuel).imp fun hlt heq => absurd hlt (by simp [heq])
  exact (hnodup.subperm fun l hl => mem_lines_of_mem_executed hl).length_le

/-! ### Programs without jumps -/

/-- The line that a machine is at executes an `END`, or it fails. -/
def Stops (p : Program) (m : Machine) : Prop :=
  ∃ l, m.line? p = some l ∧
    ((∃ span, l.statement.reached m.symbols = .halt span) ∨
      ∃ f m', l.statement.execute m = .error f m')

/-- A step at a line without calls and jumps stops there or goes on with the next line. -/
lemma step_of_straight (hcalls : ∀ target span, .gosub target span ∉ p.parts)
    (hjumps : ∀ target span, .goto target span ∉ p.parts) {m : Machine} {l : Line}
    (hl : m.line? p = some l) (hdepth : m.stack.depth = 1) (hrunning : m.state = .running) :
    (m.Stops p ∧ ∀ m', m.step p ≠ .next m') ∨
      ¬ m.Stops p ∧ ∃ m' : Machine, m.step p = m'.advance p l.number ∧ m'.stack = m.stack ∧
        m'.state = .running := by
  have hpart := Program.mem_parts (Program.lineAt?_eq_some hl).1
    (l.statement.reached_mem_parts m.symbols)
  have hstep := step_of_lineAt? hl
  by_cases hhalt : ∃ span, l.statement.reached m.symbols = .halt span
  · obtain ⟨span, hspan⟩ := hhalt
    obtain ⟨warnings, hreached⟩ := l.statement.execute_reached m
    refine .inl ⟨⟨l, hl, .inl ⟨span, hspan⟩⟩, fun m' hnext => ?_⟩
    rw [hreached, hspan, Statement.execute_halt] at hstep
    rw [hstep] at hnext
    cases (follow_eq_next hnext).1
  · have hstate := Statement.state_of_ne_halt hhalt
    have hmoves := l.statement.moves m
    cases hexecute : l.statement.execute m with
    | error f m₁ =>
      refine .inl ⟨⟨l, hl, .inr ⟨f, m₁, hexecute⟩⟩, fun m' hnext => ?_⟩
      rw [hexecute] at hstep
      cases hstep.symm.trans hnext
    | ok flow m₁ =>
      rw [hexecute] at hmoves hstate hstep
      have hgoes : m₁.state = .running := hstate.trans hrunning
      cases hmoves with
      | goesOn _ hstack =>
        refine .inr ⟨?_, m₁, hstep.trans (follow_of_running hgoes l.number .next), hstack, hgoes⟩
        rintro ⟨l', hl', hends | ⟨f, m', hfails⟩⟩
        · cases hl.symm.trans hl'
          exact hhalt hends
        · cases hl.symm.trans hl'
          cases hexecute.symm.trans hfails
      | jumps target span line _ hgoto => exact absurd (hgoto ▸ hpart) (hjumps target span)
      | calls target span line _ hgosub => exact absurd (hgosub ▸ hpart) (hcalls target span)
      | returns span _ hret hstack =>
        rw [CallStack.ret_of_depth_eq_one hdepth] at hstack
        cases hstack

/-- The machines `ms` execute the given lines from the first one on and without gaps, and only the
last of them can stop. If the result is that of a run that has ended, this one does, or all lines
are executed and none of the machines stops. -/
structure GoesThrough (p : Program) (ms : List Machine) (lines : List Line) (result : RunResult) :
    Prop where
  executed : ms.filterMap (line? p) <+: lines
  goes : ∀ m ∈ ms.dropLast, ¬ m.Stops p
  ended : ∀ r m', result = .ended r m' →
    (ms.filterMap (line? p) = lines ∧ ∀ m ∈ ms, ¬ m.Stops p) ∨
      ∃ last, ms.getLast? = some last ∧ last.Stops p

namespace GoesThrough

variable {m : Machine} {l : Line} {ms : List Machine} {lines : List Line} {result : RunResult}

/-- A line at which the run stops. -/
lemma stop (hl : m.line? p = some l) (hstops : m.Stops p) :
    GoesThrough p [m] (l :: lines) result where
  executed := by
    rw [List.filterMap_cons_some hl]
    exact ⟨lines, rfl⟩
  goes := List.forall_mem_nil _
  ended := fun _ _ _ => .inr ⟨m, rfl, hstops⟩

/-- A line at which the run does not stop, and the lines after it. -/
lemma cons (hl : m.line? p = some l) (hgoes : ¬ m.Stops p) (h : GoesThrough p ms lines result) :
    GoesThrough p (m :: ms) (l :: lines) result where
  executed := by
    rw [List.filterMap_cons_some hl]
    exact List.cons_prefix_cons.mpr ⟨rfl, h.executed⟩
  goes := by
    cases ms with
    | nil => exact List.forall_mem_nil _
    | cons m' ms =>
      rw [List.dropLast_cons_cons]
      exact List.forall_mem_cons.mpr ⟨hgoes, h.goes⟩
  ended := by
    intro r m' hresult
    rw [List.filterMap_cons_some hl]
    rcases h.ended r m' hresult with ⟨hall, hnone⟩ | ⟨last, hat, hstops⟩
    · exact .inl ⟨by rw [hall], List.forall_mem_cons.mpr ⟨hgoes, hnone⟩⟩
    · exact .inr ⟨last, by rw [List.getLast?_cons, hat]; rfl, hstops⟩

/-- No machine and no line. -/
lemma nil : GoesThrough p [] [] result where
  executed := List.prefix_rfl
  goes := List.forall_mem_nil _
  ended := fun _ _ _ => .inl ⟨rfl, List.forall_mem_nil _⟩

/-- A run that has made no step has not ended. -/
lemma unfinished : GoesThrough p [] lines (.unfinished m) where
  executed := List.nil_prefix
  goes := List.forall_mem_nil _
  ended := by
    intro r m' hresult
    cases hresult

end GoesThrough

/-- A run without calls and jumps executes one line after another. It stops at the first one that
ends it or fails, or comes to the last one. -/
lemma goesThrough_resume (hle : ∀ l ∈ p.lines, l.number ≤ maxLineNumber)
    (hcalls : ∀ target span, .gosub target span ∉ p.parts)
    (hjumps : ∀ target span, .goto target span ∉ p.parts) (fuel : Nat) {m : Machine}
    {before rest : List Line} {l : Line} (hlines : p.lines = before ++ l :: rest)
    (hline : m.stack.line = l.number) (hdepth : m.stack.depth = 1)
    (hrunning : m.state = .running) :
    GoesThrough p (m.resumeStages p fuel) (l :: rest) (m.resume p fuel) := by
  induction fuel generalizing m before l rest with
  | zero => exact .unfinished
  | succ fuel ih =>
    have hmem : l ∈ p.lines := by
      rw [hlines]
      exact List.mem_append_right _ List.mem_cons_self
    have hl : m.line? p = some l := by
      rw [line?, hline]
      exact Program.lineAt?_number hmem (hle l hmem)
    rcases step_of_straight hcalls hjumps hl hdepth hrunning with
      ⟨hstops, hend⟩ | ⟨hgoes, m₁, hstep, hstack, hstate⟩
    · rw [resumeStages_of_end hend]
      exact .stop hl hstops
    · rw [advance, Program.next?_of_split hlines] at hstep
      cases rest with
      | nil =>
        rw [resumeStages_of_end (by simp [hstep])]
        exact .cons hl hgoes .nil
      | cons l' rest =>
        obtain ⟨m₂, hstep, hline₂, hdepth₂, hstate₂⟩ : ∃ m₂, m.step p = .next m₂ ∧
            m₂.stack.line = l'.number ∧ m₂.stack.depth = 1 ∧ m₂.state = .running :=
          ⟨_, hstep, rfl, by rw [CallStack.depth_goto, hstack, hdepth], hstate⟩
        have hsplit : p.lines = (before ++ [l]) ++ l' :: rest := by simp [hlines]
        rw [resumeStages_of_next hstep, resume, hstep]
        exact .cons hl hgoes (ih hsplit hline₂ hdepth₂ hstate₂)

/-- The same for a run from the first line. -/
lemma goesThrough_run (hle : ∀ l ∈ p.lines, l.number ≤ maxLineNumber)
    (hcalls : ∀ target span, .gosub target span ∉ p.parts)
    (hjumps : ∀ target span, .goto target span ∉ p.parts) (m₀ : Machine) (fuel : Nat) :
    GoesThrough p (m₀.stages p fuel) p.lines (m₀.run p fuel) := by
  cases hlines : p.lines with
  | nil =>
    have hfirst : p.first? = none := by rw [Program.first?, hlines]; rfl
    rw [stages, hfirst]
    exact .nil
  | cons l rest =>
    have hfirst : p.first? = some l.number := by rw [Program.first?, hlines]; rfl
    have hsplit : p.lines = [] ++ l :: rest := hlines
    rw [stages_of_first? hfirst, run_of_first? hfirst]
    exact goesThrough_resume hle hcalls hjumps fuel hsplit rfl rfl rfl

/-- **Programs that only go forward.** Take a program that was read, without calls and with jumps to
fixed lines further on only. The lines that a run executes have ascending numbers. So no more lines
are executed than there are, and the run ends.

If the program has no jumps either, its lines are executed from the first one on and without gaps.
No line before the last one executed has an `END` executed or fails. When the run has ended, this
last one does, or all lines have been executed and none of them does. -/
theorem run_forward {tokens : List Token} (hp : Program.ofTokens tokens = .ok p)
    (hforward : p.Forward) (m₀ : Machine) :
    (∀ fuel, ((m₀.executed p fuel).Pairwise fun a b => a.number < b.number) ∧
      (m₀.executed p fuel).length ≤ p.size) ∧
    (∃ result m, m₀.run p (p.size + 1) = .ended result m) ∧
    ((∀ target span, .goto target span ∉ p.parts) → ∀ fuel,
      m₀.executed p fuel <+: p.lines ∧
      (∀ m ∈ (m₀.stages p fuel).dropLast, ¬ m.Stops p) ∧
      ∀ result m, m₀.run p fuel = .ended result m →
        (m₀.executed p fuel = p.lines ∧ ∀ m ∈ m₀.stages p fuel, ¬ m.Stops p) ∨
        ∃ last, (m₀.stages p fuel).getLast? = some last ∧ last.Stops p) := by
  have hlength := length_executed_le hforward m₀
  refine ⟨fun fuel => ⟨pairwise_executed hforward m₀ fuel, hlength fuel⟩, ?_,
    fun hjumps fuel => ?_⟩
  · cases hrun : m₀.run p (p.size + 1) with
    | ended result m => exact ⟨result, m, rfl⟩
    | unfinished m =>
      have hcount := hlength (p.size + 1)
      rw [length_executed_of_unfinished hrun] at hcount
      exact absurd hcount (Nat.not_succ_le_self _)
  · have hthrough := goesThrough_run (Program.le_max_of_ofTokens hp) hforward.noCalls hjumps m₀ fuel
    exact ⟨hthrough.executed, hthrough.goes, hthrough.ended⟩

/-- A program that jumps over its second line. -/
def skippingProgram : Program where
  lines :=
    [⟨1, .goto (.number 3.5 ⟨7, 10⟩) ⟨2, 10⟩, ⟨0, 10⟩⟩, ⟨2, .halt ⟨13, 16⟩, ⟨11, 16⟩⟩,
     ⟨3, .print none ⟨19, 24⟩, ⟨17, 24⟩⟩]
  ascending := by decide

/-- A program that ends in its second line. -/
def endingEarly : Program where
  lines :=
    [⟨1, .print none ⟨2, 7⟩, ⟨0, 7⟩⟩, ⟨2, .halt ⟨10, 13⟩, ⟨8, 13⟩⟩,
     ⟨3, .print none ⟨16, 21⟩, ⟨14, 21⟩⟩]
  ascending := by decide

lemma forward_skippingProgram : skippingProgram.Forward := by
  refine ⟨by simp [Program.parts, skippingProgram, Statement.parts], fun l hl target span h => ?_⟩
  have hline : (1 : Int) < Number.toLine 3.5 := by decide +kernel
  simp only [skippingProgram, List.mem_cons, List.not_mem_nil, or_false] at hl
  rcases hl with rfl | rfl | rfl
  · cases List.mem_singleton.mp h
    exact ⟨3.5, rfl, hline⟩
  · cases List.mem_singleton.mp h
  · cases List.mem_singleton.mp h

lemma forward_endingEarly : endingEarly.Forward := by
  constructor <;> simp [Program.parts, endingEarly, Statement.parts]

/-- The run of `skippingProgram` executes lines 1 and 3 and ends. The run of `endingEarly` stops in
the second line, which is the last one that it executes. -/
theorem skippingProgram_run_forward :
    let m₀ := Machine.start defaultPrompt .empty .unlimited
    Program.ofText "1 GOTO 3.5\n2 END\n3 PRINT" = .ok skippingProgram ∧
      (∃ result m, m₀.run skippingProgram 4 = .ended result m) ∧
      (m₀.executed skippingProgram 4).map Line.number = [1, 3] ∧
      ((m₀.executed skippingProgram 4).Pairwise fun a b => a.number < b.number) ∧
      Program.ofText "1 PRINT\n2 END\n3 PRINT" = .ok endingEarly ∧
      (m₀.executed endingEarly 3).map Line.number = [1, 2] ∧
      ∃ last, (m₀.stages endingEarly 3).getLast? = some last ∧ last.Stops endingEarly := by
  intro m₀
  have hskipping : Program.ofText "1 GOTO 3.5\n2 END\n3 PRINT" = .ok skippingProgram :=
    Program.eq_ok_of_lines (by decide +kernel)
  have hending : Program.ofText "1 PRINT\n2 END\n3 PRINT" = .ok endingEarly :=
    Program.eq_ok_of_lines (by decide +kernel)
  obtain ⟨tokens, -, htokens⟩ := Program.ofText_eq_ok_iff.mp hskipping
  obtain ⟨tokens', -, htokens'⟩ := Program.ofText_eq_ok_iff.mp hending
  obtain ⟨hascending, hends, -⟩ := run_forward htokens forward_skippingProgram m₀
  obtain ⟨-, -, hstraight⟩ := run_forward htokens' forward_endingEarly m₀
  obtain ⟨-, -, hlast⟩ :=
    hstraight (by simp [Program.parts, endingEarly, Statement.parts]) 3
  have hexecuted : (m₀.executed endingEarly 3).map Line.number = [1, 2] := by decide +kernel
  refine ⟨hskipping, hends, by decide +kernel, (hascending 4).1, hending, hexecuted, ?_⟩
  rcases hlast _ _ rfl with ⟨hall, -⟩ | hstops
  · rw [hall] at hexecuted
    cases hexecuted
  · exact hstops

end Machine

end LineBasic
