import LineBasic.Proofs.Machine.Bare
import LineBasic.Proofs.Reading.Lines
import LineBasic.Proofs.Scan.Lines
import Mathlib.Data.List.Perm.Basic

/-!
# The order of lines in a text

The lines of a text may stand in any order. Each of them is scanned and read on its own, and the
program has them by their numbers.

* `Line.WrittenBy`: what a line of text writes, but for spans;
* `Program.ofText_join_iff`: the program that lines of text write has what each of them writes;
* `Program.ofText_join_perm`: lines in another order write the same program, but for spans, and the
  two programs run alike.
-/

namespace LineBasic

/-- A text that ends with a line feed and has no other. -/
def IsTextLine (text : String) : Prop := ∃ body, text.toList = body ++ ['\n'] ∧ '\n' ∉ body

lemma IsTextLine.wholeLines {text : String} (h : IsTextLine text) :
    Scan.WholeLines text.toList := by
  obtain ⟨body, hbody, -⟩ := h
  exact .inr ⟨body, hbody⟩

/-! ### Tokens of a line of text -/

/-- The kinds of tokens are those that a text is scanned to. -/
def ScansTo (text : String) (ts : List Token) : Prop :=
  ∃ pieces, Scan.lexemes text.toList = some pieces ∧ ts.map Token.kind = Scan.kindsOf pieces

namespace ScansTo

variable {text : String} {ts us : List Token}

lemma map_kind_eq (ht : ScansTo text ts) (hu : ScansTo text us) :
    ts.map Token.kind = us.map Token.kind := by
  obtain ⟨pieces, hpieces, hts⟩ := ht
  obtain ⟨pieces', hpieces', hus⟩ := hu
  rw [hpieces] at hpieces'
  rw [hts, hus, Option.some.inj hpieces']

lemma isBlock (h : ScansTo text ts) (htext : IsTextLine text) : IsBlock ts := by
  obtain ⟨body, hbody, hnot⟩ := htext
  obtain ⟨pieces, hpieces, hts⟩ := h
  rw [hbody] at hpieces
  obtain ⟨kinds, hkinds, hbreak⟩ := Scan.kinds_of_line hnot hpieces
  exact ⟨kinds, hts.trans hkinds, hbreak⟩

end ScansTo

section

variable {lines : List String} {tokens : List Token} {blocks : List (List Token)}

/-- Lines of text are scanned one by one. -/
lemma scan_join_eq_ok_iff (h : ∀ line ∈ lines, IsTextLine line) :
    scan (String.join lines) = .ok tokens ↔
      ∃ groups,
        List.Forall₂ (fun line group => Scan.lexemes line.toList = some group) lines groups ∧
        Scan.Position.start.tokensOf groups.flatten = tokens := by
  have hwhole : ∀ cs ∈ lines.map String.toList, Scan.WholeLines cs := by
    intro cs hcs
    obtain ⟨line, hline, rfl⟩ := List.mem_map.mp hcs
    exact (h line hline).wholeLines
  rw [scan, Scan.scanFrom_eq_ok_iff, String.toList_join, List.flatMap_def]
  simp only [Scan.lexemes_flatten hwhole, List.forall₂_map_left_iff]
  constructor
  · rintro ⟨_, ⟨groups, hgroups, rfl⟩, htokens⟩
    exact ⟨groups, hgroups, htokens⟩
  · rintro ⟨groups, hgroups, htokens⟩
    exact ⟨_, ⟨groups, hgroups, rfl⟩, htokens⟩

/-- The tokens of lines of text are those of each of them. -/
lemma scansTo_of_scan_join (h : ∀ line ∈ lines, IsTextLine line)
    (hscan : scan (String.join lines) = .ok tokens) :
    ∃ blocks, tokens = blocks.flatten ∧ List.Forall₂ ScansTo lines blocks := by
  obtain ⟨groups, hgroups, rfl⟩ := (scan_join_eq_ok_iff h).mp hscan
  obtain ⟨blocks, hblocks, hkinds⟩ := Scan.tokensOf_flatten .start groups
  refine ⟨blocks, hblocks, ?_⟩
  clear h hscan hblocks
  induction hgroups generalizing blocks with
  | nil =>
    cases hkinds
    exact .nil
  | cons hgroup _ ih =>
    cases hkinds with
    | cons hkind hkinds => exact .cons ⟨_, hgroup, hkind⟩ (ih _ hkinds)

lemma isBlock_of_scansTo (h : ∀ line ∈ lines, IsTextLine line)
    (hscans : List.Forall₂ ScansTo lines blocks) : ∀ ts ∈ blocks, IsBlock ts := by
  induction hscans with
  | nil => simp
  | cons hscan _ ih =>
    obtain ⟨hline, hlines⟩ := List.forall_mem_cons.mp h
    exact List.forall_mem_cons.mpr ⟨hscan.isBlock hline, ih hlines⟩

end

/-! ### Lines that a text writes -/

/-- Blocks of the same kinds write the same, but for spans. -/
lemma Line.Block.transport {ts us : List Token} {o : Option Line} (h : Line.Block ts o)
    (hkinds : us.map Token.kind = ts.map Token.kind) :
    ∃ o', Line.Block us o' ∧ o'.map Line.bare = o.map Line.bare := by
  cases h with
  | blank ht =>
    obtain ⟨t', rfl, ht'⟩ := List.map_eq_singleton_iff.mp hkinds
    exact ⟨none, .blank (ht'.trans ht), rfl⟩
  | line hl ht =>
    rw [List.map_append] at hkinds
    obtain ⟨front, back, rfl, hfront, hback⟩ := List.map_eq_append_iff.mp hkinds
    obtain ⟨t', rfl, ht'⟩ := List.map_eq_singleton_iff.mp hback
    obtain ⟨l', hl', hbare⟩ := hl.transport hfront
    exact ⟨some l', .line hl' (ht'.trans ht), congrArg some hbare⟩

/-- What a line of text writes, but for spans: one line or nothing. -/
def Line.WrittenBy (text : String) (o : Option Line) : Prop :=
  ∃ ts o', ScansTo text ts ∧ Line.Block ts o' ∧ o'.map Line.bare = o

section

variable {lines : List String} {blocks : List (List Token)} {os : List (Option Line)}

/-- Lines of text that write something can be scanned together. -/
lemma exists_scan_join (h : ∀ line ∈ lines, IsTextLine line)
    (hwritten : List.Forall₂ Line.WrittenBy lines os) :
    ∃ tokens, scan (String.join lines) = .ok tokens := by
  obtain ⟨groups, hgroups⟩ : ∃ groups,
      List.Forall₂ (fun line group => Scan.lexemes line.toList = some group) lines groups := by
    clear h
    induction hwritten with
    | nil => exact ⟨[], .nil⟩
    | cons hline _ ih =>
      obtain ⟨ts, o, ⟨group, hgroup, -⟩, -, -⟩ := hline
      obtain ⟨groups, hgroups⟩ := ih
      exact ⟨group :: groups, .cons hgroup hgroups⟩
  exact ⟨_, (scan_join_eq_ok_iff h).mpr ⟨groups, hgroups, rfl⟩⟩

lemma writtenBy_of_blocks (hscans : List.Forall₂ ScansTo lines blocks)
    (hblocks : List.Forall₂ Line.Block blocks os) :
    List.Forall₂ Line.WrittenBy lines (os.map (Option.map Line.bare)) := by
  induction hscans generalizing os with
  | nil =>
    cases hblocks
    exact .nil
  | cons hscan _ ih =>
    cases hblocks with
    | cons hblock hblocks => exact .cons ⟨_, _, hscan, hblock, rfl⟩ (ih hblocks)

lemma blocks_of_writtenBy (hwritten : List.Forall₂ Line.WrittenBy lines os)
    (hscans : List.Forall₂ ScansTo lines blocks) :
    ∃ os', List.Forall₂ Line.Block blocks os' ∧ os'.map (Option.map Line.bare) = os := by
  induction hwritten generalizing blocks with
  | nil =>
    cases hscans
    exact ⟨[], .nil, rfl⟩
  | cons hline _ ih =>
    cases hscans with
    | cons hscan hscans =>
      obtain ⟨ts, o, hts, hblock, rfl⟩ := hline
      obtain ⟨o', hblock', hbare⟩ := hblock.transport (hscan.map_kind_eq hts)
      obtain ⟨os', hblocks, rfl⟩ := ih hscans
      exact ⟨o' :: os', .cons hblock' hblocks, by rw [List.map_cons, hbare]⟩

end

/-! ### Programs -/

namespace Program

/-- Lines with distinct numbers are those of a program. -/
lemma exists_perm_of_nodup {ls : List Line} (h : (ls.map Line.number).Nodup) :
    ∃ p : Program, p.lines.Perm ls := by
  induction ls with
  | nil => exact ⟨empty, .refl _⟩
  | cons l ls ih =>
    obtain ⟨hnot, hnodup⟩ := List.nodup_cons.mp h
    obtain ⟨p, hp⟩ := ih hnodup
    have fresh : p.get? l.number = none := by
      rw [get?_eq_none_iff, (hp.map Line.number).mem_iff]
      exact hnot
    exact ⟨p.insert l fresh, (perm_insertLine l p.lines).trans (hp.cons l)⟩

/-- A program without spans is determined by the lines of the program. -/
lemma bare_eq_iff {p q : Program} {os : List (Option Line)} (h : p.lines.Perm os.reduceOption) :
    p.bare = q ↔ q.lines.Perm (os.map (Option.map Line.bare)).reduceOption := by
  have hbare : p.bare.lines.Perm (os.map (Option.map Line.bare)).reduceOption := by
    rw [List.reduceOption_map]
    exact h.map Line.bare
  constructor
  · rintro rfl
    exact hbare
  · exact fun hq => eq_of_perm (hbare.trans hq.symm)

/-- The program that lines of text write has, but for spans, what each of them writes. -/
theorem ofText_join_iff {lines : List String} (h : ∀ line ∈ lines, IsTextLine line) {q : Program} :
    (∃ p, ofText (String.join lines) = .ok p ∧ p.bare = q) ↔
      ∃ os, List.Forall₂ Line.WrittenBy lines os ∧ q.lines.Perm os.reduceOption := by
  constructor
  · rintro ⟨p, hp, hbare⟩
    obtain ⟨tokens, hscan, hread⟩ := ofText_eq_ok_iff.mp hp
    obtain ⟨blocks, rfl, hscans⟩ := scansTo_of_scan_join h hscan
    obtain ⟨os, hos, -, hlines⟩ := (readLines_blocks (isBlock_of_scansTo h hscans)).mp hread
    simp only [empty, List.append_nil] at hlines
    exact ⟨_, writtenBy_of_blocks hscans hos, (bare_eq_iff hlines).mp hbare⟩
  · rintro ⟨os, hos, hlines⟩
    obtain ⟨tokens, hscan⟩ := exists_scan_join h hos
    obtain ⟨blocks, rfl, hscans⟩ := scansTo_of_scan_join h hscan
    obtain ⟨os', hos', rfl⟩ := blocks_of_writtenBy hos hscans
    -- No number is taken twice, since the lines are those of a program but for spans.
    have hnodup : (os'.reduceOption.map Line.number).Nodup := by
      have hbare := (hlines.map Line.number).nodup_iff.mp q.nodup_numbers
      rwa [List.reduceOption_map, List.map_map] at hbare
    obtain ⟨p, hp⟩ := exists_perm_of_nodup hnodup
    have hread : ofTokens blocks.flatten = .ok p := by
      refine (readLines_blocks (isBlock_of_scansTo h hscans)).mpr ⟨os', hos', ?_⟩
      simp only [empty, List.append_nil]
      exact ⟨hnodup, hp⟩
    exact ⟨p, ofText_eq_ok_iff.mpr ⟨_, hscan, hread⟩, (bare_eq_iff hp).mpr hlines⟩

/-- Lines in another order write the same program, but for spans. -/
lemma ofText_join_of_perm {lines lines' : List String} (h : ∀ line ∈ lines, IsTextLine line)
    (hperm : lines.Perm lines') {p : Program} (hp : ofText (String.join lines) = .ok p) :
    ∃ p', ofText (String.join lines') = .ok p' ∧ p'.bare = p.bare := by
  have h' : ∀ line ∈ lines', IsTextLine line := fun line hline => h line (hperm.mem_iff.mpr hline)
  obtain ⟨os, hos, hlines⟩ := (ofText_join_iff h).mp ⟨p, hp, rfl⟩
  obtain ⟨os', hos', hperm'⟩ := List.perm_comp_forall₂ hperm.symm hos
  exact (ofText_join_iff h').mpr ⟨os', hos', hlines.trans (hperm'.filterMap id).symm⟩

/-- **The order of lines.**  Lines of text write a program exactly if they do in any other order.
The two programs have the same line numbers and, line by line, the same statements, but for spans.
They run alike: from the same machine they lead to the same result and to the same machine, but for
spans. -/
theorem ofText_join_perm (lines lines' : List String) (hlines : ∀ line ∈ lines, IsTextLine line)
    (hperm : lines.Perm lines') :
    ((∃ p, ofText (String.join lines) = .ok p) ↔ ∃ p, ofText (String.join lines') = .ok p) ∧
    ∀ p p', ofText (String.join lines) = .ok p → ofText (String.join lines') = .ok p' →
      p.lines.map Line.number = p'.lines.map Line.number ∧
      p.lines.map (fun l => l.statement.bare) = p'.lines.map (fun l => l.statement.bare) ∧
      ∀ (m : Machine) (fuel : Nat), (m.run p fuel).bare = (m.run p' fuel).bare := by
  have hlines' : ∀ line ∈ lines', IsTextLine line :=
    fun line hline => hlines line (hperm.mem_iff.mpr hline)
  refine ⟨⟨?_, ?_⟩, fun p p' hp hp' => ?_⟩
  · rintro ⟨p, hp⟩
    obtain ⟨p', hp', -⟩ := ofText_join_of_perm hlines hperm hp
    exact ⟨p', hp'⟩
  · rintro ⟨p', hp'⟩
    obtain ⟨p, hp, -⟩ := ofText_join_of_perm hlines' hperm.symm hp'
    exact ⟨p, hp⟩
  · have hbare : p.bare = p'.bare := by
      obtain ⟨q, hq, hbare⟩ := ofText_join_of_perm hlines hperm hp
      rw [hq] at hp'
      rw [← hbare, Except.ok.inj hp']
    have hmap : p.lines.map Line.bare = p'.lines.map Line.bare := congrArg Program.lines hbare
    refine ⟨?_, ?_, fun m fuel => ?_⟩
    · simpa [Line.bare, Function.comp_def] using congrArg (List.map Line.number) hmap
    · simpa [Line.bare, Function.comp_def] using congrArg (List.map Line.statement) hmap
    · rw [← Machine.run_bare, ← Machine.run_bare, hbare]

/-- Two numbered lines and a remark in two orders: the spans of the two programs differ, and the
programs run alike. -/
theorem shuffled_ofText_join_perm :
    let lines := ["20 PRINT A\n", "REM first 10\n", "10 A = 1\r\n"]
    let lines' := ["10 A = 1\r\n", "20 PRINT A\n", "REM first 10\n"]
    (∀ line ∈ lines, IsTextLine line) ∧ lines.Perm lines' ∧
      ∃ p p', ofText (String.join lines) = .ok p ∧ ofText (String.join lines') = .ok p' ∧
        p ≠ p' ∧ p'.lines.map Line.number = [10, 20] ∧
        p.lines.map Line.number = p'.lines.map Line.number ∧
        p.lines.map (fun l => l.statement.bare) = p'.lines.map (fun l => l.statement.bare) ∧
        ∀ (m : Machine) (fuel : Nat), (m.run p fuel).bare = (m.run p' fuel).bare := by
  intro lines lines'
  have hlines : ∀ line ∈ lines, IsTextLine line := by
    simp only [lines, List.forall_mem_cons]
    refine ⟨⟨"20 PRINT A".toList, ?_⟩, ⟨"REM first 10".toList, ?_⟩, ⟨"10 A = 1\r".toList, ?_⟩, ?_⟩
    · decide
    · decide
    · decide
    · simp
  have hperm : lines.Perm lines' := by decide
  obtain ⟨p, hp, hpl⟩ := @exists_of_lines _ (ofText (String.join lines))
    [⟨10, .assign "A" (.number 1 ⟨31, 32⟩) ⟨27, 32⟩, ⟨24, 32⟩⟩,
     ⟨20, .print (some (.ident "A" ⟨9, 10⟩)) ⟨3, 10⟩, ⟨0, 10⟩⟩] (by decide +kernel)
  obtain ⟨p', hp', hpl'⟩ := @exists_of_lines _ (ofText (String.join lines'))
    [⟨10, .assign "A" (.number 1 ⟨7, 8⟩) ⟨3, 8⟩, ⟨0, 8⟩⟩,
     ⟨20, .print (some (.ident "A" ⟨19, 20⟩)) ⟨13, 20⟩, ⟨10, 20⟩⟩] (by decide +kernel)
  have hne : p ≠ p' := by
    rintro rfl
    rw [hpl] at hpl'
    exact absurd hpl' (by decide)
  refine ⟨hlines, hperm, p, p', hp, hp', hne, by rw [hpl']; rfl, ?_⟩
  exact (ofText_join_perm lines lines' hlines hperm).2 p p' hp hp'

end Program

end LineBasic
