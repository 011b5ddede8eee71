import LineBasic.Proofs.Code.Listing
import LineBasic.Proofs.Code.OperandKinds

/-!
# The lines of a listing

A listing has one line for each instruction, and a heading for each line of the program.  No part
of an instruction goes over a line break, and no two lines of a program start at one instruction, so
that no heading is left out.

* `Instruction.oneLine_text`: an instruction is written on one line;
* `LineMap.get?_eq_some_iff`: a line map as a list of entries;
* `LineMap.Indexed.flatMap_lineAt?`: the lines that start at some index are all lines;
* `CodeUnit.linesFrom`, `CodeUnit.listing_eq_join`: the lines of a listing;
* `Program.listing_lines`: line map and listing of a program that was lowered.
-/

namespace LineBasic

open Text (Bare)

/-! ### Texts on one line -/

namespace Text

lemma OneLine.not_mem {s : String} (h : OneLine s) : '\n' ∉ s.toList := fun hmem =>
  absurd (h '\n' hmem) (by decide)

/-- A text in quotes is on one line if it was. -/
lemma OneLine.quoted {s : String} (h : OneLine s) : OneLine (quoted s) := by
  intro c hc
  rw [Text.quoted, String.toList_ofList] at hc
  rcases List.mem_append.mp hc with hc | hc
  · rcases List.mem_cons.mp hc with rfl | hc
    · decide
    · obtain ⟨d, hd, hc⟩ := List.mem_flatMap.mp hc
      rw [escape] at hc
      split at hc
      · rcases List.mem_cons.mp hc with rfl | hc
        · decide
        · rw [List.mem_singleton.mp hc]
          exact h d hd
      · rw [List.mem_singleton.mp hc]
        exact h d hd
  · rw [List.mem_singleton.mp hc]
    decide

lemma oneLine_toString (n : Nat) : OneLine (toString n) := by
  have hlist : (toString n).toList = Nat.toDigits 10 n := Nat.toList_repr
  intro c hc
  rw [hlist] at hc
  have hdigit := Nat.isDigit_of_mem_toDigits (by decide) (by decide) hc
  rw [bne_iff_ne]
  rintro rfl
  exact absurd hdigit (by decide)

lemma oneLine_fourDigits (n : Nat) : OneLine (fourDigits n) := by
  rw [fourDigits]
  refine OneLine.append (fun c hc => ?_) (oneLine_toString n)
  rw [String.toList_ofList] at hc
  rw [List.eq_of_mem_replicate hc]
  decide

/-- Lines that are written one after another, each with a line break, are read back. -/
lemma splitOn_join {lines : List String} (h : ∀ s ∈ lines, OneLine s) :
    (String.join (lines.map (· ++ "\n"))).toList.splitOn '\n' =
      lines.map String.toList ++ [[]] := by
  rw [String.toList_join, List.flatMap_map]
  induction lines with
  | nil => rfl
  | cons s lines ih =>
    obtain ⟨hs, hlines⟩ := List.forall_mem_cons.mp h
    have hbreak : (s ++ "\n").toList = s.toList ++ ['\n'] := by simp
    rw [List.flatMap_cons, hbreak, List.append_assoc, List.singleton_append,
      List.splitOn_append_cons_self_of_not_mem hs.not_mem, ih hlines]
    rfl

end Text

namespace Operand

/-- An operand of the code of a program is written on one line. -/
lemma OfKinds.oneLine_text {o : Operand} (h : o.OfKinds Bare Text.OneLine) :
    Text.OneLine o.text := by
  cases h with
  | given hname => exact hname.oneLine
  | temp k => exact (Text.bare_temp k).oneLine
  | number _ => exact (Text.bare_numberText _).oneLine
  | quoted htext => exact htext.quoted

end Operand

namespace Instruction

variable {i : Instruction}

lemma oneLine_operandsText (h : ∀ o ∈ i.operands, Text.OneLine o.text) :
    Text.OneLine i.operandsText := by
  have hspace : Text.OneLine " " := Text.oneLine_of_all (by decide +kernel)
  have hcomma : Text.OneLine ", " := Text.oneLine_of_all (by decide +kernel)
  obtain ⟨opcode, operand1, operand2, result, target, comment⟩ := i
  cases operand1 with
  | none =>
    cases operand2 with
    | none => exact Text.oneLine_of_all rfl
    | some b => exact hspace.append (h b (by simp [operands]))
  | some a =>
    have ha := hspace.append (h a (by simp [operands]))
    cases operand2 with
    | none => exact ha
    | some b => exact (ha.append hcomma).append (h b (by simp [operands]))

/-- An instruction is written on one line. -/
lemma oneLine_text (hi : i.texts.Regular)
    (h : i.opcode ≠ .label → ∀ o ∈ i.operands, o.OfKinds Bare Text.OneLine) :
    Text.OneLine i.text := by
  rw [text]
  split
  next hlabel =>
    obtain ⟨s, hs, hbare, -⟩ := hi.label hlabel
    have htext : i.operand1.map Operand.text = some s := hs
    rw [htext]
    exact hbare.oneLine.append (Text.oneLine_of_all (by decide +kernel))
  next hlabel =>
    have hmnemonic : Text.OneLine i.opcode.mnemonic := by
      cases i.opcode <;> exact Text.oneLine_of_all (by decide +kernel)
    have hoperands := oneLine_operandsText fun o ho => (h hlabel o ho).oneLine_text
    refine ((hmnemonic.append hoperands).append ?_).append ?_
    · rw [resultText]
      split
      next r hr =>
        have hbare : Bare r.text := hi.result r.text (by simp [texts, hr])
        exact (Text.oneLine_of_all (by decide +kernel)).append hbare.oneLine
      next => exact Text.oneLine_of_all (by decide +kernel)
    · rw [targetText]
      split
      next l hl =>
        have hbare : Bare l.text := hi.target l.text (by simp [texts, hl])
        exact (Text.oneLine_of_all (by decide +kernel)).append hbare.oneLine
      next => exact Text.oneLine_of_all (by decide +kernel)

end Instruction

/-! ### Line maps -/

namespace LineMap

variable {m : LineMap} {n : Nat}

lemma get?_eq_some_iff {line k : Nat} : m.get? line = some k ↔ (line, k) ∈ m.entries := by
  rw [get?, Option.map_eq_some_iff]
  constructor
  · rintro ⟨⟨line', k⟩, hfind, rfl⟩
    obtain rfl : line' = line := by simpa using List.find?_some hfind
    exact List.mem_of_find?_eq_some hfind
  · intro hmem
    obtain ⟨e, he⟩ := Option.isSome_iff_exists.mp (List.find?_isSome.mpr
      ⟨(line, k), hmem, beq_self_eq_true line⟩ :
        (m.entries.find? fun e => e.1 == line).isSome = true)
    have hnodup : (m.entries.map Prod.fst).Nodup := by
      rw [List.Nodup, List.pairwise_map]
      exact m.ascending.imp Nat.ne_of_lt
    have hline : e.1 = line := by simpa using List.find?_some he
    have heq : e = (line, k) :=
      List.inj_on_of_nodup_map hnodup (List.mem_of_find?_eq_some he) hmem hline
    exact ⟨e, he, by rw [heq]⟩

/-- Of two lines, the greater one has the greater index. -/
lemma Indexed.lt_iff_lt (h : m.Indexed n) {a b : Nat × Nat} (ha : a ∈ m.entries)
    (hb : b ∈ m.entries) : a.1 < b.1 ↔ a.2 < b.2 := by
  by_cases heq : a = b
  · rw [heq]
    exact iff_of_false (Nat.lt_irrefl _) (Nat.lt_irrefl _)
  · have hboth : m.entries.Pairwise fun a b =>
        a.1 < b.1 ∧ a.2 < b.2 ∨ b.1 < a.1 ∧ b.2 < a.2 :=
      (m.ascending.and h.increasing).imp Or.inl
    have : Std.Symm fun a b : Nat × Nat => a.1 < b.1 ∧ a.2 < b.2 ∨ b.1 < a.1 ∧ b.2 < a.2 :=
      ⟨fun _ _ => Or.symm⟩
    have horder := hboth.forall ha hb heq
    omega

/-- The lines that start at the indices below the bound are all lines, in order. -/
lemma Indexed.flatMap_lineAt? (h : m.Indexed n) :
    (List.range n).flatMap (fun k => (m.lineAt? k).toList) = m.entries.map Prod.fst := by
  have hentry {line k : Nat} : line ∈ (m.lineAt? k).toList ↔ (line, k) ∈ m.entries := by
    rw [Option.mem_toList]
    exact h.lineAt?_eq_some_iff
  have hsorted : ((List.range n).flatMap fun k => (m.lineAt? k).toList).Pairwise (· < ·) := by
    rw [List.pairwise_flatMap]
    refine ⟨fun k _ => ?_, List.pairwise_lt_range.imp fun hk x hx y hy => ?_⟩
    · cases m.lineAt? k <;> simp
    · exact (h.lt_iff_lt (hentry.mp hx) (hentry.mp hy)).mpr hk
  have hsorted' : (m.entries.map Prod.fst).Pairwise (· < ·) :=
    List.pairwise_map.mpr m.ascending
  have hmem (line : Nat) : line ∈ (List.range n).flatMap (fun k => (m.lineAt? k).toList) ↔
      line ∈ m.entries.map Prod.fst := by
    rw [List.mem_flatMap, List.mem_map]
    constructor
    · rintro ⟨k, -, hline⟩
      exact ⟨_, hentry.mp hline, rfl⟩
    · rintro ⟨⟨line, k⟩, he, rfl⟩
      exact ⟨k, List.mem_range.mpr (h.below _ he), hentry.mpr he⟩
  have hperm := (List.perm_ext_iff_of_nodup (hsorted.imp Nat.ne_of_lt)
    (hsorted'.imp Nat.ne_of_lt)).mpr hmem
  refine hperm.eq_of_pairwise (fun a b _ _ hab hba => ?_) hsorted hsorted'
  exact absurd (Nat.lt_trans hab hba) (Nat.lt_irrefl _)

end LineMap

lemma Line.map_fst_starts (start t l : Nat) (ls : List Line) :
    (starts start t l ls).map Prod.fst = ls.map Line.number := by
  induction ls generalizing start t l with
  | nil => rfl
  | cons x xs ih => rw [starts, List.map_cons, List.map_cons, ih]

/-! ### Listings -/

/-- The heading of a line of the program in a listing. -/
def lineHeading (line : Nat) : String := "; line " ++ toString line

/-- The line of an instruction in a listing: its index, its text and its remark. -/
def instructionLine (index : Nat) (i : Instruction) : String :=
  fourDigits index ++ "  " ++ i.text ++ ((i.comment.map fun c => "  ; " ++ c.text).getD "")

/-- Headings start with a semicolon. -/
def isHeading (s : String) : Bool := s.toList.head? == some ';'

lemma isHeading_lineHeading (line : Nat) : isHeading (lineHeading line) = true := by
  simp [isHeading, lineHeading]

lemma isHeading_instructionLine (index : Nat) (i : Instruction) :
    isHeading (instructionLine index i) = false := by
  obtain ⟨c, cs, hlist, hc⟩ := startsWithDigit_fourDigits index
  have hne : c ≠ ';' := by
    rintro rfl
    exact absurd hc (by decide)
  simp [isHeading, instructionLine, hlist, hne]

lemma lineHeading_injective {line line' : Nat} (h : lineHeading line = lineHeading line') :
    line = line' := by
  have hlist := congrArg String.toList h
  simp only [lineHeading, String.toList_append, List.append_cancel_left_eq] at hlist
  rw [Nat.toString_eq_repr, Nat.toString_eq_repr, Nat.toList_repr, Nat.toList_repr] at hlist
  exact toDigits_injective hlist

namespace CodeUnit

/-- The lines of a listing from an index on. -/
def linesFrom (u : CodeUnit) (k : Nat) (code : List Instruction) : List String :=
  (code.zipIdx k).flatMap fun (i, index) =>
    (u.lineMap.lineAt? index).toList.map lineHeading ++ [instructionLine index i]

variable {u : CodeUnit}

lemma linesFrom_append (k : Nat) (code code' : List Instruction) :
    u.linesFrom k (code ++ code') =
      u.linesFrom k code ++ u.linesFrom (k + code.length) code' := by
  rw [linesFrom, List.zipIdx_append, List.flatMap_append]
  rfl

lemma linesFrom_cons (k : Nat) (i : Instruction) (code : List Instruction) :
    u.linesFrom k (i :: code) =
      (u.lineMap.lineAt? k).toList.map lineHeading ++ instructionLine k i ::
        u.linesFrom (k + 1) code := by
  rw [linesFrom, List.zipIdx_cons, List.flatMap_cons, List.append_assoc]
  rfl

/-- A listing has its lines one after another. -/
lemma listing_eq_join (u : CodeUnit) :
    u.listing = String.join ((u.linesFrom 0 u.code.toList).map (· ++ "\n")) := by
  have hentry (index : Nat) (i : Instruction) : (u.entryText index i).toList =
      (((u.lineMap.lineAt? index).toList.map lineHeading ++ [instructionLine index i]).map
        (· ++ "\n")).flatMap String.toList := by
    rw [entryText]
    cases u.lineMap.lineAt? index <;> cases hcomment : i.comment <;>
      simp [lineHeading, instructionLine, hcomment]
  apply String.toList_inj.mp
  rw [listing, String.toList_join, String.toList_join, linesFrom, List.map_flatMap,
    List.flatMap_map, List.flatMap_assoc]
  simp only [hentry]

lemma filter_isHeading_linesFrom (k : Nat) (code : List Instruction) :
    (u.linesFrom k code).filter isHeading =
      ((List.range' k code.length).flatMap fun j => (u.lineMap.lineAt? j).toList).map
        lineHeading := by
  induction code generalizing k with
  | nil => rfl
  | cons i code ih =>
    rw [linesFrom_cons, List.filter_append,
      List.filter_cons_of_neg (by simp [isHeading_instructionLine]), ih, List.length_cons,
      List.range'_succ, List.flatMap_cons, List.map_append]
    congr 1
    rw [List.filter_eq_self]
    simp [isHeading_lineHeading]

lemma filter_not_isHeading_linesFrom (k : Nat) (code : List Instruction) :
    (u.linesFrom k code).filter (fun s => !isHeading s) =
      (code.zipIdx k).map fun (i, index) => instructionLine index i := by
  induction code generalizing k with
  | nil => rfl
  | cons i code ih =>
    have hheadings : ((u.lineMap.lineAt? k).toList.map lineHeading).filter
        (fun s => !isHeading s) = [] := by
      simp [isHeading_lineHeading]
    rw [linesFrom_cons, List.filter_append, hheadings,
      List.filter_cons_of_pos (by simp [isHeading_instructionLine]), ih]
    rfl

/-- The lines of a listing are without line breaks. -/
lemma oneLine_of_mem_linesFrom {code : List Instruction} (hcode : ∀ i ∈ code, i.texts.Regular)
    (htext : ∀ i ∈ code, Text.OneLine i.text) (k : Nat) :
    ∀ s ∈ u.linesFrom k code, Text.OneLine s := by
  have hheading (line : Nat) : Text.OneLine (lineHeading line) :=
    (Text.oneLine_of_all (by decide +kernel)).append (Text.oneLine_toString line)
  induction code generalizing k with
  | nil => simp [linesFrom]
  | cons i code ih =>
    obtain ⟨hi, hcode⟩ := List.forall_mem_cons.mp hcode
    obtain ⟨hitext, htext⟩ := List.forall_mem_cons.mp htext
    rw [linesFrom_cons, List.forall_mem_append, List.forall_mem_cons]
    refine ⟨?_, ?_, ih hcode htext _⟩
    · simpa using fun line _ => hheading line
    · obtain ⟨remark, hremark, hline⟩ := hi.comment
      obtain ⟨c, hc, rfl⟩ := Option.map_eq_some_iff.mp hremark
      rw [instructionLine, hc]
      refine (((Text.oneLine_fourDigits k).append ?_).append hitext).append (.append ?_ hline)
      · exact Text.oneLine_of_all (by decide +kernel)
      · exact Text.oneLine_of_all (by decide +kernel)

/-- The heading of a line stands right before the instruction at which the line starts. -/
lemma exists_linesFrom_eq {line k : Nat} (h : u.lineMap.Indexed u.code.size)
    (hline : u.lineMap.get? line = some k) :
    ∃ i before after, u.code[k]? = some i ∧
      u.linesFrom 0 u.code.toList =
        before ++ lineHeading line :: instructionLine k i :: after := by
  have hentry := LineMap.get?_eq_some_iff.mp hline
  have hstart : u.lineMap.lineAt? k = some line := h.lineAt?_eq_some_iff.mpr hentry
  have hk : k < u.code.toList.length := h.below _ hentry
  let i := u.code.toList[k]
  let before := u.code.toList.take k
  let after := u.code.toList.drop (k + 1)
  have hsplit : u.code.toList = before ++ i :: after := by
    rw [List.getElem_cons_drop, List.take_append_drop]
  have hlength : 0 + before.length = k := by
    rw [List.length_take, Nat.min_eq_left (Nat.le_of_lt hk), Nat.zero_add]
  refine ⟨i, u.linesFrom 0 before, u.linesFrom (k + 1) after, ?_, ?_⟩
  · rw [← Array.getElem?_toList, List.getElem?_eq_getElem hk]
  · calc u.linesFrom 0 u.code.toList
        = u.linesFrom 0 (before ++ i :: after) := congrArg (u.linesFrom 0) hsplit
      _ = u.linesFrom 0 before ++ u.linesFrom k (i :: after) := by rw [linesFrom_append, hlength]
      _ = u.linesFrom 0 before ++ lineHeading line :: instructionLine k i ::
            u.linesFrom (k + 1) after := by
        rw [linesFrom_cons, hstart]
        rfl

end CodeUnit

namespace Program

/-- The texts of a program that is read from a text are without line breaks. -/
lemma oneLine_of_ofText {source : String} {p : Program} (h : ofText source = .ok p) :
    ∀ l ∈ p.lines, ∀ x, .string x ∈ l.statement.leaves → Text.OneLine x := by
  intro l hl x hx c hc
  have hstring := inString_of_ofText h l hl x hx c hc
  simp only [Scan.inString, Scan.inRemark, Bool.and_eq_true] at hstring
  exact hstring.2.2

/-- **Line map and listing.**  Take a program that was read from a text and lowered, over any table
of variables.  Its line map has exactly the lines of the program; the index of a line goes up with
its number, starts at zero and stays inside the code.  Its listing has one line for each
instruction, in order, and one heading for each line of the program, right before the instruction
at which that line starts. -/
theorem listing_lines {source : String} {p : Program} {symbols : Symbols} {u : CodeUnit}
    (hp : ofText source = .ok p) (hu : p.lower symbols = .ok u) :
    u.lineMap.entries.map Prod.fst = p.lines.map Line.number ∧
    (∀ m n i j, u.lineMap.get? m = some i → u.lineMap.get? n = some j → m < n → i < j) ∧
    (∀ n, p.first? = some n → u.lineMap.get? n = some 0) ∧
    (∀ n i, u.lineMap.get? n = some i → i < u.code.size) ∧
    ∃ lines : List String,
      u.listing.toList.splitOn '\n' = lines.map String.toList ++ [[]] ∧
      (lines.filter fun s => !isHeading s) =
        u.code.toList.zipIdx.map (fun (i, index) => instructionLine index i) ∧
      lines.filter isHeading = p.lines.map (fun l => lineHeading l.number) ∧
      ∀ l ∈ p.lines, lines.count (lineHeading l.number) = 1 ∧
        ∃ k i before after, u.lineMap.get? l.number = some k ∧ u.code[k]? = some i ∧
          lines = before ++ lineHeading l.number :: instructionLine k i :: after := by
  have hwritten := written_of_ofText hp
  obtain ⟨hcode, hmap⟩ := layout_of_lower hwritten hu
  have hsize : u.code.size = (Line.code 0 0 p.lines).length := by
    rw [← hcode, Array.length_toList]
  have hindexed := Line.indexed_mapped p.ascending
    fun x hx => (hwritten x hx).statement.wellFormed.inputsNamed
  rw [← hmap, ← hsize] at hindexed
  have hentries : u.lineMap.entries = Line.starts 0 0 0 p.lines := by
    rw [hmap]
    exact (Line.entries_mapped p.ascending fun e he => by cases he).trans (List.nil_append _)
  have hkeys : u.lineMap.entries.map Prod.fst = p.lines.map Line.number := by
    rw [hentries, Line.map_fst_starts]
  have hregular : ∀ i ∈ u.code.toList, i.texts.Regular := by
    rw [hcode]
    exact Line.regular_code (bare_of_ofText hp) 0 0
  have hkinds : ∀ i ∈ u.code.toList, i.opcode ≠ .label →
      ∀ o ∈ i.operands, o.OfKinds Bare Text.OneLine := by
    rw [hcode]
    exact Line.ofKinds_code (bare_of_ofText hp) (oneLine_of_ofText hp) 0 0
  have honeLine : ∀ s ∈ u.linesFrom 0 u.code.toList, Text.OneLine s :=
    CodeUnit.oneLine_of_mem_linesFrom hregular
      (fun i hi => Instruction.oneLine_text (hregular i hi) (hkinds i hi)) 0
  have hheadings : (u.linesFrom 0 u.code.toList).filter isHeading =
      p.lines.map fun l => lineHeading l.number := by
    rw [CodeUnit.filter_isHeading_linesFrom, Array.length_toList, ← List.range_eq_range',
      hindexed.flatMap_lineAt?, hkeys, List.map_map]
    rfl
  refine ⟨hkeys, fun m n i j hi hj hlt => ?_, fun n hn => ?_, fun n i hi => ?_,
    u.linesFrom 0 u.code.toList, ?_, CodeUnit.filter_not_isHeading_linesFrom 0 _, hheadings,
    fun l hl => ⟨?_, ?_⟩⟩
  · exact (hindexed.lt_iff_lt (LineMap.get?_eq_some_iff.mp hi) (LineMap.get?_eq_some_iff.mp hj)).mp
      hlt
  · rw [LineMap.get?_eq_some_iff, hentries]
    cases hlines : p.lines with
    | nil => simp [first?, hlines] at hn
    | cons x xs =>
      obtain rfl : x.number = n := by simpa [first?, hlines] using hn
      exact List.mem_cons_self
  · exact hindexed.below _ (LineMap.get?_eq_some_iff.mp hi)
  · rw [u.listing_eq_join, Text.splitOn_join honeLine]
  · have hnodup : (p.lines.map fun l => lineHeading l.number).Nodup := by
      rw [List.Nodup, List.pairwise_map]
      exact p.ascending.imp fun hlt heq => Nat.ne_of_lt hlt (lineHeading_injective heq)
    rw [← List.count_filter (isHeading_lineHeading l.number), hheadings]
    exact List.count_eq_one_of_mem hnodup (List.mem_map.mpr ⟨l, hl, rfl⟩)
  · have hkey : l.number ∈ u.lineMap.entries.map Prod.fst := by
      rw [hkeys]
      exact List.mem_map_of_mem hl
    obtain ⟨⟨n, k⟩, he, rfl⟩ := List.mem_map.mp hkey
    have hget := LineMap.get?_eq_some_iff.mpr he
    obtain ⟨i, before, after, hi, hsplit⟩ := CodeUnit.exists_linesFrom_eq hindexed hget
    exact ⟨k, i, before, after, hget, hi, hsplit⟩

/-- A program that prints a text which looks like a heading. -/
def headingProgram : Program where
  lines :=
    [⟨10, .print (some (.string "; line 20" ⟨9, 20⟩)) ⟨3, 20⟩, ⟨0, 20⟩⟩,
     ⟨20, .halt ⟨24, 27⟩, ⟨21, 27⟩⟩]
  ascending := by decide

/-- Line 20 of `headingProgram` starts at the third instruction, and its heading stands once in the
listing. -/
theorem headingProgram_listing_lines :
    ofText "10 PRINT \"; line 20\"\n20 END\n" = .ok headingProgram ∧
      ∃ u, headingProgram.lower headingProgram.check.symbols = .ok u ∧
        u.lineMap.get? 10 = some 0 ∧ u.lineMap.get? 20 = some 2 ∧ u.code.size = 3 ∧
        ∃ lines : List String,
          u.listing.toList.splitOn '\n' = lines.map String.toList ++ [[]] ∧
          lines.count "; line 20" = 1 := by
  have hp : ofText "10 PRINT \"; line 20\"\n20 END\n" = .ok headingProgram :=
    eq_ok_of_lines (by decide +kernel)
  obtain ⟨u, hu, hunit⟩ : ∃ u, headingProgram.lower headingProgram.check.symbols = .ok u ∧
      (u.lineMap.get? 20, u.code.size) = (some 2, 3) :=
    exists_ok_of_map (by decide +kernel)
  obtain ⟨hindex, hsize⟩ := Prod.mk.inj hunit
  obtain ⟨-, -, hfirst, -, lines, hlisting, -, -, hlines⟩ := listing_lines hp hu
  exact ⟨hp, u, hu, hfirst 10 rfl, hindex, hsize, lines, hlisting,
    (hlines ⟨20, .halt ⟨24, 27⟩, ⟨21, 27⟩⟩ (by decide)).1⟩

end Program

end LineBasic
