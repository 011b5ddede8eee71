import LineBasic.Proofs.Scan.Lines
import LineBasic.Proofs.Scan.Places

/-!
# Texts joined by a line break

A text that is scanned, a line break, and any other text: the tokens of both are the tokens of the
whole, and those of the other text only stand further on.

* `Position.shift`, `Token.shift`, `ScanError.shift`: the same place so many bytes and lines later;
* `scanFrom_shift`: a scan that starts later finds the same, later;
* `scanFrom_append_break`: a scan goes through the first text to the line break;
* `scan_append_break`: the tokens of the whole, or the failure in the other text.
-/

namespace LineBasic

/-! ### Later places -/

/-- The span that starts so many bytes later. -/
def Span.shift (bytes : Nat) (s : Span) : Span := ⟨s.start + bytes, s.stop + bytes⟩

/-- The token that stands so many bytes and lines later, in the same column. -/
def Token.shift (bytes lines : Nat) (t : Token) : Token :=
  { t with span := t.span.shift bytes, line := t.line + lines }

/-- The failure that stands so many bytes and lines later, in the same column. -/
def ScanError.shift (bytes lines : Nat) (e : ScanError) : ScanError :=
  { e with span := e.span.shift bytes, line := e.line + lines }

namespace Scan

namespace Position

/-- The place so many bytes and lines later, if these are whole lines. -/
def shift (bytes lines : Nat) (p : Position) : Position :=
  ⟨p.offset + bytes, p.line + lines, p.lineStart + bytes⟩

variable (bytes lines : Nat) (p : Position)

@[simp]
lemma column_shift : (p.shift bytes lines).column = p.column := by
  simp only [column, shift]
  omega

@[simp]
lemma span_shift (text : List Char) :
    (p.shift bytes lines).span text = (p.span text).shift bytes := by
  simp only [span, shift, Span.shift, Nat.add_right_comm]

@[simp]
lemma after_shift (text : List Char) (x : Lexeme) :
    (p.shift bytes lines).after text x = (p.after text x).shift bytes lines := by
  simp only [after, shift]
  split
  · simp only [Nat.add_right_comm]
  · simp only [Nat.add_right_comm]

lemma tokens_shift (text : List Char) (x : Lexeme) :
    (p.shift bytes lines).tokens text x = (p.tokens text x).map (Token.shift bytes lines) := by
  cases x with
  | gap => rfl
  | token kind =>
    rw [tokens, span_shift, column_shift]
    rfl

lemma error_shift (c : Char) (cs : List Char) :
    (p.shift bytes lines).error c cs = (p.error c cs).shift bytes lines := by
  rw [error, span_shift, column_shift]
  rfl

end Position

/-- A scan that starts later finds the same tokens or the same failure, later. -/
lemma scanFrom_shift (bytes lines : Nat) (p : Position) (cs : List Char) :
    scanFrom (p.shift bytes lines) cs =
      match scanFrom p cs with
      | .ok tokens => .ok (tokens.map (Token.shift bytes lines))
      | .error e => .error (e.shift bytes lines) := by
  induction cs using lexemes.induct generalizing p with
  | case1 => simp [scanFrom]
  | case2 c cs hnone => simp [scanFrom, hnone, Position.error_shift]
  | case3 c cs x n hlexeme ih =>
    rw [scanFrom, scanFrom]
    simp only [hlexeme, Position.after_shift, ih, Position.tokens_shift]
    cases scanFrom (p.after (c :: cs.take n) x) (cs.drop n) <;> simp

/-! ### Up to a line break -/

/-- A scan goes through a text to the line break after it. -/
lemma scanFrom_append_break {cs : List Char} {pieces : List (List Char × Lexeme)}
    (h : lexemes cs = some pieces) {d : Char} (hd : inRemark d = false) (ds : List Char)
    (p : Position) :
    scanFrom p (cs ++ d :: ds) =
      match scanFrom (p.afterAll pieces) (d :: ds) with
      | .ok tokens => .ok (p.tokensOf pieces ++ tokens)
      | .error e => .error e := by
  induction cs using lexemes.induct generalizing p pieces with
  | case1 =>
    rw [lexemes] at h
    cases h
    rw [Position.afterAll, Position.tokensOf, List.nil_append]
    cases scanFrom p (d :: ds) <;> rfl
  | case2 c cs hnone =>
    rw [lexemes] at h
    simp [hnone] at h
  | case3 c cs x n hlexeme ih =>
    rw [lexemes] at h
    simp only [hlexeme] at h
    obtain ⟨rest, hrest, rfl⟩ := Option.map_eq_some_iff.mp h
    have hle := (spelled_of_lexeme? hlexeme).1
    rw [List.cons_append, scanFrom, lexeme?_append_break hlexeme hd]
    simp only [List.drop_append_of_le_length hle, List.take_append_of_le_length hle, ih hrest]
    rw [Position.afterAll, Position.tokensOf]
    cases scanFrom ((p.after (c :: cs.take n) x).afterAll rest) (d :: ds) <;> simp

/-- A line is counted for each line break among the tokens. -/
lemma Position.line_afterAll (p : Position) (pieces : List (List Char × Lexeme)) :
    (p.afterAll pieces).line = p.line + ((p.tokensOf pieces).map Token.kind).count .newline := by
  induction pieces generalizing p with
  | nil => rfl
  | cons x pieces ih =>
    obtain ⟨text, lexeme⟩ := x
    rw [afterAll, ih, tokensOf, List.map_append, List.count_append, ← Nat.add_assoc]
    congr 1
    by_cases hx : lexeme = .token .newline
    · simp [hx, after, tokens]
    · cases lexeme with
      | gap => simp [after, tokens]
      | token kind =>
        have hkind : kind ≠ .newline := fun h => hx (congrArg Lexeme.token h)
        simp [hkind, after, tokens]

/-- A line break is one token. -/
lemma scanFrom_break_append (p : Position) {brk : List Char}
    (h : brk = ['\n'] ∨ brk = ['\r', '\n']) (cs : List Char) :
    scanFrom p (brk ++ cs) =
      match scanFrom (p.after brk (.token .newline)) cs with
      | .error e => .error e
      | .ok tokens => .ok (p.tokens brk (.token .newline) ++ tokens) := by
  rcases h with rfl | rfl
  · rw [List.singleton_append, scanFrom]
    rfl
  · rw [List.cons_append, List.singleton_append, scanFrom]
    rfl

/-- The step over a line break starts the scan anew, later. -/
lemma scanFrom_break (p : Position) {brk : List Char} (h : brk = ['\n'] ∨ brk = ['\r', '\n'])
    (cs : List Char) :
    scanFrom p (brk ++ cs) =
      match scanFrom .start cs with
      | .ok tokens =>
        .ok (⟨.newline, p.span brk, p.line, p.column⟩ ::
          tokens.map (Token.shift (p.span brk).stop p.line))
      | .error e => .error (e.shift (p.span brk).stop p.line) := by
  have hanew : p.after brk (.token .newline) = Position.start.shift (p.span brk).stop p.line := by
    simp [Position.after, Position.start, Position.shift, Position.span, Nat.add_comm]
  rw [scanFrom_break_append p h, hanew, scanFrom_shift]
  cases scanFrom .start cs <;> rfl

end Scan

/-- **Texts joined by a line break.**  Take a text that is scanned, a line break, and any other
text.  If the other text is scanned too, the tokens of the whole are those of the first text, the
line break, and those of the other text, which stand so many bytes later as the first text and the
line break have, and on a later line, one for the line break and one for each in the first text.
If the other text is not scanned, the whole fails at the same text, as much later. -/
theorem scan_append_break {source brk other : String} {tokens : List Token}
    (hbrk : brk = "\n" ∨ brk = "\r\n") (h : scan source = .ok tokens) :
    let bytes := Text.byteLength (source ++ brk).toList
    let lines := 1 + (tokens.map Token.kind).count .newline
    (∀ more, scan other = .ok more →
      scan (source ++ brk ++ other) =
        .ok (tokens ++
          ⟨.newline, ⟨Text.byteLength source.toList, bytes⟩, lines,
            1 + Text.byteLength (Text.lastLine source.toList)⟩ ::
          more.map (Token.shift bytes lines))) ∧
    ∀ e, scan other = .error e → scan (source ++ brk ++ other) = .error (e.shift bytes lines) := by
  obtain ⟨pieces, hpieces, rfl⟩ := Scan.scanFrom_eq_ok_iff.mp h
  obtain ⟨hsource, hspelled⟩ := Scan.spelled_of_lexemes hpieces
  have hbreak : brk.toList = ['\n'] ∨ brk.toList = ['\r', '\n'] := by
    rcases hbrk with rfl | rfl
    · exact .inl rfl
    · exact .inr rfl
  obtain ⟨d, ds, hcons, hd⟩ : ∃ d ds, brk.toList = d :: ds ∧ Scan.inRemark d = false := by
    rcases hbreak with hbreak | hbreak
    · exact ⟨_, _, hbreak, by decide⟩
    · exact ⟨_, _, hbreak, by decide⟩
  have hstop : Scan.Position.start.afterAll pieces = .past source.toList := by
    rw [hsource]
    exact Scan.Position.afterAll_past [] hspelled
  have hlines : (Scan.Position.past source.toList).line =
      1 + ((Scan.Position.start.tokensOf pieces).map Token.kind).count .newline := by
    rw [← hstop]
    exact Scan.Position.line_afterAll .start pieces
  have hspan : (Scan.Position.past source.toList).span brk.toList =
      ⟨Text.byteLength source.toList, Text.byteLength (source ++ brk).toList⟩ := by
    rw [String.toList_append, Text.byteLength_append]
    rfl
  have hscan : scan (source ++ brk ++ other) =
      match Scan.scanFrom (.past source.toList) (brk.toList ++ other.toList) with
      | .ok rest => .ok (Scan.Position.start.tokensOf pieces ++ rest)
      | .error e => .error e := by
    rw [scan, String.toList_append, String.toList_append, List.append_assoc, hcons,
      List.cons_append, Scan.scanFrom_append_break hpieces hd, hstop]
  rw [Scan.scanFrom_break _ hbreak] at hscan
  intro bytes lines
  refine ⟨fun more hmore => ?_, fun e he => ?_⟩
  · rw [scan] at hmore
    rw [hscan, hmore, hlines, Scan.Position.column_past, hspan]
  · rw [scan] at he
    rw [hscan, he, hlines, hspan]

/-- A point that ends the first text and a digit that starts the other one stay two numbers, and
`<` does not join an operator over the line break.  A lone `#` after two lines is found there. -/
theorem pointText_scan_append_break :
    scan "A=5." = .ok [⟨.ident "A", ⟨0, 1⟩, 1, 1⟩, ⟨.operator (.rel .eq), ⟨1, 2⟩, 1, 2⟩,
        ⟨.number 5, ⟨2, 4⟩, 1, 3⟩] ∧
      scan "5<\n>" = .ok [⟨.number 5, ⟨0, 1⟩, 1, 1⟩, ⟨.operator (.rel .lt), ⟨1, 2⟩, 1, 2⟩,
        ⟨.newline, ⟨2, 3⟩, 1, 3⟩, ⟨.operator (.rel .gt), ⟨3, 4⟩, 2, 1⟩] ∧
      scan ("A=5." ++ "\r\n" ++ "5<\n>") =
        .ok [⟨.ident "A", ⟨0, 1⟩, 1, 1⟩, ⟨.operator (.rel .eq), ⟨1, 2⟩, 1, 2⟩,
          ⟨.number 5, ⟨2, 4⟩, 1, 3⟩, ⟨.newline, ⟨4, 6⟩, 1, 5⟩, ⟨.number 5, ⟨6, 7⟩, 2, 1⟩,
          ⟨.operator (.rel .lt), ⟨7, 8⟩, 2, 2⟩, ⟨.newline, ⟨8, 9⟩, 2, 3⟩,
          ⟨.operator (.rel .gt), ⟨9, 10⟩, 3, 1⟩] ∧
      scan " #" = .error ⟨"#", ⟨1, 2⟩, 1, 2⟩ ∧
      scan ("A=5." ++ "\r\n" ++ " #") = .error ⟨"#", ⟨7, 8⟩, 2, 2⟩ := by
  have hfirst : scan "A=5." = .ok [⟨.ident "A", ⟨0, 1⟩, 1, 1⟩,
      ⟨.operator (.rel .eq), ⟨1, 2⟩, 1, 2⟩, ⟨.number 5, ⟨2, 4⟩, 1, 3⟩] := by
    decide +kernel
  have hother : scan "5<\n>" = .ok [⟨.number 5, ⟨0, 1⟩, 1, 1⟩,
      ⟨.operator (.rel .lt), ⟨1, 2⟩, 1, 2⟩, ⟨.newline, ⟨2, 3⟩, 1, 3⟩,
      ⟨.operator (.rel .gt), ⟨3, 4⟩, 2, 1⟩] := by
    decide +kernel
  have hfails : scan " #" = .error ⟨"#", ⟨1, 2⟩, 1, 2⟩ := by decide +kernel
  exact ⟨hfirst, hother, (scan_append_break (.inr rfl) hfirst).1 _ hother, hfails,
    (scan_append_break (.inr rfl) hfirst).2 _ hfails⟩

end LineBasic
