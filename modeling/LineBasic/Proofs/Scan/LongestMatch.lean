import LineBasic.Proofs.Scan.Patterns

/-!
# The longest match

A scan goes from place to place. At each it takes the longest text that some pattern matches, and
it fails where no pattern matches.

* `Longest`, `Stuck`: the longest matched text at a place, and places without one;
* `le_of_spelled`: where a text stands that is spelled as a lexeme, the scan takes no shorter one;
* `longest_of_lexeme?`, `stuck_of_lexeme?`: the scan takes the longest matched text, if there is
  one;
* `Munched`: what longest matches make of a text, place by place;
* `scan_eq_iff_munched`: that is what the scan makes of it.
-/

namespace LineBasic

namespace Scan

/-! ### The longest lexeme -/

/-- A class of characters goes at least as far as the characters known to be in it. -/
lemma le_length_takeWhile {p : Char → Bool} {cs : List Char} (h : ∀ d ∈ cs, p d = true)
    (rest : List Char) : cs.length ≤ ((cs ++ rest).takeWhile p).length := by
  rw [List.takeWhile_append_of_pos h, List.length_append]
  exact Nat.le_add_right _ _

lemma le_wordLexeme (c : Char) (cs : List Char) :
    (cs.takeWhile isWordRest).length ≤ (wordLexeme c cs).2 := by
  rw [wordLexeme]
  split
  · exact Nat.le_add_right _ _
  · split
    · exact Nat.le_refl _
    · exact Nat.le_refl _

lemma le_numberLexeme (c : Char) (cs : List Char) :
    (cs.takeWhile Char.isDigit).length ≤ (numberLexeme c cs).2 := by
  rw [numberLexeme]
  split
  · dsimp only
    omega
  · exact Nat.le_refl _

/-- A word and what follows it are in one lexeme if the word is `REM` and a remark follows. -/
lemma le_wordLexeme_remark {c : Char} {cs more : List Char} (hword : IsWord (c :: cs))
    (hrem : capitals (c :: cs) = "REM") (hmore : IsRemarkText more) (rest : List Char) :
    (cs ++ more).length ≤ (wordLexeme c (cs ++ more ++ rest)).2 := by
  cases more with
  | nil =>
    rw [List.append_nil]
    exact Nat.le_trans (le_length_takeWhile hword.2 rest) (le_wordLexeme c _)
  | cons b more =>
    obtain ⟨hb, hmore⟩ := hmore
    have hblank : (b == ' ' || b == '\t') = true := by simpa using hb
    have hend : isWordRest b = false := by rcases hb with rfl | rfl <;> decide
    have hle := le_length_takeWhile hmore rest
    rw [List.append_assoc, List.cons_append, wordLexeme, takeWhile_append_cons hend,
      dropWhile_append_cons hend, List.takeWhile_eq_self_iff.mpr hword.2,
      List.dropWhile_eq_nil_iff.mpr hword.2, List.nil_append, remarkLength, if_pos hblank]
    simp only [hrem, beq_self_eq_true, if_true, List.length_append, List.length_cons]
    omega

lemma le_numberLexeme_decimal (c : Char) {cs fraction : List Char}
    (h : ∀ d ∈ cs, d.isDigit = true) (hfraction : ∀ d ∈ fraction, d.isDigit = true)
    (rest : List Char) :
    (cs ++ '.' :: fraction).length ≤ (numberLexeme c (cs ++ '.' :: fraction ++ rest)).2 := by
  have hpoint : '.'.isDigit = false := by decide
  have hle := le_length_takeWhile hfraction rest
  rw [List.append_assoc, List.cons_append, numberLexeme, takeWhile_append_cons hpoint,
    dropWhile_append_cons hpoint, List.takeWhile_eq_self_iff.mpr h,
    List.dropWhile_eq_nil_iff.mpr h]
  simp only [List.nil_append, List.length_append, List.length_cons]
  omega

/-- A relation of one character may go on with a second one. -/
lemma exists_lexeme?_relation (rest : List Char) :
    (∃ x n, lexeme? '<' rest = some (x, n)) ∧ ∃ x n, lexeme? '>' rest = some (x, n) := by
  have hless : lexeme? '<' rest = markLexeme? '<' rest := rfl
  have hgreater : lexeme? '>' rest = markLexeme? '>' rest := rfl
  rw [hless, hgreater]
  unfold markLexeme?
  constructor
  · split <;> simp_all
  · split <;> simp_all

/-- Where a mark stands, the scan takes a lexeme as long as the mark. -/
lemma exists_lexeme?_of_mark (rest : List Char) : ∀ m ∈ marks,
    match m.1 with
    | [] => False
    | c :: cs => ∃ x n, lexeme? c (cs ++ rest) = some (x, n) ∧ cs.length ≤ n := by
  obtain ⟨⟨x, n, hless⟩, y, k, hgreater⟩ := exists_lexeme?_relation rest
  have hfixed {c : Char} {cs : List Char} {x : Lexeme}
      (h : lexeme? c (cs ++ rest) = some (x, cs.length)) :
      ∃ x n, lexeme? c (cs ++ rest) = some (x, n) ∧ cs.length ≤ n := ⟨x, _, h, Nat.le_refl _⟩
  simp only [marks, List.forall_mem_cons]
  exact ⟨hfixed rfl, hfixed rfl, hfixed rfl, hfixed rfl, hfixed rfl, hfixed rfl, hfixed rfl,
    ⟨x, n, hless, Nat.zero_le n⟩, hfixed rfl, hfixed rfl, ⟨y, k, hgreater, Nat.zero_le k⟩,
    hfixed rfl, hfixed rfl, hfixed rfl, hfixed rfl, hfixed rfl, by simp⟩

/-- Where a text stands that is spelled as a lexeme, the scan takes a lexeme that is as long. -/
lemma le_of_spelled {c : Char} {cs : List Char} {y : Lexeme} (h : Spelled (c :: cs) y)
    (rest : List Char) : ∃ x n, lexeme? c (cs ++ rest) = some (x, n) ∧ cs.length ≤ n := by
  have hwhole {word : List Char} (hlist : c :: cs = word) (hword : IsWord word) :
      ∃ x n, lexeme? c (cs ++ rest) = some (x, n) ∧ cs.length ≤ n := by
    subst hlist
    exact ⟨_, _, lexeme?_word _ hword.1,
      Nat.le_trans (le_length_takeWhile hword.2 rest) (le_wordLexeme c _)⟩
  generalize htext : c :: cs = text at h
  cases h with
  | blanks h =>
    cases htext
    obtain ⟨hc, hcs⟩ := List.forall_mem_cons.mp h
    refine ⟨.gap, _, ?_, le_length_takeWhile hcs rest⟩
    rw [lexeme?, if_pos hc]
  | @remark word more hword hrem hmore =>
    cases word with
    | nil => cases hword
    | cons d ds =>
      obtain ⟨rfl, rfl⟩ := List.cons.inj htext
      exact ⟨_, _, lexeme?_word _ hword.1, le_wordLexeme_remark hword hrem hmore rest⟩
  | keyword hword hk => exact hwhole htext hword
  | ident hword hrem hk => exact hwhole htext hword
  | whole h =>
    cases htext
    obtain ⟨hc, hcs⟩ := List.forall_mem_cons.mp h
    exact ⟨_, _, lexeme?_number _ hc,
      Nat.le_trans (le_length_takeWhile hcs rest) (le_numberLexeme c _)⟩
  | @decimal d ds fraction h hfraction =>
    obtain ⟨rfl, rfl⟩ := List.cons.inj htext
    obtain ⟨hc, hcs⟩ := List.forall_mem_cons.mp h
    exact ⟨_, _, lexeme?_number _ hc, le_numberLexeme_decimal c hcs hfraction rest⟩
  | @string body h =>
    cases htext
    have hquote : inString '"' = false := by decide
    have hlexeme (more : List Char) : lexeme? '"' more = stringLexeme? more := rfl
    refine ⟨.token (.string (String.ofList body)), body.length + 1, ?_, by simp⟩
    rw [hlexeme, List.append_assoc, List.singleton_append, stringLexeme?,
      takeWhile_append_cons hquote, dropWhile_append_cons hquote,
      List.takeWhile_eq_self_iff.mpr h, List.dropWhile_eq_nil_iff.mpr h]
    rfl
  | mark h =>
    subst htext
    exact exists_lexeme?_of_mark rest _ h

/-! ### Longest matches -/

/-- A text is the longest one that some pattern matches where it stands, before `later`. -/
structure Longest (piece later : List Char) : Prop where
  ne_nil : piece ≠ []
  matched : Matched piece
  longest : ∀ text, text <+: piece ++ later → Matched text → text.length ≤ piece.length

/-- No pattern matches any text at the front, other than the empty one. -/
def Stuck (rest : List Char) : Prop := ∀ text, text <+: rest → text ≠ [] → ¬ Matched text

variable {c : Char} {cs : List Char} {x : Lexeme} {n : Nat}

/-- A matched text at the front is no longer than the lexeme that the scan takes. -/
lemma exists_lexeme?_of_matched {text : List Char} (htext : text <+: c :: cs) (hne : text ≠ [])
    (h : Matched text) : ∃ x n, lexeme? c cs = some (x, n) ∧ text.length ≤ n + 1 := by
  obtain ⟨y, hy⟩ := matched_iff.mp h
  obtain ⟨rest, hrest⟩ := htext
  cases text with
  | nil => exact absurd rfl hne
  | cons d ds =>
    obtain ⟨rfl, rfl⟩ := List.cons.inj hrest
    obtain ⟨x, n, hlexeme, hle⟩ := le_of_spelled hy rest
    exact ⟨x, n, hlexeme, Nat.succ_le_succ hle⟩

/-- The scan takes the longest matched text. -/
lemma longest_of_lexeme? (h : lexeme? c cs = some (x, n)) :
    Longest (c :: cs.take n) (cs.drop n) ∧ Yields (c :: cs.take n) x := by
  obtain ⟨hle, hspelled⟩ := spelled_of_lexeme? h
  refine ⟨⟨List.cons_ne_nil _ _, matched_iff.mpr ⟨x, hspelled⟩, fun text htext hmatch => ?_⟩,
    yields_iff_spelled.mpr hspelled⟩
  rw [List.cons_append, List.take_append_drop] at htext
  rw [List.length_cons, List.length_take_of_le hle]
  by_cases hne : text = []
  · simp [hne]
  · obtain ⟨y, k, hlexeme, hlength⟩ := exists_lexeme?_of_matched htext hne hmatch
    cases h.symm.trans hlexeme
    exact hlength

/-- Where the scan takes nothing, nothing matches. -/
lemma stuck_of_lexeme? (h : lexeme? c cs = none) : Stuck (c :: cs) := by
  intro text htext hne hmatch
  obtain ⟨x, n, hlexeme, -⟩ := exists_lexeme?_of_matched htext hne hmatch
  rw [h] at hlexeme
  cases hlexeme

/-- There is one longest matched text at most. -/
lemma Longest.unique {piece later piece' later' : List Char} (h : Longest piece later)
    (h' : Longest piece' later') (heq : piece ++ later = piece' ++ later') :
    piece = piece' ∧ later = later' := by
  refine List.append_inj heq (Nat.le_antisymm ?_ ?_)
  · exact h'.longest _ (heq ▸ List.prefix_append _ _) h.matched
  · exact h.longest _ (heq ▸ List.prefix_append _ _) h'.matched

lemma Longest.not_stuck {piece later : List Char} (h : Longest piece later) :
    ¬ Stuck (piece ++ later) :=
  fun hstuck => hstuck piece (List.prefix_append _ _) h.ne_nil h.matched

/-! ### Place by place -/

/-- The token of a text that stands after `before`. -/
def tokenAt (before piece : List Char) (kind : Kind) : Token where
  kind := kind
  span := ⟨Text.byteLength before, Text.byteLength (before ++ piece)⟩
  line := 1 + before.count '\n'
  column := 1 + Text.byteLength (Text.lastLine before)

/-- The failure at a text that stands after `before`. -/
def errorAt (before slice : List Char) : ScanError where
  slice := String.ofList slice
  span := ⟨Text.byteLength before, Text.byteLength (before ++ slice)⟩
  line := 1 + before.count '\n'
  column := 1 + Text.byteLength (Text.lastLine before)

/-- What longest matches make of the rest of a text, after `before`. A place is passed over or
gives a token, by what its longest match stands for. Where nothing matches the rest fails, at one
character, or at a quote and all characters after it up to a quote or the end of the line. -/
inductive Munched : List Char → List Char → Except ScanError (List Token) → Prop
  | done {before : List Char} : Munched before [] (.ok [])
  | skip {before piece later : List Char} {result : Except ScanError (List Token)}
      (h : Longest piece later) (hx : Yields piece .gap)
      (hlater : Munched (before ++ piece) later result) :
      Munched before (piece ++ later) result
  | token {before piece later : List Char} {kind : Kind} {result : Except ScanError (List Token)}
      (h : Longest piece later) (hx : Yields piece (.token kind))
      (hlater : Munched (before ++ piece) later result) :
      Munched before (piece ++ later) (result.map (tokenAt before piece kind :: ·))
  | character {before : List Char} {c : Char} {cs : List Char} (h : Stuck (c :: cs))
      (hc : c ≠ '"') : Munched before (c :: cs) (.error (errorAt before [c]))
  | quote {before cs : List Char} (h : Stuck ('"' :: cs)) :
      Munched before ('"' :: cs)
        (.error (errorAt before
          ('"' :: cs.takeWhile fun c => c != '"' && (c != '\r' && c != '\n'))))

lemma span_past (before text : List Char) :
    (Position.past before).span text =
      ⟨Text.byteLength before, Text.byteLength (before ++ text)⟩ := by
  rw [Text.byteLength_append]
  rfl

lemma tokens_past (before piece : List Char) (kind : Kind) :
    (Position.past before).tokens piece (.token kind) = [tokenAt before piece kind] := by
  rw [Position.tokens, span_past, Position.column_past]
  rfl

lemma error_past (before : List Char) (c : Char) (cs : List Char) :
    (Position.past before).error c cs = errorAt before (blamed c cs) := by
  rw [Position.error, span_past, Position.column_past]
  rfl

/-- Over a longest match the scan goes on to the place after it. -/
lemma scanFrom_of_longest {before piece later : List Char} (h : Longest piece later)
    (hx : Yields piece x) :
    scanFrom (.past before) (piece ++ later) =
      (scanFrom (.past (before ++ piece)) later).map
        ((Position.past before).tokens piece x ++ ·) := by
  cases piece with
  | nil => exact absurd rfl h.ne_nil
  | cons c ds =>
    cases hlexeme : lexeme? c (ds ++ later) with
    | none => exact absurd (stuck_of_lexeme? hlexeme) h.not_stuck
    | some found =>
      obtain ⟨y, n⟩ := found
      obtain ⟨hlongest, hy⟩ := longest_of_lexeme? hlexeme
      have hsplit : c :: ds ++ later = c :: (ds ++ later).take n ++ (ds ++ later).drop n := by
        rw [List.cons_append, List.cons_append, List.take_append_drop]
      obtain ⟨htext, hlater⟩ := h.unique hlongest hsplit
      have hspelled := yields_iff_spelled.mp hx
      obtain rfl : x = y := hspelled.unique (htext ▸ yields_iff_spelled.mp hy)
      rw [List.cons_append, scanFrom, hlexeme]
      dsimp only
      rw [← htext, ← hlater, Position.after_past before hspelled]
      cases scanFrom (.past (before ++ c :: ds)) later <;> rfl

/-- Where nothing matches the scan fails. -/
lemma scanFrom_of_stuck {before : List Char} (h : Stuck (c :: cs)) :
    scanFrom (.past before) (c :: cs) = .error (errorAt before (blamed c cs)) := by
  cases hlexeme : lexeme? c cs with
  | none =>
    rw [scanFrom, hlexeme]
    dsimp only
    rw [error_past]
  | some found =>
    obtain ⟨hlongest, -⟩ := longest_of_lexeme? hlexeme
    have hnot := hlongest.not_stuck
    rw [List.cons_append, List.take_append_drop] at hnot
    exact absurd h hnot

/-- The scan does what longest matches do. -/
lemma munched_scanFrom (before rest : List Char) :
    Munched before rest (scanFrom (.past before) rest) := by
  induction rest using lexemes.induct generalizing before with
  | case1 =>
    rw [scanFrom]
    exact .done
  | case2 c cs hnone =>
    have hstuck := stuck_of_lexeme? hnone
    rw [scanFrom_of_stuck hstuck]
    by_cases hc : c = '"'
    · subst hc
      exact .quote hstuck
    · have hblamed : blamed c cs = [c] := by simp [blamed, hc]
      rw [hblamed]
      exact .character hstuck hc
  | case3 c cs x n hlexeme ih =>
    obtain ⟨hlongest, hx⟩ := longest_of_lexeme? hlexeme
    have hlater := ih (before ++ c :: cs.take n)
    have hsplit : c :: cs = c :: cs.take n ++ cs.drop n := by
      rw [List.cons_append, List.take_append_drop]
    rw [hsplit, scanFrom_of_longest hlongest hx]
    cases x with
    | gap =>
      have hmunched := Munched.skip hlongest hx hlater
      cases hresult : scanFrom (.past (before ++ c :: cs.take n)) (cs.drop n) with
      | error e => rwa [hresult] at hmunched
      | ok tokens => rwa [hresult] at hmunched
    | token kind =>
      rw [tokens_past]
      exact .token hlongest hx hlater

/-- Longest matches do what the scan does. -/
lemma Munched.eq_scanFrom {before rest : List Char} {result : Except ScanError (List Token)}
    (h : Munched before rest result) : scanFrom (.past before) rest = result := by
  induction h with
  | done => rw [scanFrom]
  | @skip before piece later result h hx hlater ih =>
    rw [scanFrom_of_longest h hx, ih]
    cases result <;> rfl
  | token h hx hlater ih =>
    rw [scanFrom_of_longest h hx, ih, tokens_past]
    rfl
  | @character before c cs h hc =>
    have hblamed : blamed c cs = [c] := by simp [blamed, hc]
    rw [scanFrom_of_stuck h, hblamed]
  | quote h => exact scanFrom_of_stuck h

end Scan

/-- **The scan is longest match.**  Of every text the scan makes what the longest matches of the
patterns make of it, place by place.  The name of a token is never `REM` or a keyword. -/
theorem scan_eq_iff_munched (source : String) :
    (∀ result, scan source = result ↔ Scan.Munched [] source.toList result) ∧
      ∀ tokens, scan source = .ok tokens → ∀ t ∈ tokens, ∀ name, t.kind = .ident name →
        name ≠ "REM" ∧ Keyword.ofWord? name = none := by
  have hmunched : Scan.Munched [] source.toList (scan source) := Scan.munched_scanFrom [] _
  refine ⟨fun result => ⟨?_, Scan.Munched.eq_scanFrom⟩, fun tokens htokens t ht name hname => ?_⟩
  · rintro rfl
    exact hmunched
  · obtain ⟨text, hspelled⟩ := Scan.spelled_of_mem_scan htokens ht
    rw [hname] at hspelled
    exact hspelled.eq_of_ident.2.2

/-- The word `remX` goes on after `REM`, so that it is a name, and the `REM` after it is passed
over.  A quote that nothing closes is blamed up to the end of its line. -/
theorem remarkText_munched :
    scan "remX REM\t<" = .ok [⟨.ident "REMX", ⟨0, 4⟩, 1, 1⟩] ∧
      Scan.Munched [] "remX REM\t<".toList (.ok [⟨.ident "REMX", ⟨0, 4⟩, 1, 1⟩]) ∧
      Keyword.ofWord? "REMX" = none ∧
      scan "5.\n\"é\r" = .error ⟨"\"é", ⟨3, 6⟩, 2, 1⟩ ∧
      Scan.Munched [] "5.\n\"é\r".toList (.error ⟨"\"é", ⟨3, 6⟩, 2, 1⟩) := by
  have hscan : scan "remX REM\t<" = .ok [⟨.ident "REMX", ⟨0, 4⟩, 1, 1⟩] := by decide +kernel
  have hfails : scan "5.\n\"é\r" = .error ⟨"\"é", ⟨3, 6⟩, 2, 1⟩ := by decide +kernel
  obtain ⟨hmunched, hname⟩ := scan_eq_iff_munched "remX REM\t<"
  exact ⟨hscan, (hmunched _).mp hscan, (hname _ hscan _ List.mem_cons_self _ rfl).2, hfails,
    ((scan_eq_iff_munched _).1 _).mp hfails⟩

end LineBasic
