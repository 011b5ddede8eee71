import LineBasic.Proofs.Reading.Lines
import LineBasic.Proofs.Reading.Source
import LineBasic.Proofs.Scan.Places

/-!
# Where lines stand

The tokens of a text follow each other, and the lines of a program take theirs from them, one line
after another.

* `InOrder`: tokens whose spans are not empty and follow each other;
* `textSpan`: from the start of the first of some tokens to the end of the last;
* `InOrder.start_eq_iff`, `InOrder.stop_eq_iff`: some of the tokens do not reach as far as all;
* `inOrder_of_scan`, `stop_le_of_scan`: the tokens of a text are in order and inside it;
* `Program.Rows`: tokens in rows, each of which writes a line;
* `Program.exists_rows_of_ofText`: a program that is read has the lines of such rows;
* `Program.Rows.exists_split`: each row stands between line breaks.
-/

namespace LineBasic

/-! ### Tokens in order -/

/-- Tokens whose spans are not empty and follow each other. -/
structure InOrder (ts : List Token) : Prop where
  proper : ∀ t ∈ ts, t.span.start < t.span.stop
  pairwise : ts.Pairwise fun t u => t.span.stop ≤ u.span.start

/-- The span from the start of the first token to the end of the last. -/
def textSpan : List Token → Span
  | [] => .origin
  | t :: ts => ⟨t.span.start, (lastSpan t.span ts).stop⟩

variable {ts us vs : List Token} {t : Token}

@[simp] lemma textSpan_singleton (t : Token) : textSpan [t] = t.span := rfl

lemma textSpan_start (h : ts ≠ []) : (textSpan ts).start = (ts.head h).span.start := by
  cases ts with
  | nil => exact absurd rfl h
  | cons t ts => rfl

lemma textSpan_stop (h : ts ≠ []) : (textSpan ts).stop = (ts.getLast h).span.stop := by
  cases ts with
  | nil => exact absurd rfl h
  | cons t ts =>
    rw [← lastSpan_eq_getLast h .origin]
    rfl

lemma textSpan_append_start (h : ts ≠ []) (us : List Token) :
    (textSpan (ts ++ us)).start = (textSpan ts).start := by
  rw [textSpan_start (List.append_ne_nil_of_left_ne_nil h us), textSpan_start h,
    List.head_append_of_ne_nil]

lemma textSpan_append_stop (ts : List Token) (h : us ≠ []) :
    (textSpan (ts ++ us)).stop = (textSpan us).stop := by
  rw [textSpan_stop (List.append_ne_nil_of_right_ne_nil ts h), textSpan_stop h,
    List.getLast_append_of_right_ne_nil _ _ h]

namespace InOrder

lemma append_iff : InOrder (ts ++ us) ↔
    InOrder ts ∧ InOrder us ∧ ∀ t ∈ ts, ∀ u ∈ us, t.span.stop ≤ u.span.start := by
  constructor
  · rintro ⟨hproper, hpairwise⟩
    obtain ⟨hts, hus⟩ := List.forall_mem_append.mp hproper
    obtain ⟨hpts, hpus, hapart⟩ := List.pairwise_append.mp hpairwise
    exact ⟨⟨hts, hpts⟩, ⟨hus, hpus⟩, hapart⟩
  · rintro ⟨hts, hus, hapart⟩
    exact ⟨List.forall_mem_append.mpr ⟨hts.proper, hus.proper⟩,
      List.pairwise_append.mpr ⟨hts.pairwise, hus.pairwise, hapart⟩⟩

lemma left (h : InOrder (ts ++ us)) : InOrder ts := (append_iff.mp h).1

lemma right (h : InOrder (ts ++ us)) : InOrder us := (append_iff.mp h).2.1

lemma tail (h : InOrder (t :: ts)) : InOrder ts := @right [t] ts h

lemma of_isInfix (h : InOrder ts) (hus : us <:+: ts) : InOrder us := by
  obtain ⟨before, after, rfl⟩ := hus
  exact h.left.right

/-- Some of the tokens that follow others start where these have ended. -/
lemma stop_le_start (h : InOrder (ts ++ us)) {ts' us' : List Token} (hts : ts' ≠ [])
    (hus : us' ≠ []) (hts' : ts' ⊆ ts) (hus' : us' ⊆ us) :
    (textSpan ts').stop ≤ (textSpan us').start := by
  rw [textSpan_stop hts, textSpan_start hus]
  exact (append_iff.mp h).2.2 _ (hts' (List.getLast_mem hts)) _ (hus' (List.head_mem hus))

lemma start_lt_stop (h : InOrder ts) (hts : ts ≠ []) :
    (textSpan ts).start < (textSpan ts).stop := by
  induction ts with
  | nil => exact absurd rfl hts
  | cons t ts ih =>
    have ht : t.span.start < t.span.stop := h.proper t List.mem_cons_self
    by_cases hnil : ts = []
    · subst hnil
      exact ht
    · have hlater := ih h.tail hnil
      have hle : t.span.stop ≤ (textSpan ts).start :=
        @stop_le_start [t] ts h [t] ts (List.cons_ne_nil t []) hnil (fun _ => id) (fun _ => id)
      have hstop : (textSpan (t :: ts)).stop = (textSpan ts).stop :=
        textSpan_append_stop [t] hnil
      have hstart : (textSpan (t :: ts)).start = t.span.start := rfl
      omega

/-- The span of tokens is around each of them. -/
lemma bounds_of_mem (h : InOrder ts) (ht : t ∈ ts) :
    (textSpan ts).start ≤ t.span.start ∧ t.span.stop ≤ (textSpan ts).stop := by
  obtain ⟨before, after, rfl⟩ := List.mem_iff_append.mp ht
  have hstop : (textSpan (before ++ t :: after)).stop = (textSpan (t :: after)).stop :=
    textSpan_append_stop before (List.cons_ne_nil t after)
  constructor
  · by_cases hbefore : before = []
    · rw [hbefore]
      exact Nat.le_refl _
    · have hlt := h.left.start_lt_stop hbefore
      have hle : (textSpan before).stop ≤ t.span.start :=
        h.stop_le_start hbefore (List.cons_ne_nil t []) (fun _ => id) (by simp)
      rw [textSpan_append_start hbefore]
      omega
  · by_cases hafter : after = []
    · rw [hstop, hafter]
      exact Nat.le_refl _
    · have hlt := h.right.tail.start_lt_stop hafter
      have hle : t.span.stop ≤ (textSpan after).start :=
        @stop_le_start [t] after h.right [t] after (List.cons_ne_nil t []) hafter (fun _ => id)
          (fun _ => id)
      have hlast : (textSpan (t :: after)).stop = (textSpan after).stop :=
        textSpan_append_stop [t] hafter
      omega

/-- The span of tokens is around that of some of them. -/
lemma bounds_of_subset (h : InOrder ts) (hus : us ≠ []) (hsub : us ⊆ ts) :
    (textSpan ts).start ≤ (textSpan us).start ∧ (textSpan us).stop ≤ (textSpan ts).stop := by
  rw [textSpan_start hus, textSpan_stop hus]
  exact ⟨(h.bounds_of_mem (hsub (List.head_mem hus))).1,
    (h.bounds_of_mem (hsub (List.getLast_mem hus))).2⟩

/-- The span of the first token, joined with that of the last one, is that of all tokens. -/
lemma merge_lastSpan (h : InOrder (t :: ts)) :
    t.span.merge (lastSpan t.span ts) = textSpan (t :: ts) := by
  have hproper := h.proper t List.mem_cons_self
  obtain ⟨hstart, hstop⟩ := h.bounds_of_mem (List.getLast_mem (List.cons_ne_nil t ts))
  obtain ⟨-, hfirst⟩ := h.bounds_of_mem (@List.mem_cons_self _ t ts)
  rw [← lastSpan_eq_getLast (List.cons_ne_nil t ts) .origin] at hstart hstop
  ext
  · exact Nat.min_eq_left hstart
  · exact Nat.max_eq_right hfirst

/-- The same if the last token is known to be one of those from some point on. -/
lemma merge_lastSpan_append {u : Token} (h : InOrder (t :: ts ++ u :: us)) :
    t.span.merge (lastSpan u.span us) = textSpan (t :: ts ++ u :: us) := by
  have hmerge := @merge_lastSpan (ts ++ u :: us) t h
  rwa [lastSpan_append, lastSpan_cons] at hmerge

/-- The last of some tokens do not reach back to the first one, unless they are all of them. -/
lemma start_eq_iff (h : InOrder (ts ++ us)) (hus : us ≠ []) :
    (textSpan us).start = (textSpan (ts ++ us)).start ↔ ts = [] := by
  refine ⟨fun heq => ?_, fun hnil => by rw [hnil, List.nil_append]⟩
  by_contra hts
  have hlt := h.left.start_lt_stop hts
  have hle := h.stop_le_start hts hus (fun _ => id) (fun _ => id)
  rw [textSpan_append_start hts] at heq
  omega

/-- The first of some tokens do not reach to the last one, unless they are all of them. -/
lemma stop_eq_iff (h : InOrder (ts ++ us)) (hts : ts ≠ []) :
    (textSpan ts).stop = (textSpan (ts ++ us)).stop ↔ us = [] := by
  refine ⟨fun heq => ?_, fun hnil => by rw [hnil, List.append_nil]⟩
  by_contra hus
  have hlt := h.right.start_lt_stop hus
  have hle := h.stop_le_start hts hus (fun _ => id) (fun _ => id)
  rw [textSpan_append_stop ts hus] at heq
  omega

end InOrder

/-! ### Tokens of a text -/

/-- A token of a text is where a part of it stands. -/
lemma exists_cutsOut_of_scan {source : String} {tokens : List Token}
    (h : scan source = .ok tokens) (ht : t ∈ tokens) :
    ∃ before text after, t.span.CutsOut source.toList before text after ∧ text ≠ [] := by
  obtain ⟨pieces, hpieces, rfl⟩ := Scan.scanFrom_eq_ok_iff.mp h
  obtain ⟨hsource, hspelled⟩ := Scan.spelled_of_lexemes hpieces
  have hstart : Scan.Position.start = .past [] := rfl
  rw [hstart] at ht
  obtain ⟨first, text, later, rfl, hpiece⟩ := Scan.Position.exists_piece_of_mem hspelled ht
  have hspan : t.span = (Scan.Position.past (first.flatMap Prod.fst)).span text :=
    congrArg Token.span (List.mem_singleton.mp hpiece)
  obtain ⟨c, cs, rfl, -⟩ := Scan.lexeme?_of_spelled
    (hspelled (text, .token t.kind) (List.mem_append_right _ List.mem_cons_self))
  refine ⟨first.flatMap Prod.fst, c :: cs, later.flatMap Prod.fst, ?_, List.cons_ne_nil c cs⟩
  rw [hspan, hsource]
  exact ⟨by simp, rfl, rfl⟩

/-- The tokens of a text are inside it. -/
lemma stop_le_of_scan {source : String} {tokens : List Token} (h : scan source = .ok tokens)
    (ht : t ∈ tokens) : t.span.stop ≤ Text.byteLength source.toList := by
  obtain ⟨before, text, after, hcuts, -⟩ := exists_cutsOut_of_scan h ht
  rw [hcuts.source_eq, hcuts.stop, Text.byteLength_append, Text.byteLength_append]
  exact Nat.le_add_right _ _

/-- The tokens of a text are in order. -/
lemma inOrder_of_scan {source : String} {tokens : List Token} (h : scan source = .ok tokens) :
    InOrder tokens := by
  refine ⟨fun t ht => ?_, ?_⟩
  · obtain ⟨before, text, after, hcuts, htext⟩ := exists_cutsOut_of_scan h ht
    rw [hcuts.start, hcuts.stop]
    exact Nat.lt_add_of_pos_right (Text.byteLength_pos htext)
  · obtain ⟨pieces, hpieces, rfl⟩ := Scan.scanFrom_eq_ok_iff.mp h
    exact @Scan.Position.pairwise_tokensOf [] _ (Scan.spelled_of_lexemes hpieces).2

/-! ### Rows -/

/-- Whether a line can start after some tokens: there are none, or the last of them is a line
break. -/
def StartsLine (ts : List Token) : Prop := ∀ t ∈ ts.getLast?, t.kind = .newline

/-- Whether a line can end before some tokens: there are none, or the first of them is a line
break. -/
def EndsLine (ts : List Token) : Prop := ∀ t ∈ ts.head?, t.kind = .newline

/-- Whether some tokens are a line of a text: they stand between line breaks, and there is none
among them. -/
structure IsRow (row tokens : List Token) : Prop where
  not_newline : ∀ t ∈ row, t.kind ≠ .newline
  split : ∃ before after, tokens = before ++ row ++ after ∧ StartsLine before ∧ EndsLine after

lemma IsRow.isInfix (h : IsRow us ts) : us <:+: ts := by
  obtain ⟨before, after, rfl, -⟩ := h.split
  exact ⟨before, after, rfl⟩

lemma endsLine_of_atLineEnd {s : Span} (h : Cursor.atLineEnd ⟨s, ts⟩ = true) : EndsLine ts := by
  intro t ht
  cases ts with
  | nil => cases ht
  | cons u us =>
    obtain rfl := Option.some.inj ht
    simpa [Cursor.atLineEnd, Cursor.kind?] using h

lemma Line.ReadFrom.ne_nil {l : Line} (h : Line.ReadFrom ts l) : ts ≠ [] := by
  obtain ⟨-, -⟩ := h
  exact List.cons_ne_nil _ _

/-- No line starts with a line break. -/
lemma Line.ReadFrom.not_endsLine {l : Line} (h : Line.ReadFrom ts l) (us : List Token) :
    ¬ EndsLine (ts ++ us) := by
  obtain ⟨-, -⟩ := h
  intro hend
  cases hend _ rfl

namespace Program

/-- Tokens in rows, each of which writes a line. There is a line break between two rows, and there
can be more, also before the first row and after the last one. -/
inductive Rows : List Token → List (List Token × Line) → Prop
  | nil : Rows [] []
  | blank {t : Token} {ts : List Token} {rows : List (List Token × Line)} (ht : t.kind = .newline)
      (h : Rows ts rows) : Rows (t :: ts) rows
  | row {ts rest : List Token} {l : Line} {rows : List (List Token × Line)}
      (hl : Line.ReadFrom ts l) (hend : EndsLine rest) (h : Rows rest rows) :
      Rows (ts ++ rest) ((ts, l) :: rows)

lemma Rows.blanks {bs ts : List Token} {rows : List (List Token × Line)}
    (hbs : ∀ t ∈ bs, t.kind = .newline) (h : Rows ts rows) : Rows (bs ++ ts) rows := by
  induction bs with
  | nil => exact h
  | cons t bs ih =>
    exact .blank (hbs t List.mem_cons_self) (ih fun u hu => hbs u (List.mem_cons_of_mem _ hu))

/-- What was read before stays, and what is read are the lines of rows. -/
lemma exists_rows_of_readLines (c : Cursor) (p : Program) :
    ∀ p', readLines p c = .ok p' →
      ∃ rows, Rows c.rest rows ∧ p'.lines.Perm (rows.map Prod.snd ++ p.lines) := by
  induction c using Cursor.shorterInduction generalizing p with
  | _ c ih =>
    intro p' h
    obtain ⟨bs, hbs, hpass⟩ := c.skipBreaks_passes
    rcases readLines_cases h with ⟨hempty, rfl⟩ | ⟨ts, l, next, hts, hpass', hend, hshort, fresh, h⟩
    · refine ⟨[], ?_, .refl _⟩
      rw [hpass.rest, hempty]
      exact .blanks hbs .nil
    · obtain ⟨rows, hrows, hperm⟩ := ih next hshort _ p' h
      refine ⟨(ts, l) :: rows, ?_, hperm.trans (perm_append_insertLine l _ p.lines)⟩
      rw [hpass.rest, hpass'.rest]
      exact .blanks hbs (.row hts (endsLine_of_atLineEnd hend) hrows)

/-- A program that is read from a text has the lines of rows of its tokens. -/
theorem exists_rows_of_ofText {source : String} {p : Program} (h : ofText source = .ok p) :
    ∃ tokens rows, scan source = .ok tokens ∧ Rows tokens rows ∧
      p.lines.Perm (rows.map Prod.snd) := by
  obtain ⟨tokens, hscan, hread⟩ := ofText_eq_ok_iff.mp h
  obtain ⟨rows, hrows, hperm⟩ := exists_rows_of_readLines (.start tokens) empty p hread
  exact ⟨tokens, rows, hscan, hrows, by simpa [empty] using hperm⟩

/-- Each row stands between line breaks and writes its line. -/
lemma Rows.exists_split {rows : List (List Token × Line)} (h : Rows ts rows) {x : List Token × Line}
    (hx : x ∈ rows) :
    ∃ before after, ts = before ++ x.1 ++ after ∧ StartsLine before ∧ EndsLine after ∧
      Line.ReadFrom x.1 x.2 := by
  induction h with
  | nil => cases hx
  | @blank t ts rows ht h ih =>
    obtain ⟨before, after, rfl, hbefore, hafter, hread⟩ := ih hx
    refine ⟨t :: before, after, rfl, ?_, hafter, hread⟩
    intro u hu
    cases before with
    | nil =>
      obtain rfl := Option.some.inj hu
      exact ht
    | cons v vs => exact hbefore u (by rwa [List.getLast?_cons_cons] at hu)
  | @row ts rest l rows hl hend h ih =>
    rcases List.mem_cons.mp hx with rfl | hx
    · exact ⟨[], rest, rfl, nofun, hend, hl⟩
    · obtain ⟨before, after, rfl, hbefore, hafter, hread⟩ := ih hx
      refine ⟨ts ++ before, after, by simp, ?_, hafter, hread⟩
      cases before with
      | nil => exact absurd hend (hread.not_endsLine after)
      | cons v vs => rwa [StartsLine, List.getLast?_append_of_ne_nil _ (List.cons_ne_nil v vs)]

lemma Rows.isRow {rows : List (List Token × Line)} (h : Rows ts rows) {x : List Token × Line}
    (hx : x ∈ rows) : IsRow x.1 ts ∧ Line.ReadFrom x.1 x.2 := by
  obtain ⟨before, after, hts, hbefore, hafter, hread⟩ := h.exists_split hx
  exact ⟨⟨hread.not_newline, before, after, hts, hbefore, hafter⟩, hread⟩

end Program

end LineBasic
