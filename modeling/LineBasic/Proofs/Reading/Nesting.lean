import LineBasic.Proofs.Reading.Placement

/-!
# Spans nest

The span of a tree is around the spans of its parts, and these follow each other as the parts do in
the text.

* `Span.Holds`: spans that follow each other inside a span;
* `Expr.spans`, `Statement.spans`, `Line.spans`: all spans of a tree;
* `Expr.Nested`, `Statement.Nested`: every span of a tree holds those of its parts;
* `Expr.Phrase.fits`, `Statement.Phrase.fits`: what tokens in order write is nested, and it is
  inside the span of these tokens;
* `Line.ReadFrom.fits`: a line is the span of its tokens, with its statement in it;
* `Program.spans_nested`: the spans of a program that is read.
-/

namespace LineBasic

/-! ### Spans of trees -/

/-- Spans that follow each other inside a span. -/
structure Span.Holds (s : Span) (parts : List Span) : Prop where
  inside : ∀ t ∈ parts, s.start ≤ t.start ∧ t.stop ≤ s.stop
  ordered : parts.Pairwise fun t u => t.stop ≤ u.start

/-- All spans of an expression. -/
def Expr.spans : Expr → List Span
  | .binary _ l r s => s :: l.spans ++ r.spans
  | e => [e.span]

/-- All spans of a statement. -/
def Statement.spans : Statement → List Span
  | .assign _ e s => s :: e.spans
  | .print item s => s :: item.toList.flatMap Expr.spans
  | .ifThen c t s => s :: c.spans ++ t.spans
  | .ifThenElse c t e s => s :: c.spans ++ t.spans ++ e.spans
  | .goto e s => s :: e.spans
  | .gosub e s => s :: e.spans
  | .ret s => [s]
  | .input _ s => [s]
  | .halt s => [s]

/-- All spans of a line. -/
def Line.spans (l : Line) : List Span := l.span :: l.statement.spans

/-- The span of every operator holds those of its operands. -/
def Expr.Nested : Expr → Prop
  | .binary _ l r s => s.Holds [l.span, r.span] ∧ l.Nested ∧ r.Nested
  | _ => True

/-- The span of every statement holds those of its expressions and of its branches, in the order of
the text. -/
def Statement.Nested : Statement → Prop
  | .assign _ e s => s.Holds [e.span] ∧ e.Nested
  | .print item s => s.Holds (item.toList.map Expr.span) ∧ ∀ e ∈ item, e.Nested
  | .ifThen c t s => s.Holds [c.span, t.span] ∧ c.Nested ∧ t.Nested
  | .ifThenElse c t e s => s.Holds [c.span, t.span, e.span] ∧ c.Nested ∧ t.Nested ∧ e.Nested
  | .goto e s => s.Holds [e.span] ∧ e.Nested
  | .gosub e s => s.Holds [e.span] ∧ e.Nested
  | _ => True

lemma Expr.span_mem_spans (e : Expr) : e.span ∈ e.spans := by
  cases e <;> exact List.mem_cons_self

lemma Statement.span_mem_spans (s : Statement) : s.span ∈ s.spans := by
  cases s <;> exact List.mem_cons_self

/-! ### Spans inside another one -/

/-- Spans that are not empty and inside another one. -/
def Span.Encloses (outer : Span) (spans : List Span) : Prop :=
  ∀ s ∈ spans, outer.start ≤ s.start ∧ s.start < s.stop ∧ s.stop ≤ outer.stop

lemma Span.Holds.merge {s t : Span} (h : s.stop ≤ t.start) : (s.merge t).Holds [s, t] where
  inside := List.forall_mem_cons.mpr ⟨⟨Nat.min_le_left _ _, Nat.le_max_left _ _⟩,
    List.forall_mem_singleton.mpr ⟨Nat.min_le_right _ _, Nat.le_max_right _ _⟩⟩
  ordered := List.pairwise_pair.mpr h

lemma Span.Holds.merge_right (s t : Span) : (s.merge t).Holds [t] where
  inside := List.forall_mem_singleton.mpr ⟨Nat.min_le_right _ _, Nat.le_max_right _ _⟩
  ordered := List.pairwise_singleton _ _

namespace Span.Encloses

variable {outer outer' s t : Span} {ls rs : List Span}

lemma mono (h : outer.Encloses ls) (hstart : outer'.start ≤ outer.start)
    (hstop : outer.stop ≤ outer'.stop) : outer'.Encloses ls := by
  intro s hs
  obtain ⟨hs1, hs2, hs3⟩ := h s hs
  exact ⟨Nat.le_trans hstart hs1, hs2, Nat.le_trans hs3 hstop⟩

lemma append (hls : outer.Encloses ls) (hrs : outer.Encloses rs) : outer.Encloses (ls ++ rs) :=
  List.forall_mem_append.mpr ⟨hls, hrs⟩

lemma subset (h : outer.Encloses rs) (hsub : ls ⊆ rs) : outer.Encloses ls :=
  fun s hs => h s (hsub hs)

/-- The join of one of the spans and one of the spans of another list is inside, too. -/
lemma merge (hls : outer.Encloses ls) (hrs : outer.Encloses rs) (hs : s ∈ ls) (ht : t ∈ rs) :
    outer.Encloses (s.merge t :: ls ++ rs) := by
  obtain ⟨hs1, hs2, hs3⟩ := hls s hs
  obtain ⟨ht1, -, ht3⟩ := hrs t ht
  refine List.forall_mem_cons.mpr ⟨⟨?_, ?_, ?_⟩, List.forall_mem_append.mpr ⟨hls, hrs⟩⟩
  · exact Nat.le_min.mpr ⟨hs1, ht1⟩
  · exact Nat.lt_of_le_of_lt (Nat.min_le_left _ _) (Nat.lt_of_lt_of_le hs2 (Nat.le_max_left _ _))
  · exact Nat.max_le.mpr ⟨hs3, ht3⟩

/-- Some of the spans that follow each other. -/
lemma holds (h : outer.Encloses ls) (hsub : rs ⊆ ls)
    (hordered : rs.Pairwise fun t u => t.stop ≤ u.start) : outer.Holds rs where
  inside s hs := ⟨(h s (hsub hs)).1, (h s (hsub hs)).2.2⟩
  ordered := hordered

end Span.Encloses

namespace InOrder

variable {ts us vs : List Token} {t : Token} {ls rs : List Span}

/-- What is inside the span of some tokens is inside that of all. -/
lemma encloses (h : InOrder ts) (hus : us ≠ []) (hsub : us ⊆ ts)
    (hspans : (textSpan us).Encloses ls) : (textSpan ts).Encloses ls :=
  hspans.mono (h.bounds_of_subset hus hsub).1 (h.bounds_of_subset hus hsub).2

lemma encloses_token (h : InOrder ts) (ht : t ∈ ts) : (textSpan ts).Encloses [t.span] :=
  List.forall_mem_singleton.mpr ⟨(h.bounds_of_mem ht).1, h.proper t ht, (h.bounds_of_mem ht).2⟩

lemma encloses_all (h : InOrder ts) (hts : ts ≠ []) (hspans : (textSpan ts).Encloses ls) :
    (textSpan ts).Encloses (textSpan ts :: ls) :=
  List.forall_mem_cons.mpr ⟨⟨Nat.le_refl _, h.start_lt_stop hts, Nat.le_refl _⟩, hspans⟩

/-- A token joined with a span inside some tokens. -/
lemma encloses_merge (h : InOrder ts) (ht : t ∈ ts) (hus : us ≠ []) (hsub : us ⊆ ts)
    (hspans : (textSpan us).Encloses ls) {s : Span} (hs : s ∈ ls) :
    (textSpan ts).Encloses (t.span.merge s :: t.span :: ls) :=
  (h.encloses_token ht).merge (h.encloses hus hsub hspans) List.mem_cons_self hs

/-- What is inside the span of some tokens stands before what is inside the span of later ones. -/
lemma stop_le_start_of_encloses (h : InOrder (ts ++ us)) {ts' us' : List Token} (hts : ts' ≠ [])
    (hus : us' ≠ []) (hts' : ts' ⊆ ts) (hus' : us' ⊆ us) (hls : (textSpan ts').Encloses ls)
    (hrs : (textSpan us').Encloses rs) {s t : Span} (hs : s ∈ ls) (ht : t ∈ rs) :
    s.stop ≤ t.start :=
  Nat.le_trans (hls s hs).2.2 <|
    Nat.le_trans (h.stop_le_start hts hus hts' hus') (hrs t ht).1

end InOrder

/-! ### Spans of phrases -/

variable {ts us : List Token} {k : Level}

lemma Expr.Phrase.ne_nil {e : Expr} (h : Expr.Phrase k ts e) : ts ≠ [] := by
  induction h with
  | tighter _ ih => exact ih
  | _ => simp

/-- What tokens in order write is nested, and it is inside the span of the tokens. -/
theorem Expr.Phrase.fits {e : Expr} (h : Expr.Phrase k ts e) (hts : InOrder ts) :
    (textSpan ts).Encloses e.spans ∧ e.Nested := by
  induction h with
  | number => exact ⟨hts.encloses_token List.mem_cons_self, trivial⟩
  | string => exact ⟨hts.encloses_token List.mem_cons_self, trivial⟩
  | ident => exact ⟨hts.encloses_token List.mem_cons_self, trivial⟩
  | parens ht hu h ih =>
    obtain ⟨hspans, hnested⟩ := ih hts.tail.left
    exact ⟨hts.encloses h.ne_nil (by simp) hspans, hnested⟩
  | minusLiteral ht h ih =>
    have hmerge := hts.encloses_merge List.mem_cons_self h.ne_nil (List.subset_cons_self _ _)
      (ih hts.tail).1 List.mem_cons_self
    exact ⟨hmerge.subset (by simp [Expr.spans, Expr.span]), trivial⟩
  | @minus t ts e ht h he ih =>
    -- the zero on the left has the span of the sign
    obtain ⟨hspans, hnested⟩ := ih hts.tail
    have hsign : (textSpan [t]).Encloses [t.span] := hts.left.encloses_token List.mem_cons_self
    have hfollow : t.span.stop ≤ e.span.start :=
      @InOrder.stop_le_start_of_encloses [t] ts _ _ hts [t] ts (List.cons_ne_nil t []) h.ne_nil
        (fun _ => id) (fun _ => id) hsign hspans _ _ List.mem_cons_self e.span_mem_spans
    have hmerge := hts.encloses_merge List.mem_cons_self h.ne_nil (List.subset_cons_self _ _)
      hspans e.span_mem_spans
    exact ⟨hmerge, .merge hfollow, trivial, hnested⟩
  | @binary op t ts us a b ht ha hb iha ihb =>
    obtain ⟨haspans, hanested⟩ := iha hts.left
    obtain ⟨hbspans, hbnested⟩ := ihb hts.right.tail
    have hfollow : a.span.stop ≤ b.span.start :=
      hts.stop_le_start_of_encloses ha.ne_nil hb.ne_nil (fun _ => id) (List.subset_cons_self _ _)
        haspans hbspans a.span_mem_spans b.span_mem_spans
    have hmerge := (hts.encloses ha.ne_nil (by simp) haspans).merge
      (hts.encloses hb.ne_nil (by simp) hbspans) a.span_mem_spans b.span_mem_spans
    exact ⟨hmerge, .merge hfollow, hanested, hbnested⟩
  | tighter h ih => exact ih hts

lemma Statement.Phrase.ne_nil {k : Place} {s : Statement} (h : Statement.Phrase k ts s) :
    ts ≠ [] := by
  induction h with
  | assign h =>
    obtain ⟨-, -, -⟩ := h
    simp
  | branch _ ih => exact ih
  | _ => simp

/-- A token joined with an expression after it, as in an assignment and in a jump. -/
lemma Expr.Phrase.merge_fits {t : Token} {e : Expr} (h : Expr.Phrase k us e)
    (hts : InOrder (t :: ts ++ us)) :
    (textSpan (t :: ts ++ us)).Encloses (t.span.merge e.span :: e.spans) ∧
      (t.span.merge e.span).Holds [e.span] ∧ e.Nested := by
  obtain ⟨hspans, hnested⟩ := h.fits hts.right
  have hmerge := hts.encloses_merge List.mem_cons_self h.ne_nil (List.subset_append_right _ _)
    hspans e.span_mem_spans
  exact ⟨hmerge.subset (by simp), .merge_right _ _, hnested⟩

lemma Statement.Assignment.fits {s : Statement} (h : Statement.Assignment ts s)
    (hts : InOrder ts) : (textSpan ts).Encloses s.spans ∧ s.Nested := by
  obtain @⟨t, u, ts, n, e, ht, hu, h⟩ := h
  exact @Expr.Phrase.merge_fits [u] ts _ t e h hts

/-- What tokens in order write is nested, and it is inside the span of the tokens. -/
theorem Statement.Phrase.fits {k : Place} {s : Statement} (h : Statement.Phrase k ts s)
    (hts : InOrder ts) : (textSpan ts).Encloses s.spans ∧ s.Nested := by
  induction h with
  | assign h => exact h.fits hts
  | letAssign hw h =>
    obtain ⟨hspans, hnested⟩ := h.fits hts.tail
    obtain @⟨t, u, ts, n, e, ht, hu, -⟩ := h
    exact ⟨hts.encloses (List.cons_ne_nil _ _) (List.subset_cons_self _ _) hspans, hnested⟩
  | printBlank hw =>
    exact ⟨hts.encloses_token List.mem_cons_self, ⟨nofun, .nil⟩, nofun⟩
  | @print w ts e hw h =>
    obtain ⟨hspans, hnested⟩ := h.fits hts.tail
    have hinside := hts.encloses h.ne_nil (List.subset_cons_self _ _) hspans
    rw [hts.merge_lastSpan]
    refine ⟨?_, ?_, ?_⟩
    · simpa [Statement.spans] using hts.encloses_all (List.cons_ne_nil _ _) hinside
    · exact hinside.holds (by simpa using e.span_mem_spans) (List.pairwise_singleton _ _)
    · rintro _ ⟨rfl⟩
      exact hnested
  | @ifThen w u ts us c b hw hc hu hb ih =>
    obtain ⟨hcspans, hcnested⟩ := hc.fits hts.left.tail
    obtain ⟨hbspans, hbnested⟩ := ih hts.right.tail
    have hfollow : c.span.stop ≤ b.span.start :=
      hts.stop_le_start_of_encloses hc.ne_nil hb.ne_nil (List.subset_cons_self _ _)
        (List.subset_cons_self _ _) hcspans hbspans c.span_mem_spans b.span_mem_spans
    have hinside := (hts.encloses hc.ne_nil (by simp) hcspans).append
      (hts.encloses hb.ne_nil (fun x hx => by simp [hx]) hbspans)
    rw [hts.merge_lastSpan_append]
    refine ⟨hts.encloses_all (by simp) hinside, ?_, hcnested, hbnested⟩
    exact hinside.holds (by simp [c.span_mem_spans, b.span_mem_spans])
      (List.pairwise_pair.mpr hfollow)
  | @ifThenElse w u v ts us vs c a b hw hc hu ha closed hv hb iha ihb =>
    obtain ⟨hcspans, hcnested⟩ := hc.fits hts.left.left.tail
    obtain ⟨haspans, hanested⟩ := iha hts.left.right.tail
    obtain ⟨hbspans, hbnested⟩ := ihb hts.right.tail
    have hca : c.span.stop ≤ a.span.start :=
      hts.left.stop_le_start_of_encloses hc.ne_nil ha.ne_nil (List.subset_cons_self _ _)
        (List.subset_cons_self _ _) hcspans haspans c.span_mem_spans a.span_mem_spans
    have hcb : c.span.stop ≤ b.span.start :=
      hts.stop_le_start_of_encloses hc.ne_nil hb.ne_nil (by simp)
        (List.subset_cons_self _ _) hcspans hbspans c.span_mem_spans b.span_mem_spans
    have hab : a.span.stop ≤ b.span.start :=
      hts.stop_le_start_of_encloses ha.ne_nil hb.ne_nil (fun x hx => by simp [hx])
        (List.subset_cons_self _ _) haspans hbspans a.span_mem_spans b.span_mem_spans
    have hinside := ((hts.encloses hc.ne_nil (by simp) hcspans).append
      (hts.encloses ha.ne_nil (fun x hx => by simp [hx]) haspans)).append
      (hts.encloses hb.ne_nil (fun x hx => by simp [hx]) hbspans)
    -- the last of all tokens is the last one after `ELSE`
    have hmerge : w.span.merge (lastSpan v.span vs) = textSpan (w :: ts ++ u :: us ++ v :: vs) :=
      @InOrder.merge_lastSpan_append (ts ++ u :: us) vs w v hts
    rw [hmerge]
    refine ⟨hts.encloses_all (by simp) hinside, ?_, hcnested, hanested, hbnested⟩
    exact hinside.holds (by simp [c.span_mem_spans, a.span_mem_spans, b.span_mem_spans])
      (by simp [hca, hcb, hab])
  | goto hw he => exact @Expr.Phrase.merge_fits [] _ _ _ _ he hts
  | gosub hw he => exact @Expr.Phrase.merge_fits [] _ _ _ _ he hts
  | ret hw => exact ⟨hts.encloses_token List.mem_cons_self, trivial⟩
  | input hw h =>
    rw [hts.merge_lastSpan]
    exact ⟨hts.encloses_all (List.cons_ne_nil _ _) nofun, trivial⟩
  | halt hw => exact ⟨hts.encloses_token List.mem_cons_self, trivial⟩
  | @jump x s l k =>
    have htoken := hts.encloses_token List.mem_cons_self
    exact ⟨htoken.merge htoken List.mem_cons_self List.mem_cons_self |>.subset (by
      simp [Statement.spans, Expr.spans, Expr.span]), htoken.holds (fun _ => id)
      (List.pairwise_singleton _ _), trivial⟩
  | branch h ih => exact ih hts

/-! ### Spans of programs -/

/-- The span of a line holds that of its statement. -/
def Line.Nested (l : Line) : Prop := l.span.Holds [l.statement.span] ∧ l.statement.Nested

/-- A line reaches from its number to its last token. -/
lemma Line.ReadFrom.span_eq {l : Line} (h : Line.ReadFrom ts l) (hts : InOrder ts) :
    l.span = textSpan ts := by
  obtain ⟨-, -⟩ := h
  exact hts.merge_lastSpan

/-- The line that tokens in order write is nested, and it is inside the span of the tokens. -/
theorem Line.ReadFrom.fits {l : Line} (h : Line.ReadFrom ts l) (hts : InOrder ts) :
    (textSpan ts).Encloses l.spans ∧ l.Nested := by
  have hspan := h.span_eq hts
  obtain @⟨x, s, i, j, n, ts, st, -, h⟩ := h
  obtain ⟨hspans, hnested⟩ := h.fits hts.tail
  have hinside := hts.encloses h.ne_nil (List.subset_cons_self _ _) hspans
  refine ⟨?_, ?_, hnested⟩
  · rw [Line.spans, hspan]
    exact hts.encloses_all (List.cons_ne_nil _ _) hinside
  · rw [hspan]
    exact hinside.holds (by simpa using st.span_mem_spans) (List.pairwise_singleton _ _)

namespace Program

/-- The lines of rows follow each other. -/
lemma Rows.pairwise {rows : List (List Token × Line)} (h : Rows ts rows) (hts : InOrder ts) :
    (rows.map Prod.snd).Pairwise fun l m => l.span.stop ≤ m.span.start := by
  induction h with
  | nil => exact .nil
  | blank ht h ih => exact ih hts.tail
  | @row ts rest l rows hl hend h ih =>
    refine List.pairwise_cons.mpr ⟨fun m hm => ?_, ih hts.right⟩
    obtain ⟨x, hx, rfl⟩ := List.mem_map.mp hm
    obtain ⟨before, after, rfl, -, -, hread⟩ := h.exists_split hx
    rw [hl.span_eq hts.left, hread.span_eq hts.right.left.right]
    exact hts.stop_le_start hl.ne_nil hread.ne_nil (fun _ => id) (fun t ht => by simp [ht])

/-- **Spans nest.** Every span of a program that is read is a part of the text and not empty. Each
expression is around its operands and each statement around its expressions and branches, which
follow each other as in the text. Each line reaches from its number to the last token before the
line break and is around its statement, and no two lines overlap. -/
theorem spans_nested {source : String} {p : Program} (h : ofText source = .ok p) :
    ∃ tokens, scan source = .ok tokens ∧
      (∀ l ∈ p.lines,
        (∀ s ∈ l.spans, s.start < s.stop ∧ s.stop ≤ Text.byteLength source.toList) ∧ l.Nested ∧
        ∃ t ts, IsRow (t :: ts) tokens ∧
          (∃ x, t.kind = .number x ∧ lineNumber? x = some l.number) ∧
          l.span.start = t.span.start ∧
          l.span.stop = ((t :: ts).getLast (List.cons_ne_nil t ts)).span.stop) ∧
      p.lines.Pairwise fun l m => l.span.stop ≤ m.span.start ∨ m.span.stop ≤ l.span.start := by
  obtain ⟨tokens, rows, hscan, hrows, hperm⟩ := exists_rows_of_ofText h
  have htokens := inOrder_of_scan hscan
  refine ⟨tokens, hscan, fun l hl => ?_, ?_⟩
  · obtain ⟨⟨row, l⟩, hx, rfl⟩ := List.mem_map.mp (hperm.mem_iff.mp hl)
    obtain ⟨hrow, hread⟩ := hrows.isRow hx
    have horder := htokens.of_isInfix hrow.isInfix
    have hspan := hread.span_eq horder
    obtain ⟨hspans, hnested⟩ := hread.fits horder
    refine ⟨fun s hs => ?_, hnested, ?_⟩
    · obtain ⟨-, hproper, hstop⟩ := hspans s hs
      rw [textSpan_stop hread.ne_nil] at hstop
      exact ⟨hproper, Nat.le_trans hstop <|
        stop_le_of_scan hscan (hrow.isInfix.subset (List.getLast_mem hread.ne_nil))⟩
    · obtain @⟨x, s, i, j, n, ts, st, hnumber, -⟩ := hread
      refine ⟨_, ts, hrow, ⟨x, rfl, hnumber⟩, ?_, ?_⟩
      · rw [hspan]
        rfl
      · rw [hspan, textSpan_stop (List.cons_ne_nil _ _)]
  · exact (hperm.pairwise_iff fun h => h.symm).mpr ((hrows.pairwise htokens).imp .inl)

/-- A text with a sign before parentheses, a conditional with two branches and an empty line, whose
lines are not in the order of their numbers. -/
theorem spans_nested_conditional :
    let source := "20 IF A < -(B) THEN LET A = (2 * 3) ELSE 10\n\n10 PRINT (A) - 1"
    ∃ p, ofText source = .ok p ∧ p.lines.map Line.number = [10, 20] ∧
      ∃ tokens, scan source = .ok tokens ∧
        (∀ l ∈ p.lines,
          (∀ s ∈ l.spans, s.start < s.stop ∧ s.stop ≤ Text.byteLength source.toList) ∧ l.Nested ∧
          ∃ t ts, IsRow (t :: ts) tokens ∧
            (∃ x, t.kind = .number x ∧ lineNumber? x = some l.number) ∧
            l.span.start = t.span.start ∧
            l.span.stop = ((t :: ts).getLast (List.cons_ne_nil t ts)).span.stop) ∧
        p.lines.Pairwise fun l m => l.span.stop ≤ m.span.start ∨ m.span.stop ≤ l.span.start := by
  intro source
  obtain ⟨p, hp, hnumbers⟩ := @exists_ok_of_map _ _ _ (ofText source)
    (fun p => p.lines.map Line.number) [10, 20] (by decide +kernel)
  exact ⟨p, hp, hnumbers, spans_nested hp⟩

end Program

end LineBasic
