import LineBasic.Proofs.Reading.Nesting
import LineBasic.Proofs.Uses
import Mathlib.Data.List.DropRight

/-!
# What the span of a statement covers

A statement of most forms reaches from its first token to its last one. Three forms end with the
span of an expression, which does not have the parentheses around it, and an assignment starts at
its name.

* `withoutClosing`: tokens without the closing parentheses at their end;
* `Expr.Phrase.span_stop`: an expression ends before these parentheses;
* `Statement.underlined`: the tokens that the span of a statement reaches over;
* `Statement.Phrase.span_eq`: the span of a statement is that of these tokens;
* `Statement.WrittenIn`: the tokens of a statement inside another one;
* `Program.statement_span`: the span of every statement of a program that is read.
-/

namespace LineBasic

variable {ts us vs : List Token} {t u : Token}

/-! ### Closing parentheses -/

/-- Tokens without the closing parentheses at their end. -/
def withoutClosing (ts : List Token) : List Token := ts.rdropWhile fun t => t.kind = .rightParen

lemma withoutClosing_ne_nil (ht : t ∈ ts) (hkind : t.kind ≠ .rightParen) :
    withoutClosing ts ≠ [] := by
  intro hnil
  exact hkind (by simpa using List.rdropWhile_eq_nil_iff.mp hnil t ht)

lemma withoutClosing_concat (ts : List Token) (ht : t.kind = .rightParen) :
    withoutClosing (ts ++ [t]) = withoutClosing ts :=
  List.rdropWhile_concat_pos _ _ _ (by simpa using ht)

lemma withoutClosing_append (ts : List Token) (h : withoutClosing us ≠ []) :
    withoutClosing (ts ++ us) = ts ++ withoutClosing us := by
  induction us using List.reverseRecOn with
  | nil => exact absurd rfl h
  | append_singleton us t ih =>
    by_cases ht : t.kind = .rightParen
    · rw [withoutClosing_concat us ht] at h ⊢
      rw [← List.append_assoc, withoutClosing_concat _ ht, ih h]
    · rw [← List.append_assoc]
      simp [withoutClosing, ht]

lemma withoutClosing_singleton (ht : t.kind ≠ .rightParen) : withoutClosing [t] = [t] := by
  simp [withoutClosing, List.rdropWhile_singleton, ht]

/-- Nothing is left out exactly if the last token is no closing parenthesis. -/
lemma exists_withoutClosing_append (ts : List Token) :
    ∃ closing, ts = withoutClosing ts ++ closing ∧
      (closing = [] ↔ ∀ t ∈ ts.getLast?, t.kind ≠ .rightParen) := by
  refine ⟨ts.rtakeWhile fun t => t.kind = .rightParen, ?_, ?_⟩
  · exact List.rdropWhile_append_rtakeWhile.symm
  · cases ts using List.reverseRecOn with
    | nil => simp
    | append_singleton ts t => simp [List.rtakeWhile_eq_nil_iff]

namespace Expr.Phrase

variable {k : Level} {e : Expr}

lemma exists_not_closing (h : Expr.Phrase k ts e) : ∃ t ∈ ts, t.kind ≠ .rightParen := by
  induction h with
  | number => simp
  | string => simp
  | ident => simp
  | @parens t u ts e ht hu h ih => exact ⟨t, by simp, by simp [ht]⟩
  | @minusLiteral t ts x s ht h ih => exact ⟨t, List.mem_cons_self, by simp [ht]⟩
  | @minus t ts e ht h he ih => exact ⟨t, List.mem_cons_self, by simp [ht]⟩
  | @binary op t ts us a b ht ha hb iha ihb => exact ⟨t, by simp, by simp [ht]⟩
  | tighter h ih => exact ih

lemma withoutClosing_ne_nil (h : Expr.Phrase k ts e) : withoutClosing ts ≠ [] := by
  obtain ⟨t, ht, hkind⟩ := h.exists_not_closing
  exact LineBasic.withoutClosing_ne_nil ht hkind

/-- An expression ends after every token before it. -/
lemma stop_le_stop (h : Expr.Phrase k us e) (ht : t ∈ ts) (hts : InOrder (ts ++ us)) :
    t.span.stop ≤ e.span.stop := by
  obtain ⟨hstart, hproper, -⟩ := (h.fits hts.right).1 _ e.span_mem_spans
  have hfollow := hts.stop_le_start (List.cons_ne_nil t []) h.ne_nil (by simpa) (fun _ => id)
  rw [textSpan_singleton] at hfollow
  omega

/-- What stands before an expression does not change where it ends without closing parentheses. -/
lemma stop_withoutClosing_append (h : Expr.Phrase k us e) (ts : List Token) :
    (textSpan (withoutClosing (ts ++ us))).stop = (textSpan (withoutClosing us)).stop := by
  rw [withoutClosing_append ts h.withoutClosing_ne_nil,
    textSpan_append_stop ts h.withoutClosing_ne_nil]

/-- An expression ends before the parentheses that close it. -/
theorem span_stop (h : Expr.Phrase k ts e) (hts : InOrder ts) :
    e.span.stop = (textSpan (withoutClosing ts)).stop := by
  induction h with
  | number => rw [withoutClosing_singleton (by simp)]; rfl
  | string => rw [withoutClosing_singleton (by simp)]; rfl
  | ident => rw [withoutClosing_singleton (by simp)]; rfl
  | @parens t u ts e ht hu h ih =>
    rw [withoutClosing_concat (t :: ts) hu]
    exact (ih hts.tail.left).trans (h.stop_withoutClosing_append [t]).symm
  | @minusLiteral t ts x s ht h ih =>
    refine Eq.trans ?_ ((ih hts.tail).trans (h.stop_withoutClosing_append [t]).symm)
    exact Nat.max_eq_right (h.stop_le_stop (@List.mem_cons_self _ t []) hts)
  | @minus t ts e ht h he ih =>
    refine Eq.trans ?_ ((ih hts.tail).trans (h.stop_withoutClosing_append [t]).symm)
    exact Nat.max_eq_right (h.stop_le_stop (@List.mem_cons_self _ t []) hts)
  | @binary op t ts us a b ht ha hb iha ihb =>
    obtain ⟨-, hholds, -, -⟩ := (Expr.Phrase.binary ht ha hb).fits hts
    have hfollow : a.span.stop ≤ b.span.start :=
      List.rel_of_pairwise_cons hholds.ordered List.mem_cons_self
    have hproper := ((hb.fits hts.right.tail).1 _ b.span_mem_spans).2.1
    rw [List.append_cons, hb.stop_withoutClosing_append, ← ihb hts.right.tail]
    exact Nat.max_eq_right (by omega)
  | tighter h ih => exact ih hts

/-- The span of a token that an expression follows, joined with that of the expression. -/
theorem merge_span (h : Expr.Phrase k us e) (hts : InOrder (t :: ts ++ us)) :
    t.span.merge e.span = textSpan (t :: ts ++ withoutClosing us) := by
  have hstop := h.stop_le_stop (@List.mem_cons_self _ t ts) hts
  have hstart : t.span.start ≤ e.span.start :=
    ((hts.encloses h.ne_nil (List.subset_append_right _ _) (h.fits hts.right).1) _
      e.span_mem_spans).1
  ext
  · exact Nat.min_eq_left hstart
  · rw [textSpan_append_stop _ h.withoutClosing_ne_nil, ← h.span_stop hts.right]
    exact Nat.max_eq_right hstop

/-- The span of a jump, whose word is followed by its target. -/
lemma jump_span_eq (h : Expr.Phrase k ts e) (hts : InOrder (t :: ts)) :
    t.span.merge e.span = textSpan (withoutClosing (t :: ts)) := by
  rw [← List.singleton_append, withoutClosing_append [t] h.withoutClosing_ne_nil]
  exact @merge_span [] ts t k e h hts

end Expr.Phrase

/-! ### Statements -/

/-- Whether the span of a statement ends with the span of its expression. -/
def Statement.endsAtExpr : Statement → Bool
  | .assign .. | .goto .. | .gosub .. => true
  | _ => false

/-- Of the tokens of a statement, those that its span reaches over: the word `LET` is left out, and
so are the closing parentheses at the end of an assignment, a jump or a call. -/
def Statement.underlined (s : Statement) (ts : List Token) : List Token :=
  let body := ts.dropWhile fun t => t.kind = .keyword .letKw
  if s.endsAtExpr then withoutClosing body else body

namespace Statement

lemma underlined_cons (s : Statement) (ht : t.kind ≠ .keyword .letKw) (ts : List Token) :
    s.underlined (t :: ts) = if s.endsAtExpr then withoutClosing (t :: ts) else t :: ts := by
  simp [underlined, ht]

lemma Assignment.span_eq {s : Statement} (h : Assignment ts s) (hts : InOrder ts) :
    s.span = textSpan (s.underlined ts) := by
  obtain @⟨t, u, ts, n, e, ht, hu, he⟩ := h
  have hclosing : withoutClosing (t :: u :: ts) = t :: u :: withoutClosing ts :=
    withoutClosing_append [t, u] he.withoutClosing_ne_nil
  rw [underlined_cons _ (by simp [ht]), endsAtExpr, if_pos rfl, hclosing]
  exact @Expr.Phrase.merge_span [u] ts t _ _ he hts

/-- The span of a statement is that of the tokens that it reaches over. -/
theorem Phrase.span_eq {k : Place} {s : Statement} (h : Statement.Phrase k ts s)
    (hts : InOrder ts) : s.span = textSpan (s.underlined ts) := by
  induction h with
  | assign h => exact h.span_eq hts
  | @letAssign w ts s hw h =>
    rw [h.span_eq hts.tail]
    simp [underlined, hw]
  | printBlank hw =>
    rw [underlined_cons _ (by simp [hw])]
    rfl
  | print hw he =>
    rw [underlined_cons _ (by simp [hw])]
    exact hts.merge_lastSpan
  | ifThen hw hc hu hb ih =>
    rw [List.cons_append, underlined_cons _ (by simp [hw])]
    exact hts.merge_lastSpan_append
  | @ifThenElse w u v ts us vs c a b hw hc hu ha closed hv hb iha ihb =>
    rw [List.cons_append, List.cons_append, underlined_cons _ (by simp [hw])]
    exact @InOrder.merge_lastSpan_append (ts ++ u :: us) vs w v hts
  | @goto w ts e hw he =>
    rw [underlined_cons _ (by simp [hw]), endsAtExpr, if_pos rfl]
    exact he.jump_span_eq hts
  | @gosub w ts e hw he =>
    rw [underlined_cons _ (by simp [hw]), endsAtExpr, if_pos rfl]
    exact he.jump_span_eq hts
  | ret hw =>
    rw [underlined_cons _ (by simp [hw])]
    rfl
  | input hw h =>
    rw [underlined_cons _ (by simp [hw])]
    exact hts.merge_lastSpan
  | halt hw =>
    rw [underlined_cons _ (by simp [hw])]
    rfl
  | jump =>
    rw [underlined_cons _ (by simp), endsAtExpr, if_pos rfl, withoutClosing_singleton (by simp)]
    rfl
  | branch h ih => exact ih hts

lemma Phrase.underlined_ne_nil {k : Place} {s : Statement} (h : Statement.Phrase k ts s)
    (hts : InOrder ts) : s.underlined ts ≠ [] := by
  intro hnil
  have hproper := ((h.fits hts).1 _ s.span_mem_spans).2.1
  rw [h.span_eq hts, hnil] at hproper
  exact Nat.lt_irrefl _ hproper

/-- What the span of a statement leaves out at its start and at its end. -/
lemma exists_around {s : Statement} (h : s.underlined ts ≠ []) :
    ∃ before after, ts = before ++ s.underlined ts ++ after ∧
      (before = [] ↔ ∀ t ∈ ts.head?, t.kind ≠ .keyword .letKw) ∧
      (after = [] ↔ (s.endsAtExpr = true → ∀ t ∈ ts.getLast?, t.kind ≠ .rightParen)) := by
  let isLet : Token → Bool := fun t => t.kind = .keyword .letKw
  have hsplit : ts = ts.takeWhile isLet ++ ts.dropWhile isLet :=
    List.takeWhile_append_dropWhile.symm
  have hlet : ts.takeWhile isLet = [] ↔ ∀ t ∈ ts.head?, t.kind ≠ .keyword .letKw := by
    cases ts with
    | nil => simp
    | cons t ts => simp [List.takeWhile_cons, isLet]
  rw [underlined] at h ⊢
  cases hends : s.endsAtExpr with
  | false => exact ⟨_, [], by rwa [if_neg nofun, List.append_nil], hlet, by simp⟩
  | true =>
    rw [hends, if_pos rfl] at h
    obtain ⟨closing, hbody, hclosing⟩ := exists_withoutClosing_append (ts.dropWhile isLet)
    have hbodyne : ts.dropWhile isLet ≠ [] := fun hnil => h (by rw [hnil]; rfl)
    have hlast : ts.getLast? = (ts.dropWhile isLet).getLast? := by
      conv_lhs => rw [hsplit]
      exact List.getLast?_append_of_ne_nil _ hbodyne
    refine ⟨_, closing, ?_, hlet, ?_⟩
    · rw [if_pos rfl, List.append_assoc, ← hbody]
      exact hsplit
    · rw [hclosing, hlast]
      simp

/-- A statement starts at its first token, unless that is the word `LET`. -/
theorem Phrase.span_start_iff {k : Place} {s : Statement} (h : Statement.Phrase k ts s)
    (hts : InOrder ts) :
    s.span.start = (textSpan ts).start ↔ ∀ t ∈ ts.head?, t.kind ≠ .keyword .letKw := by
  have hne := h.underlined_ne_nil hts
  obtain ⟨before, after, heq, hbefore, -⟩ := exists_around hne
  have hstart : (textSpan ts).start = (textSpan (before ++ s.underlined ts)).start := by
    conv_lhs => rw [heq]
    exact textSpan_append_start (List.append_ne_nil_of_right_ne_nil _ hne) after
  have horder : InOrder (before ++ s.underlined ts) := (heq ▸ hts).left
  rw [h.span_eq hts, hstart, horder.start_eq_iff hne, hbefore]

/-- A statement stops at its last token, unless that closes parentheses around its expression. -/
theorem Phrase.span_stop_iff {k : Place} {s : Statement} (h : Statement.Phrase k ts s)
    (hts : InOrder ts) :
    s.span.stop = (textSpan ts).stop ↔
      (s.endsAtExpr = true → ∀ t ∈ ts.getLast?, t.kind ≠ .rightParen) := by
  have hne := h.underlined_ne_nil hts
  obtain ⟨before, after, heq, -, hafter⟩ := exists_around hne
  rw [List.append_assoc] at heq
  have hstop : (textSpan ts).stop = (textSpan (s.underlined ts ++ after)).stop := by
    conv_lhs => rw [heq]
    exact textSpan_append_stop before (List.append_ne_nil_of_left_ne_nil hne after)
  have horder : InOrder (s.underlined ts ++ after) := (heq ▸ hts).right
  rw [h.span_eq hts, hstop, horder.stop_eq_iff hne, hafter]

/-! ### Statements inside statements -/

/-- Which tokens write which statements inside a statement: `WrittenIn ts st us s` if `ts` write
`st`, and `us` among them write a statement `s` that is `st` or a branch somewhere in it. -/
inductive WrittenIn : List Token → Statement → List Token → Statement → Prop
  | whole {ts : List Token} {s : Statement} (h : Phrase .branch ts s) : WrittenIn ts s ts s
  | inBranch {w u : Token} {ts us vs : List Token} {c : Expr} {b s : Statement} {i : Span}
      (hw : w.kind = .keyword .ifKw) (hc : Expr.Phrase .relation ts c)
      (hu : u.kind = .keyword .thenKw) (h : WrittenIn us b vs s) :
      WrittenIn (w :: ts ++ u :: us) (.ifThen c b i) vs s
  | inFirst {w u v : Token} {ts us vs xs : List Token} {c : Expr} {a b s : Statement} {i : Span}
      (hw : w.kind = .keyword .ifKw) (hc : Expr.Phrase .relation ts c)
      (hu : u.kind = .keyword .thenKw) (h : WrittenIn us a xs s) (closed : a.isOpen = false)
      (hv : v.kind = .keyword .elseKw) (hb : Phrase .branch vs b) :
      WrittenIn (w :: ts ++ u :: us ++ v :: vs) (.ifThenElse c a b i) xs s
  | inSecond {w u v : Token} {ts us vs xs : List Token} {c : Expr} {a b s : Statement} {i : Span}
      (hw : w.kind = .keyword .ifKw) (hc : Expr.Phrase .relation ts c)
      (hu : u.kind = .keyword .thenKw) (ha : Phrase .branch us a) (closed : a.isOpen = false)
      (hv : v.kind = .keyword .elseKw) (h : WrittenIn vs b xs s) :
      WrittenIn (w :: ts ++ u :: us ++ v :: vs) (.ifThenElse c a b i) xs s

namespace WrittenIn

variable {st s : Statement}

lemma phrase (h : WrittenIn ts st us s) : Phrase .branch us s := by
  induction h with
  | whole h => exact h
  | inBranch hw hc hu h ih => exact ih
  | inFirst hw hc hu h closed hv hb ih => exact ih
  | inSecond hw hc hu ha closed hv h ih => exact ih

lemma isInfix (h : WrittenIn ts st us s) : us <:+: ts := by
  induction h with
  | whole h => exact List.infix_rfl
  | @inBranch w u ts us vs c b s i hw hc hu h ih =>
    exact ih.trans ⟨w :: ts ++ [u], [], by simp⟩
  | @inFirst w u v ts us vs xs c a b s i hw hc hu h closed hv hb ih =>
    exact ih.trans ⟨w :: ts ++ [u], v :: vs, by simp⟩
  | @inSecond w u v ts us vs xs c a b s i hw hc hu ha closed hv h ih =>
    exact ih.trans ⟨w :: ts ++ u :: us ++ [v], [], by simp⟩

lemma mem_parts (h : WrittenIn ts st us s) : s ∈ st.parts := by
  induction h with
  | @whole ts s h => cases s <;> exact List.mem_cons_self
  | inBranch hw hc hu h ih => exact List.mem_cons_of_mem _ ih
  | inFirst hw hc hu h closed hv hb ih =>
    exact List.mem_append_left _ (List.mem_cons_of_mem _ ih)
  | inSecond hw hc hu ha closed hv h ih => exact List.mem_append_right _ ih

end WrittenIn

lemma Phrase.asBranch {k : Place} {s : Statement} (h : Phrase k ts s) : Phrase .branch ts s := by
  cases k with
  | line => exact .branch h
  | branch => exact h

/-- Every statement inside a statement has its tokens among those of the statement. -/
lemma Phrase.exists_writtenIn {k : Place} {st : Statement} (h : Statement.Phrase k ts st) :
    ∀ s ∈ st.parts, ∃ us, WrittenIn ts st us s := by
  -- the induction is on the phrase, since a statement alone does not tell which tokens write it
  have hwhole : WrittenIn ts st ts st := .whole h.asBranch
  intro s hs
  induction h with
  | assign h =>
    obtain ⟨-, -, -⟩ := h
    obtain rfl := List.mem_singleton.mp hs
    exact ⟨_, hwhole⟩
  | letAssign hw h =>
    obtain ⟨-, -, -⟩ := h
    obtain rfl := List.mem_singleton.mp hs
    exact ⟨_, hwhole⟩
  | ifThen hw hc hu hb ih =>
    rcases List.mem_cons.mp hs with rfl | hs
    · exact ⟨_, hwhole⟩
    · obtain ⟨us, hus⟩ := ih (.whole hb) hs
      exact ⟨us, .inBranch hw hc hu hus⟩
  | ifThenElse hw hc hu ha closed hv hb iha ihb =>
    rcases List.mem_append.mp hs with hs | hs
    · rcases List.mem_cons.mp hs with rfl | hs
      · exact ⟨_, hwhole⟩
      · obtain ⟨us, hus⟩ := iha (.whole ha) hs
        exact ⟨us, .inFirst hw hc hu hus closed hv hb⟩
    · obtain ⟨us, hus⟩ := ihb (.whole hb) hs
      exact ⟨us, .inSecond hw hc hu ha closed hv hus⟩
  | branch h ih => exact ih hwhole hs
  | _ =>
    obtain rfl := List.mem_singleton.mp hs
    exact ⟨_, hwhole⟩

end Statement

namespace Program

/-- **The span of a statement.** Every statement of a program that is read, also one inside another
statement, is written by tokens of its line, and its span reaches over these tokens without the word
`LET` and, if it ends with the span of an expression, without the parentheses that close it. So it
starts at the first of these tokens exactly if this is not `LET`, and it stops at the last one
unless that closes parentheses and the statement is an assignment, a jump or a call. -/
theorem statement_span {source : String} {p : Program} (h : ofText source = .ok p) :
    ∃ tokens, scan source = .ok tokens ∧ ∀ l ∈ p.lines, ∃ t ts, IsRow (t :: ts) tokens ∧
      (∃ x, t.kind = .number x ∧ lineNumber? x = some l.number) ∧
      (∀ s, s ∈ l.statement.parts ↔ ∃ us, Statement.WrittenIn ts l.statement us s) ∧
      ∀ us s, Statement.WrittenIn ts l.statement us s →
        us <:+: ts ∧ s.span = textSpan (s.underlined us) ∧
        (s.span.start = (textSpan us).start ↔ ∀ t ∈ us.head?, t.kind ≠ .keyword .letKw) ∧
        (s.span.stop = (textSpan us).stop ↔
          (s.endsAtExpr = true → ∀ t ∈ us.getLast?, t.kind ≠ .rightParen)) := by
  obtain ⟨tokens, rows, hscan, hrows, hperm⟩ := exists_rows_of_ofText h
  refine ⟨tokens, hscan, fun l hl => ?_⟩
  obtain ⟨⟨row, l⟩, hx, rfl⟩ := List.mem_map.mp (hperm.mem_iff.mp hl)
  obtain ⟨hrow, hread⟩ := hrows.isRow hx
  have horder := (inOrder_of_scan hscan).of_isInfix hrow.isInfix
  obtain @⟨x, s, i, j, n, ts, st, hnumber, hst⟩ := hread
  refine ⟨_, ts, hrow, ⟨x, rfl, hnumber⟩, fun s => ⟨hst.exists_writtenIn s, ?_⟩, fun us s hus => ?_⟩
  · rintro ⟨us, hus⟩
    exact hus.mem_parts
  · have hinside := horder.tail.of_isInfix hus.isInfix
    exact ⟨hus.isInfix, hus.phrase.span_eq hinside, hus.phrase.span_start_iff hinside,
      hus.phrase.span_stop_iff hinside⟩

/-- A statement inside another one, whose span is too short at both ends, and one that is too short
at its end. -/
theorem statement_span_branches :
    let source := "10 IF A THEN LET B = (1) ELSE GOTO (10)"
    ∃ p, ofText source = .ok p ∧ p.lines.map (fun l => l.statement.parts.map Statement.span) =
        [[⟨3, 39⟩, ⟨17, 23⟩, ⟨30, 38⟩]] ∧
      ∃ tokens, scan source = .ok tokens ∧ ∀ l ∈ p.lines, ∃ t ts, IsRow (t :: ts) tokens ∧
        (∃ x, t.kind = .number x ∧ lineNumber? x = some l.number) ∧
        (∀ s, s ∈ l.statement.parts ↔ ∃ us, Statement.WrittenIn ts l.statement us s) ∧
        ∀ us s, Statement.WrittenIn ts l.statement us s →
          us <:+: ts ∧ s.span = textSpan (s.underlined us) ∧
          (s.span.start = (textSpan us).start ↔ ∀ t ∈ us.head?, t.kind ≠ .keyword .letKw) ∧
          (s.span.stop = (textSpan us).stop ↔
            (s.endsAtExpr = true → ∀ t ∈ us.getLast?, t.kind ≠ .rightParen)) := by
  intro source
  obtain ⟨p, hp, hspans⟩ := @exists_ok_of_map _ _ _ (ofText source)
    (fun p => p.lines.map fun l => l.statement.parts.map Statement.span)
    [[⟨3, 39⟩, ⟨17, 23⟩, ⟨30, 38⟩]] (by decide +kernel)
  exact ⟨p, hp, hspans, statement_span hp⟩

/-- The span of an assignment with its word and with parentheses around its expression reaches
neither from the first of its tokens nor up to the last one. -/
theorem letProgram_span_short :
    ∃ p l t ts, ofText "10 LET A = (1)" = .ok p ∧ p.lines = [l] ∧
      scan "10 LET A = (1)" = .ok (t :: ts) ∧
      Statement.WrittenIn ts l.statement ts l.statement ∧
      textSpan ts = ⟨3, 14⟩ ∧ l.statement.span = ⟨7, 13⟩ := by
  let st : Statement := .assign "A" (.number 1 ⟨12, 13⟩) ⟨7, 13⟩
  let t : Token := ⟨.number 10, ⟨0, 2⟩, 1, 1⟩
  let ts : List Token :=
    [⟨.keyword .letKw, ⟨3, 6⟩, 1, 4⟩, ⟨.ident "A", ⟨7, 8⟩, 1, 8⟩,
      ⟨.operator (.rel .eq), ⟨9, 10⟩, 1, 10⟩, ⟨.leftParen, ⟨11, 12⟩, 1, 12⟩,
      ⟨.number 1, ⟨12, 13⟩, 1, 13⟩, ⟨.rightParen, ⟨13, 14⟩, 1, 14⟩]
  obtain ⟨p, hp, hlines⟩ := @exists_of_lines _ (ofText "10 LET A = (1)")
    [⟨10, st, ⟨0, 14⟩⟩] (by decide +kernel)
  obtain ⟨tokens, hscan, rfl⟩ := @exists_ok_of_map _ _ _ (scan "10 LET A = (1)") id (t :: ts)
    (by decide +kernel)
  have hone : Expr.Phrase .relation [⟨.number 1, ⟨12, 13⟩, 1, 13⟩] (.number 1 ⟨12, 13⟩) :=
    .tighter (.tighter (.tighter (.tighter .number)))
  have hvalue : Expr.Phrase .relation (ts.drop 3) (.number 1 ⟨12, 13⟩) :=
    .tighter (.tighter (.tighter (.tighter (.parens rfl rfl hone))))
  have hst : Statement.Phrase .line ts st := .letAssign rfl (.intro rfl rfl hvalue)
  exact ⟨p, ⟨10, st, ⟨0, 14⟩⟩, t, ts, hp, hlines, hscan, .whole hst.asBranch, rfl, rfl⟩

end Program

end LineBasic
