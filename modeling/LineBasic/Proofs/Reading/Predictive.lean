import LineBasic.Proofs.Reading.Program

/-!
# Readers that look at one token

The readers never go back, and they decide by the kind of the next token only.  So what a reader
has passed before it fails can always be continued, and the token at which it fails cannot follow.

* `Viable`: tokens that can be continued to a text of some kind;
* `FailsAt`: an error of a reader points at a token, the tokens before it are viable, and nothing
  that follows the token changes the error;
* `Predictive`: at a cursor, a reader depends on the tokens that it passes and on the kind of the
  next one, and it fails in this way;
* `Predictive.token`, `Predictive.bind`, `Predictive.map`, `Predictive.optional`: how such readers
  are put together;
* `Expr.predictive`, `Expr.predictive_read`: the readers of expressions are of this kind.
-/

namespace LineBasic

/-! ### Texts that can be continued -/

/-- Tokens that some more tokens, without numbers below zero, continue to tokens of `P`. -/
def Viable (P : List Token → Prop) (ts : List Token) : Prop :=
  ∃ us, (∀ t ∈ us, t.kind.nonNegative = true) ∧ P (ts ++ us)

namespace Viable

variable {P Q : List Token → Prop} {ts : List Token}

lemma of_mem (h : P ts) : Viable P ts := ⟨[], by simp, by rwa [List.append_nil]⟩

/-- What makes a text of `P` from some tokens may be continued once more. -/
lemma trans (h : Viable P ts) (hPQ : ∀ us, P us → Viable Q us) : Viable Q ts := by
  obtain ⟨us, hus, hP⟩ := h
  obtain ⟨vs, hvs, hQ⟩ := hPQ _ hP
  refine ⟨us ++ vs, List.forall_mem_append.mpr ⟨hus, hvs⟩, ?_⟩
  rwa [← List.append_assoc]

/-- Some tokens before those that are continued. -/
lemma prepend {us : List Token} (h : Viable (fun us => P (ts ++ us)) us) : Viable P (ts ++ us) := by
  obtain ⟨vs, hvs, hP⟩ := h
  exact ⟨vs, hvs, by rwa [List.append_assoc]⟩

end Viable

/-! ### Readers that look at one token -/

namespace Cursor

/-- A cursor that came from the same token and stands before a token of the same kind. -/
structure Alike (c d : Cursor) : Prop where
  last : d.last = c.last
  kind? : d.kind? = c.kind?

lemma Alike.refl (c : Cursor) : c.Alike c := ⟨rfl, rfl⟩

lemma Alike.operator? {c d : Cursor} (h : c.Alike d) : d.operator? = c.operator? := by
  have hkind := h.kind?
  obtain ⟨s, ts⟩ := c
  obtain ⟨s', us⟩ := d
  cases ts with
  | nil =>
    cases us with
    | nil => rfl
    | cons u us => cases hkind
  | cons t ts =>
    cases us with
    | nil => cases hkind
    | cons u us =>
      obtain ⟨kind, _, _, _⟩ := t
      obtain ⟨kind', _, _, _⟩ := u
      cases hkind
      rw [Cursor.operator?, Cursor.operator?]
      cases kind <;> rfl

/-- Passing the same tokens leads to cursors that are alike only from cursors that are. -/
lemma Passes.alike {c c' d : Cursor} {ts : List Token} (h : c.Passes ts c') (hd : c'.Alike d) :
    c.Alike ⟨c.last, ts ++ d.rest⟩ := by
  refine ⟨rfl, ?_⟩
  have hkind := hd.kind?
  rw [kind?, kind?] at hkind ⊢
  rw [h.rest]
  cases ts with
  | nil => exact hkind
  | cons t ts => rfl

lemma Passes.unique {c c' : Cursor} {ts us : List Token} (h : c.Passes ts c')
    (h' : c.Passes us c') : ts = us :=
  List.append_cancel_right (h.rest.symm.trans h'.rest)

end Cursor

/-- What can be read, or why nothing can, with the cursor after what was read. -/
abbrev Reader (α : Type) := Cursor → Except ParseError (α × Cursor)

/-- An error that a reader of texts of `P` gives points at a token.  The tokens before it can be
continued to such a text, and whatever follows the token, the error is the same. -/
def FailsAt {α : Type} (f : Cursor → Except ParseError α) (P : List Token → Prop) (c : Cursor)
    (e : ParseError) : Prop :=
  ∃ ts c', c.Passes ts c' ∧ e.span = c'.span ∧ Viable P ts ∧
    ∀ t rest, c'.rest = t :: rest → ∀ us, f ⟨c.last, ts ++ t :: us⟩ = .error e

/-- At a cursor, a reader of texts of `P` never looks beyond the token at which it stops.  What it
reads depends on the tokens that it passes and on the kind of the next one; if it fails, it does so
at the first token that no text of `P` can have there. -/
structure Predictive {α : Type} (f : Reader α) (P : List Token → Prop) (c : Cursor) : Prop where
  reads : ∀ x c', f c = .ok (x, c') → ∃ ts, c.Passes ts c' ∧
    ∀ d, c'.Alike d → f ⟨c.last, ts ++ d.rest⟩ = .ok (x, d)
  fails : ∀ e, f c = .error e → FailsAt f P c e

namespace FailsAt

variable {α β : Type} {f : Cursor → Except ParseError α} {g : Cursor → Except ParseError β}
  {P Q : List Token → Prop} {c c' : Cursor} {e : ParseError}

/-- A reader that fails where its first part fails. -/
lemma first (h : FailsAt f P c e) (hPQ : ∀ us, P us → Viable Q us)
    (hfg : ∀ d, c.Alike d → f d = .error e → g d = .error e) : FailsAt g Q c e := by
  obtain ⟨ts, c', hpass, hspan, hviable, hsame⟩ := h
  refine ⟨ts, c', hpass, hspan, hviable.trans hPQ, fun t rest hrest us => ?_⟩
  have hlike : c'.Alike ⟨c'.last, t :: us⟩ := ⟨rfl, by simp [Cursor.kind?, hrest]⟩
  exact hfg _ (hpass.alike hlike) (hsame t rest hrest us)

/-- A reader that fails where its second part fails. -/
lemma after {ts : List Token} (hpass : c.Passes ts c')
    (h : FailsAt f (fun us => P (ts ++ us)) c' e)
    (hfg : ∀ d, c'.Alike d → f d = .error e → g ⟨c.last, ts ++ d.rest⟩ = .error e) :
    FailsAt g P c e := by
  obtain ⟨us, c'', hpass', hspan, hviable, hsame⟩ := h
  refine ⟨ts ++ us, c'', hpass.trans hpass', hspan, hviable.prepend, fun t rest hrest vs => ?_⟩
  have hlike : c''.Alike ⟨c''.last, t :: vs⟩ := ⟨rfl, by simp [Cursor.kind?, hrest]⟩
  rw [List.append_assoc]
  exact hfg _ (hpass'.alike hlike) (hsame t rest hrest vs)

end FailsAt

namespace Predictive

variable {α β : Type} {f : Reader α} {P Q : List Token → Prop} {c : Cursor}

/-- Each of the texts can be one of more texts. -/
lemma mono (h : Predictive f P c) (hPQ : ∀ us, P us → Viable Q us) : Predictive f Q c :=
  ⟨h.reads, fun e he => (h.fails e he).first hPQ fun _ _ hd => hd⟩

/-- Readers that do the same before a token of this kind. -/
lemma congr {g : Reader α} (h : Predictive f P c) (hfg : ∀ d, c.Alike d → g d = f d) :
    Predictive g P c := by
  refine ⟨fun x c' hx => ?_, fun e he => ?_⟩
  · rw [hfg c (.refl c)] at hx
    obtain ⟨ts, hpass, hsame⟩ := h.reads x c' hx
    refine ⟨ts, hpass, fun d hd => ?_⟩
    rw [hfg _ (hpass.alike hd)]
    exact hsame d hd
  · rw [hfg c (.refl c)] at he
    exact (h.fails e he).first (fun _ => .of_mem) fun d hd hf => (hfg d hd).trans hf

/-- A reader that takes nothing. -/
lemma stop (x : α) (h : ∀ d, c.Alike d → f d = .ok (x, d)) : Predictive f P c := by
  have hc := h c (.refl c)
  refine ⟨fun y c' hy => ?_, fun e he => ?_⟩
  · cases hc.symm.trans hy
    refine ⟨[], .refl c, fun d hd => ?_⟩
    have hd' : c.Alike ⟨c.last, d.rest⟩ := ⟨rfl, hd.kind?⟩
    obtain ⟨s, rest⟩ := d
    obtain rfl : s = c.last := hd.last
    exact h _ hd'
  · cases hc.symm.trans he

/-- A reader that fails before it takes anything. -/
lemma fail {e : ParseError} (hP : Viable P []) (hspan : e.span = c.span) (hc : f c = .error e)
    (h : ∀ t rest, c.rest = t :: rest → ∀ us, f ⟨c.last, t :: us⟩ = .error e) :
    Predictive f P c := by
  refine ⟨fun x c' hx => ?_, fun e' he => ?_⟩
  · cases hc.symm.trans hx
  · cases hc.symm.trans he
    exact ⟨[], c, .refl c, hspan, hP, h⟩

/-- A reader that does not find what it looks for. -/
lemma expected (what : Expectation) (hP : Viable P [])
    (h : ∀ d, c.Alike d → f d = .error (d.expected what)) : Predictive f P c := by
  refine fail hP rfl (h c (.refl c)) fun t rest hrest us => ?_
  have hlike : c.Alike ⟨c.last, t :: us⟩ := ⟨rfl, by simp [Cursor.kind?, hrest]⟩
  rw [h _ hlike]
  simp [Cursor.expected, Cursor.kind?, Cursor.span, hrest]

/-- A reader that takes one token and goes on. -/
lemma token {g : Reader α} {s : Span} {t : Token} {ts : List Token}
    (hfg : ∀ us, f ⟨s, t :: us⟩ = g ⟨t.span, us⟩)
    (h : Predictive g (fun us => P (t :: us)) ⟨t.span, ts⟩) : Predictive f P ⟨s, t :: ts⟩ := by
  refine ⟨fun x c' hx => ?_, fun e he => ?_⟩
  · rw [hfg] at hx
    obtain ⟨us, hpass, hsame⟩ := h.reads x c' hx
    exact ⟨t :: us, hpass.cons, fun d hd => (hfg _).trans (hsame d hd)⟩
  · rw [hfg] at he
    refine (h.fails e he).after (.token s t ts) fun d hd hg => ?_
    obtain ⟨s', rest⟩ := d
    obtain rfl : s' = t.span := hd.last
    exact (hfg rest).trans hg

/-- A reader after another. -/
lemma bind {g : α → Reader β} (hf : Predictive f Q c) (hQP : ∀ us, Q us → Viable P us)
    (hg : ∀ x c' ts, f c = .ok (x, c') → c.Passes ts c' →
      Predictive (g x) (fun us => P (ts ++ us)) c') :
    Predictive (fun c => (f c).bind fun y => g y.1 y.2) P c := by
  cases hfc : f c with
  | error e =>
    refine ⟨fun y c' hy => ?_, fun e' he => ?_⟩
    · rw [hfc] at hy
      cases hy
    · rw [hfc] at he
      cases he
      exact (hf.fails e hfc).first hQP fun d _ hd => by rw [hd]; rfl
  | ok y =>
    obtain ⟨x, c'⟩ := y
    obtain ⟨ts, hpass, hsame⟩ := hf.reads x c' hfc
    have hx := hg x c' ts hfc hpass
    refine ⟨fun y c'' hy => ?_, fun e he => ?_⟩
    · rw [hfc] at hy
      obtain ⟨us, hpass', hsame'⟩ := hx.reads y c'' hy
      refine ⟨ts ++ us, hpass.trans hpass', fun d hd => ?_⟩
      rw [List.append_assoc, hsame _ (hpass'.alike hd)]
      exact hsame' d hd
    · rw [hfc] at he
      refine (hx.fails e he).after hpass fun d hd hg => ?_
      rw [hsame d hd]
      exact hg

/-- What is read may be changed afterwards, also by the place where the reader stopped. -/
lemma map (g : α → Span → β) (hf : Predictive f P c) :
    Predictive (fun c => (f c).map fun y => (g y.1 y.2.last, y.2)) P c := by
  refine (hf.bind (fun _ => .of_mem) fun x c' ts _ _ =>
    stop (f := fun d => .ok (g x d.last, d)) (g x c'.last) fun d hd => ?_).congr fun d _ => ?_
  · rw [hd.last]
  · cases f d <;> rfl

/-- A reader that takes a word if it stands there, and goes on only after it. -/
lemma optional {kind : Kind} {f : Reader α} (g : Span → α)
    (h : ∀ t ts, c.rest = t :: ts → t.kind = kind →
      Predictive f (fun us => P (t :: us)) ⟨t.span, ts⟩) :
    Predictive (fun c =>
      match c.skip? kind with
      | none => .ok (g c.last, c)
      | some c' => f c') P c := by
  by_cases hkind : c.kind? = some kind
  · obtain ⟨s, rest⟩ := c
    cases rest with
    | nil => cases hkind
    | cons t ts =>
      have ht : t.kind = kind := Option.some.inj hkind
      refine token (fun us => ?_) (h t ts rfl ht)
      rw [Cursor.skip?_token ht]
  · refine stop (g c.last) fun d hd => ?_
    have hnone : d.skip? kind = none := Cursor.skip?_eq_none_iff.mpr (hd.kind? ▸ hkind)
    rw [hnone]
    simp only [hd.last]

end Predictive

/-! ### Words -/

/-- A token of a kind, without a place of its own. -/
def Kind.token (kind : Kind) : Token := ⟨kind, .origin, 0, 0⟩

lemma Viable.of_kinds {P : List Token → Prop} {ts : List Token} (kinds : List Kind)
    (hkinds : ∀ k ∈ kinds, k.nonNegative = true) (h : P (ts ++ kinds.map Kind.token)) :
    Viable P ts := by
  refine ⟨kinds.map Kind.token, fun t ht => ?_, h⟩
  obtain ⟨k, hk, rfl⟩ := List.mem_map.mp ht
  exact hkinds k hk

namespace Cursor

lemma expect_of_kind {c : Cursor} {kind : Kind} (h : c.kind? ≠ some kind) :
    Reading.result (c.expect kind) = .error (c.expected (.token kind)) := by
  obtain ⟨s, rest⟩ := c
  rw [expect.eq_def]
  cases rest with
  | nil => rfl
  | cons t ts =>
    have ht : t.kind ≠ kind := fun ht => h (congrArg some ht)
    simp only [if_neg ht]
    rfl

lemma predictive_expect (c : Cursor) (kind : Kind) (hkind : kind.nonNegative = true) :
    Predictive (fun c => Reading.result (c.expect kind)) (fun ts => ∃ t, ts = [t] ∧ t.kind = kind)
      c := by
  by_cases hc : c.kind? = some kind
  · obtain ⟨s, rest⟩ := c
    cases rest with
    | nil => cases hc
    | cons t ts =>
      have ht : t.kind = kind := Option.some.inj hc
      exact .token (g := fun d => .ok ((), d)) (fun us => expect_token ht s us)
        (.stop () fun _ _ => rfl)
  · refine .expected (.token kind) (.of_kinds [kind] (by simpa using hkind) ⟨_, rfl, rfl⟩) ?_
    intro d hd
    exact expect_of_kind (hd.kind? ▸ hc)

lemma ident_of_kind {c : Cursor} (h : ∀ n, c.kind? ≠ some (.ident n)) :
    Reading.result c.ident = .error (c.expected .identifier) := by
  rw [ident.eq_def]
  split
  next last n s l k ts => exact absurd rfl (h n)
  next => rfl

lemma predictive_ident (c : Cursor) :
    Predictive (fun c => Reading.result c.ident)
      (fun ts => ∃ t n, ts = [t] ∧ t.kind = .ident n) c := by
  by_cases hc : ∃ n, c.kind? = some (.ident n)
  · obtain ⟨n, hc⟩ := hc
    obtain ⟨s, rest⟩ := c
    cases rest with
    | nil => cases hc
    | cons t ts =>
      have ht : t.kind = .ident n := Option.some.inj hc
      exact .token (g := fun d => .ok (n, d)) (fun us => ident_token ht s us)
        (.stop n fun _ _ => rfl)
  · have hnone : ∀ n, c.kind? ≠ some (.ident n) := fun n hn => hc ⟨n, hn⟩
    refine .expected .identifier (.of_kinds [.ident "A"] (by decide) ⟨_, _, rfl, rfl⟩) ?_
    intro d hd
    exact ident_of_kind fun n => hd.kind? ▸ hnone n

end Cursor

/-! ### Expressions -/

namespace Expr

/-- A text that can be read with a least power. -/
def TextAbove (q : Nat) (ts : List Token) : Prop := ∃ k e, q ≤ k.power ∧ Expr.Phrase k ts e

lemma TextAbove.relation {q : Nat} {ts : List Token} (h : TextAbove q ts) :
    ∃ e, Expr.Phrase .relation ts e := by
  obtain ⟨k, e, -, he⟩ := h
  exact ⟨e, he.loosen k.one_le_power⟩

/-- The reader with a least power. -/
def AbovePredictive (c : Cursor) : Prop :=
  ∀ q, q ≤ minusPower → Predictive (fun c => Reading.result (readAbove q c)) (TextAbove q) c

/-- The reader of operands. -/
def OperandPredictive (c : Cursor) : Prop :=
  Predictive (fun c => Reading.result (readOperand c)) (fun ts => ∃ e, Expr.Phrase .sign ts e) c

/-- The climb after a phrase. -/
def ClimbPredictive (c : Cursor) : Prop :=
  ∀ q a k vs, Expr.Phrase k vs a → q ≤ k.power → c.Stops (k.power + 1) →
    Predictive (fun c => Reading.result (climb q a c)) (fun ts => TextAbove q (vs ++ ts)) c

lemma abovePredictive_of {c : Cursor} (hO : OperandPredictive c)
    (ihC : ∀ c' : Cursor, c'.rest.length < c.rest.length → ClimbPredictive c') :
    AbovePredictive c := by
  intro q hq
  refine (hO.bind (g := fun a c => Reading.result (climb q a c)) (fun us hus => ?_)
    fun a c' ts hread hpass => ?_).congr fun d _ => readAbove_result q d
  · obtain ⟨e, he⟩ := hus
    exact .of_mem ⟨.sign, e, hq, he⟩
  · obtain ⟨r, hr, rfl, rfl⟩ := Reading.result_eq_ok.mp hread
    obtain ⟨us, hphrase, hpass'⟩ := (sound c).2.1 r hr
    cases hpass.unique hpass'
    exact ihC r.next r.short q r.value .sign ts hphrase hq
      fun op _ => Nat.lt_succ_of_lt op.leftPower_lt_minusPower

/-- The kinds of tokens that an operand can start with. -/
def startsOperand : Kind → Bool
  | .number _ | .string _ | .ident _ | .leftParen | .operator (.arith .sub) => true
  | _ => false

lemma readOperand_of_kind {c : Cursor} (h : ∀ k, c.kind? = some k → startsOperand k = false) :
    Reading.result (readOperand c) = .error (c.expected .expression) := by
  rw [readOperand.eq_def]
  split
  next => cases h _ rfl
  next => cases h _ rfl
  next => cases h _ rfl
  next => cases h _ rfl
  next => cases h _ rfl
  next => rfl

lemma operandPredictive_of_kind {c : Cursor} (h : ∀ k, c.kind? = some k → startsOperand k = false) :
    OperandPredictive c := by
  refine .expected .expression ?_ fun d hd => readOperand_of_kind (hd.kind? ▸ h)
  exact .of_kinds [.number 0] (by decide +kernel) ⟨_, .tighter .number⟩

lemma operandPredictive_minus {s : Span} {t : Token} {ts : List Token}
    (ht : t.kind = .operator (.arith .sub)) (h : AbovePredictive ⟨t.span, ts⟩) :
    OperandPredictive ⟨s, t :: ts⟩ := by
  obtain ⟨kind, sp, l, k⟩ := t
  cases ht
  refine .token (fun us => readOperand_minus s sp l k us)
    (((h minusPower (Nat.le_refl _)).map fun e _ => negated sp e).mono fun us hus => ?_)
  obtain ⟨k', e, hk', he⟩ := hus
  exact .of_mem ⟨_, .negated rfl (he.loosen hk')⟩

lemma operandPredictive_parens {s : Span} {t : Token} {ts : List Token}
    (ht : t.kind = .leftParen) (h : AbovePredictive ⟨t.span, ts⟩) :
    OperandPredictive ⟨s, t :: ts⟩ := by
  obtain ⟨kind, sp, l, k⟩ := t
  cases ht
  have hparens {us : List Token} {u : Token} (hus : ∃ e, Expr.Phrase .relation us e)
      (hu : u.kind = .rightParen) :
      ∃ e, Expr.Phrase .sign (⟨.leftParen, sp, l, k⟩ :: (us ++ [u])) e := by
    obtain ⟨e, he⟩ := hus
    exact ⟨e, .tighter (.parens rfl hu he)⟩
  refine .token (g := fun c => (Reading.result (readAbove 0 c)).bind fun x =>
    (Reading.result (x.2.expect .rightParen)).map fun y => (x.1, y.2))
    (fun us => readOperand_leftParen s sp l k us) ?_
  refine (h 0 (Nat.zero_le _)).bind
    (g := fun e c => (Reading.result (c.expect .rightParen)).map fun y => (e, y.2))
    (fun us hus => ?_) fun e c' us hread hpass => ?_
  · exact .of_kinds [.rightParen] (by decide) (hparens hus.relation rfl)
  · obtain ⟨r, hr, rfl, rfl⟩ := Reading.result_eq_ok.mp hread
    obtain ⟨k', us', -, he, hpass', -⟩ := (sound ⟨sp, ts⟩).1 0 r hr (Nat.zero_le _)
    cases hpass.unique hpass'
    refine ((r.next.predictive_expect _ rfl).map fun _ _ => r.value).mono fun vs hvs => ?_
    obtain ⟨u, rfl, hu⟩ := hvs
    exact .of_mem (hparens ⟨_, he.loosen k'.one_le_power⟩ hu)

lemma operandPredictive_of {c : Cursor}
    (ih : ∀ c' : Cursor, c'.rest.length < c.rest.length → AbovePredictive c') :
    OperandPredictive c := by
  obtain ⟨s, rest⟩ := c
  cases rest with
  | nil => exact operandPredictive_of_kind fun k hk => by cases hk
  | cons t ts =>
    have hnext : AbovePredictive ⟨t.span, ts⟩ := ih _ (Nat.lt_succ_self _)
    obtain ⟨kind, sp, l, k⟩ := t
    -- an operand of one token
    have hone {e : Expr}
        (he : ∀ us, Reading.result (readOperand ⟨s, ⟨kind, sp, l, k⟩ :: us⟩) = .ok (e, ⟨sp, us⟩)) :
        OperandPredictive ⟨s, ⟨kind, sp, l, k⟩ :: ts⟩ :=
      .token (g := fun d => .ok (e, d)) he (.stop e fun _ _ => rfl)
    by_cases hstart : startsOperand kind = true
    · cases kind with
      | number x => exact hone fun us => by rw [readOperand.eq_def]; rfl
      | string x => exact hone fun us => by rw [readOperand.eq_def]; rfl
      | ident x => exact hone fun us => by rw [readOperand.eq_def]; rfl
      | leftParen => exact operandPredictive_parens rfl hnext
      | operator op =>
        refine operandPredictive_minus ?_ hnext
        rcases op with (_ | _ | _ | _) | _ <;> first | rfl | cases hstart
      | keyword w => cases hstart
      | rightParen => cases hstart
      | comma => cases hstart
      | newline => cases hstart
    · refine operandPredictive_of_kind fun k' hk' => ?_
      cases hk'
      exact Bool.eq_false_iff.mpr hstart

lemma climbPredictive_of {c : Cursor}
    (ihA : ∀ c' : Cursor, c'.rest.length < c.rest.length → AbovePredictive c')
    (ihC : ∀ c' : Cursor, c'.rest.length < c.rest.length → ClimbPredictive c') :
    ClimbPredictive c := by
  intro q a k vs ha hk hc
  by_cases hstop : c.Stops q
  · refine .stop a fun d hd => climb_stop a fun op hop => hstop op ?_
    rwa [← hd.operator?]
  · obtain ⟨op, hop, hq⟩ : ∃ op, c.operator? = some op ∧ q ≤ op.leftPower := by
      simpa [Cursor.Stops] using hstop
    obtain ⟨last, rest⟩ := c
    rw [Cursor.operator?] at hop
    split at hop
    next op' s l k₀ ts hrest =>
      cases hop
      obtain rfl : rest = _ := hrest
      have hop : op.level.power ≤ k.power := op.power_level ▸ Nat.le_of_lt_succ (hc op rfl)
      refine .token (g := fun c => (Reading.result (readAbove op.rightPower c)).bind fun x =>
        Reading.result (climb q (.binary op a x.1 (a.span.merge x.1.span)) x.2))
        (fun us => climb_join a last s l k₀ us hq) ?_
      refine (ihA ⟨s, ts⟩ (Nat.lt_succ_self _) op.rightPower op.leftPower_lt_minusPower).bind
        (g := fun b c => Reading.result (climb q (.binary op a b (a.span.merge b.span)) c))
        (fun us hus => ?_) fun b c' us hread hpass => ?_
      · obtain ⟨kr, b, hkr, hb⟩ := hus
        refine .of_mem
          ⟨op.level, .binary op a b (a.span.merge b.span), op.power_level ▸ hq, ?_⟩
        exact .binary rfl (ha.loosen hop) (hb.loosen_tighter hkr)
      · obtain ⟨r, hr, rfl, rfl⟩ := Reading.result_eq_ok.mp hread
        obtain ⟨kr, us', hkr, hb, hpass', hstop'⟩ := (sound ⟨s, ts⟩).1 _ r hr
          op.leftPower_lt_minusPower
        cases hpass.unique hpass'
        have hjoined : Expr.Phrase op.level (vs ++ ⟨.operator op, s, l, k₀⟩ :: us)
            (.binary op a r.value (a.span.merge r.value.span)) :=
          .binary rfl (ha.loosen hop) (hb.loosen_tighter hkr)
        have hclimb := ihC r.next (Nat.lt_succ_of_lt r.short) q _ op.level _ hjoined
          (op.power_level ▸ hq) (op.power_level ▸ hstop')
        simpa using hclimb
    next => cases hop

/-- None of the three readers of expressions looks beyond the next token. -/
theorem predictive (c : Cursor) : AbovePredictive c ∧ OperandPredictive c ∧ ClimbPredictive c := by
  induction c using Cursor.shorterInduction with
  | _ c ih =>
    have hO : OperandPredictive c := operandPredictive_of fun c' hc' => (ih c' hc').1
    refine ⟨abovePredictive_of hO fun c' hc' => (ih c' hc').2.2, hO, ?_⟩
    exact climbPredictive_of (fun c' hc' => (ih c' hc').1) fun c' hc' => (ih c' hc').2.2

/-- The texts of whole expressions. -/
lemma predictive_read (c : Cursor) :
    Predictive (fun c => Reading.result (read c)) (fun ts => ∃ e, Expr.Phrase .relation ts e) c :=
  ((predictive c).1 0 (Nat.zero_le _)).mono fun _ h => .of_mem h.relation

end Expr

end LineBasic
