import LineBasic.Proofs.Grammar
import LineBasic.Reading.Expr

/-!
# Reading expressions by the grammar

The reader climbs by binding powers, and the grammar goes by levels.  The two meet in
`Level.power`: an operator joins the expressions of the level whose power it has on its left.

* `Reading.result`: what a reader returns, without the bound on what is left;
* `Expr.sound`: what was read is a phrase of a level that binds at least as strongly as the least
  power, and no operator of that power follows;
* `Expr.Phrase.reads`: at the front of a text, a phrase is read and the climb goes on after it,
  unless an operator follows that is tighter than the phrase;
* `Expr.read_sound`, `Expr.Phrase.read`: the two for whole expressions;
* `Expr.Derives`: the next `k` tokens at a cursor write an expression that no operator continues;
* `Expr.read_eq_ok_iff_derives`: reading is the same as deriving, and what is derived is unique.
-/

namespace LineBasic

/-! ### Results -/

/-- What a reader returns: the value and the cursor after it, or the error. -/
def Reading.result {n : Nat} {α : Type} (r : Except ParseError (Reading n α)) :
    Except ParseError (α × Cursor) :=
  r.map fun x => (x.value, x.next)

lemma Reading.result_eq_ok {n : Nat} {α : Type} {r : Except ParseError (Reading n α)} {a : α}
    {c : Cursor} : Reading.result r = .ok (a, c) ↔ ∃ x, r = .ok x ∧ x.value = a ∧ x.next = c := by
  cases r with
  | error e => simp [Reading.result, Except.map]
  | ok x => simp [Reading.result, Except.map]

/-- The operator at a cursor, if one stands there. -/
def Cursor.operator? (c : Cursor) : Option BinaryOp :=
  match c.rest with
  | ⟨.operator op, _, _, _⟩ :: _ => some op
  | _ => none

/-- No operator that holds its left side with power `q` or more stands at the cursor. -/
def Cursor.Stops (q : Nat) (c : Cursor) : Prop := ∀ op, c.operator? = some op → op.leftPower < q

/-- The cursor comes to `c'` when it passes over some tokens. -/
structure Cursor.Passes (c : Cursor) (ts : List Token) (c' : Cursor) : Prop where
  rest : c.rest = ts ++ c'.rest
  last : c'.last = lastSpan c.last ts

/-- Induction on the number of tokens that are left. -/
lemma Cursor.shorterInduction {P : Cursor → Prop}
    (step : ∀ c, (∀ c' : Cursor, c'.rest.length < c.rest.length → P c') → P c) (c : Cursor) :
    P c := by
  induction hn : c.rest.length using Nat.strongRecOn generalizing c with
  | _ n ih => exact step c fun c' hc' => ih _ (hn ▸ hc') c' rfl

namespace Cursor.Passes

lemma refl (c : Cursor) : c.Passes [] c := ⟨rfl, rfl⟩

lemma token (s : Span) (t : Token) (ts : List Token) : Passes ⟨s, t :: ts⟩ [t] ⟨t.span, ts⟩ :=
  ⟨rfl, rfl⟩

lemma trans {c c' c'' : Cursor} {ts us : List Token} (h : c.Passes ts c') (h' : c'.Passes us c'') :
    c.Passes (ts ++ us) c'' := by
  refine ⟨?_, ?_⟩
  · rw [h.rest, h'.rest, List.append_assoc]
  · rw [h'.last, h.last, lastSpan_append]

lemma cons {s : Span} {t : Token} {ts us : List Token} {c : Cursor}
    (h : Passes ⟨t.span, us⟩ ts c) : Passes ⟨s, t :: us⟩ (t :: ts) c :=
  (token s t us).trans h

end Cursor.Passes

/-! ### Levels and powers -/

/-- The power with which the operators of a level hold what is on their left.  The levels without
such operators bind more strongly than all others. -/
def Level.power : Level → Nat
  | .relation => 1
  | .sum => 3
  | .product => 5
  | .sign => 7
  | .primary => 9

lemma Level.one_le_power (k : Level) : 1 ≤ k.power := by
  cases k <;> decide

lemma BinaryOp.power_level (op : BinaryOp) : op.level.power = op.leftPower := by
  rcases op with (_ | _ | _ | _) | _ <;> rfl

lemma BinaryOp.leftPower_lt_minusPower (op : BinaryOp) : op.leftPower < minusPower := by
  rcases op with (_ | _ | _ | _) | _ <;> simp [BinaryOp.leftPower, minusPower]

lemma Level.power_le_power_tighter (k : Level) : k.power ≤ k.tighter.power := by
  cases k <;> decide

lemma BinaryOp.rightPower_le_power_tighter (op : BinaryOp) :
    op.rightPower ≤ op.level.tighter.power := by
  rcases op with (_ | _ | _ | _) | _ <;>
    simp [rightPower, leftPower, level, Level.tighter, Level.power]

/-- A phrase of one level is a phrase of every looser level. -/
lemma Expr.Phrase.loosen {k k' : Level} {ts : List Token} {e : Expr} (h : Expr.Phrase k ts e)
    (hk : k'.power ≤ k.power) : Expr.Phrase k' ts e := by
  cases k <;> cases k' <;> first
    | exact h
    | exact absurd hk (by decide)
    | exact .tighter h
    | exact .tighter (.tighter h)
    | exact .tighter (.tighter (.tighter h))
    | exact .tighter (.tighter (.tighter (.tighter h)))

lemma Expr.Phrase.loosen_tighter {op : BinaryOp} {k : Level} {ts : List Token} {e : Expr}
    (h : Expr.Phrase k ts e) (hk : op.rightPower ≤ k.power) :
    Expr.Phrase op.level.tighter ts e := by
  apply h.loosen
  have hop : op.leftPower + 1 ≤ k.power := hk
  rw [← op.power_level] at hop
  revert hop
  cases k <;> cases op.level <;> decide

/-! ### One step of the reader -/

lemma Cursor.expect_sound {c : Cursor} {kind : Kind} {r : Reading c.rest.length Unit}
    (h : c.expect kind = .ok r) : ∃ t, t.kind = kind ∧ c.Passes [t] r.next := by
  rw [Cursor.expect.eq_def] at h
  split at h
  next last t ts =>
    split at h
    next hkind =>
      cases h
      exact ⟨t, hkind, .token ..⟩
    next => cases h
  next => cases h

lemma Cursor.expect_token {t : Token} {kind : Kind} (ht : t.kind = kind) (s : Span)
    (ts : List Token) :
    Reading.result (Cursor.expect ⟨s, t :: ts⟩ kind) = .ok ((), ⟨t.span, ts⟩) := by
  rw [Cursor.expect.eq_def]
  simp only [if_pos ht]
  rfl

namespace Expr

lemma negated_of_constant?_none {e : Expr} (h : e.constant? = none) (s : Span) :
    e.negated s = .binary (.arith .sub) (.number 0 s) e (s.merge e.span) := by
  cases e with
  | number x sp => cases h
  | ident x sp => rfl
  | string x sp => rfl
  | binary op a b sp => rfl

lemma readAbove_result (q : Nat) (c : Cursor) :
    Reading.result (readAbove q c) =
      (Reading.result (readOperand c)).bind fun x => Reading.result (climb q x.1 x.2) := by
  rw [readAbove]
  cases readOperand c with
  | error e => rfl
  | ok first =>
    simp only [Reading.result, Except.map, Except.bind]
    cases climb q first.value first.next <;> rfl

/-- The climb ends where no operator of at least the least power stands. -/
lemma climb_stop {q : Nat} {c : Cursor} (a : Expr)
    (h : ∀ op, c.operator? = some op → op.leftPower < q) :
    Reading.result (climb q a c) = .ok (a, c) := by
  rw [climb.eq_def]
  split
  next last op s l k ts =>
    rw [if_pos (h op rfl)]
    rfl
  next => rfl

/-- The climb takes in an operator of at least the least power and what it holds on its right. -/
lemma climb_join {q : Nat} {op : BinaryOp} (a : Expr) (last s : Span) (l k : Nat)
    (ts : List Token) (h : q ≤ op.leftPower) :
    Reading.result (climb q a ⟨last, ⟨.operator op, s, l, k⟩ :: ts⟩) =
      (Reading.result (readAbove op.rightPower ⟨s, ts⟩)).bind fun x =>
        Reading.result (climb q (.binary op a x.1 (a.span.merge x.1.span)) x.2) := by
  rw [climb.eq_def]
  simp only [if_neg (Nat.not_lt.mpr h)]
  cases readAbove op.rightPower ⟨s, ts⟩ with
  | error e => rfl
  | ok right =>
    simp only [Reading.result, Except.map, Except.bind]
    cases climb q (.binary op a right.value (a.span.merge right.value.span)) right.next <;> rfl

lemma readOperand_leftParen (last s : Span) (l k : Nat) (ts : List Token) :
    Reading.result (readOperand ⟨last, ⟨.leftParen, s, l, k⟩ :: ts⟩) =
      (Reading.result (readAbove 0 ⟨s, ts⟩)).bind fun x =>
        (Reading.result (x.2.expect .rightParen)).map fun y => (x.1, y.2) := by
  rw [readOperand.eq_def]
  simp only
  cases readAbove 0 ⟨s, ts⟩ with
  | error e => rfl
  | ok inner =>
    simp only [Reading.result, Except.map, Except.bind]
    cases inner.next.expect .rightParen <;> rfl

lemma readOperand_minus (last s : Span) (l k : Nat) (ts : List Token) :
    Reading.result (readOperand ⟨last, ⟨.operator (.arith .sub), s, l, k⟩ :: ts⟩) =
      (Reading.result (readAbove minusPower ⟨s, ts⟩)).map fun x => (negated s x.1, x.2) := by
  rw [readOperand.eq_def]
  simp only
  cases readAbove minusPower ⟨s, ts⟩ <;> rfl

/-! ### What is read is a phrase -/

/-- What is read at a cursor is a phrase, up to an operator that is too weak. -/
def AboveSound (c : Cursor) : Prop :=
  ∀ q r, readAbove q c = .ok r → q ≤ minusPower →
    ∃ k ts, q ≤ k.power ∧ Expr.Phrase k ts r.value ∧ c.Passes ts r.next ∧ r.next.Stops q

/-- An operand that is read at a cursor is a phrase of the level of signs. -/
def OperandSound (c : Cursor) : Prop :=
  ∀ r, readOperand c = .ok r → ∃ ts, Expr.Phrase .sign ts r.value ∧ c.Passes ts r.next

/-- What a climb at a cursor adds to a phrase makes it a longer phrase.  The phrase must be loose
enough for the operator that stands there. -/
def ClimbSound (c : Cursor) : Prop :=
  ∀ q a r k ts, climb q a c = .ok r → Expr.Phrase k ts a → q ≤ k.power → c.Stops (k.power + 1) →
    ∃ k' us, q ≤ k'.power ∧ Expr.Phrase k' (ts ++ us) r.value ∧ c.Passes us r.next ∧
      r.next.Stops q

lemma aboveSound_of {c : Cursor} (hO : OperandSound c)
    (ihC : ∀ c' : Cursor, c'.rest.length < c.rest.length → ClimbSound c') : AboveSound c := by
  intro q r h hq
  rw [readAbove] at h
  split at h
  next => cases h
  next first hfirst =>
    split at h
    next => cases h
    next all hall =>
      cases h
      obtain ⟨ts, hphrase, hpass⟩ := hO first hfirst
      obtain ⟨k, us, hk, hp, hu, hstop⟩ := ihC first.next first.short q _ all .sign ts hall
        hphrase hq (fun op _ => Nat.lt_succ_of_lt op.leftPower_lt_minusPower)
      exact ⟨k, ts ++ us, hk, hp, hpass.trans hu, hstop⟩

/-- The two rules for a minus sign are the two cases of `negated`. -/
lemma Phrase.negated {t : Token} {ts : List Token} {e : Expr}
    (ht : t.kind = .operator (.arith .sub)) (h : Expr.Phrase .sign ts e) :
    Expr.Phrase .sign (t :: ts) (e.negated t.span) := by
  cases e with
  | number x s => exact .minusLiteral ht h
  | ident x s => exact .minus ht h rfl
  | string x s => exact .minus ht h rfl
  | binary op a b s => exact .minus ht h rfl

lemma operandSound_of {c : Cursor}
    (ih : ∀ c' : Cursor, c'.rest.length < c.rest.length → AboveSound c') : OperandSound c := by
  intro r h
  rw [readOperand.eq_def] at h
  split at h
  next last x s l k ts =>
    cases h
    exact ⟨_, .tighter .number, .token ..⟩
  next last x s l k ts =>
    cases h
    exact ⟨_, .tighter .string, .token ..⟩
  next last x s l k ts =>
    cases h
    exact ⟨_, .tighter .ident, .token ..⟩
  next last s l k ts =>
    split at h
    next => cases h
    next operand hoperand =>
      cases h
      obtain ⟨k', us, hk', hp, hu, -⟩ :=
        ih ⟨s, ts⟩ (Nat.lt_succ_self _) _ operand hoperand (Nat.le_refl _)
      exact ⟨⟨.operator (.arith .sub), s, l, k⟩ :: us, .negated rfl (hp.loosen hk'), hu.cons⟩
  next last s l k ts =>
    split at h
    next => cases h
    next inner hinner =>
      split at h
      next => cases h
      next close hclose =>
        cases h
        obtain ⟨k', us, -, hp, hu, -⟩ :=
          ih ⟨s, ts⟩ (Nat.lt_succ_self _) _ inner hinner (Nat.zero_le _)
        obtain ⟨u, hukind, hpass⟩ := Cursor.expect_sound hclose
        have hrel : Expr.Phrase .relation us inner.value := hp.loosen k'.one_le_power
        exact ⟨_, .tighter (.parens rfl hukind hrel), (hu.trans hpass).cons⟩
  next => cases h

lemma climbSound_of {c : Cursor}
    (ihA : ∀ c' : Cursor, c'.rest.length < c.rest.length → AboveSound c')
    (ihC : ∀ c' : Cursor, c'.rest.length < c.rest.length → ClimbSound c') : ClimbSound c := by
  intro q a r k ts h ha hk hc
  rw [climb.eq_def] at h
  split at h
  next last op s l k₀ rest =>
    split at h
    next hweak =>
      cases h
      refine ⟨k, [], hk, by rw [List.append_nil]; exact ha, .refl _, ?_⟩
      intro op' hop'
      cases hop'
      exact hweak
    next hstrong =>
      split at h
      next => cases h
      next right hright =>
        simp only at h
        split at h
        next => cases h
        next all hall =>
          cases h
          have hop : op.leftPower ≤ k.power := Nat.le_of_lt_succ (hc op rfl)
          obtain ⟨kr, us, hkr, hp, hu, hstop⟩ := ihA ⟨s, rest⟩ (Nat.lt_succ_self _) _ right
            hright op.leftPower_lt_minusPower
          have hjoined : Expr.Phrase op.level (ts ++ ⟨.operator op, s, l, k₀⟩ :: us)
              (.binary op a right.value (a.span.merge right.value.span)) :=
            .binary rfl (ha.loosen (op.power_level ▸ hop)) (hp.loosen_tighter hkr)
          -- what follows the right operand binds no tighter than the operator before it
          obtain ⟨k', vs, hk', hp', hv, hstop'⟩ := ihC right.next
            (Nat.lt_succ_of_lt right.short) q _ all op.level _ hall hjoined
            (op.power_level ▸ Nat.le_of_not_lt hstrong) (op.power_level ▸ hstop)
          refine ⟨k', ⟨.operator op, s, l, k₀⟩ :: us ++ vs, hk', ?_, (hu.trans hv).cons, hstop'⟩
          rw [← List.append_assoc]
          exact hp'
  next hnot =>
    cases h
    refine ⟨k, [], hk, by rw [List.append_nil]; exact ha, .refl _, ?_⟩
    intro op hop
    rw [Cursor.operator?] at hop
    split at hop
    next op' s l k₀ rest hrest => exact (hnot c.last op' s l k₀ rest (by rw [← hrest])).elim
    next => cases hop

/-- Everything that the three readers return is a phrase. -/
theorem sound (c : Cursor) : AboveSound c ∧ OperandSound c ∧ ClimbSound c := by
  induction c using Cursor.shorterInduction with
  | _ c ih =>
    have hO : OperandSound c := operandSound_of fun c' hc' => (ih c' hc').1
    refine ⟨aboveSound_of hO fun c' hc' => (ih c' hc').2.2, hO, ?_⟩
    exact climbSound_of (fun c' hc' => (ih c' hc').1) fun c' hc' => (ih c' hc').2.2

/-- An expression that was read is a phrase that no operator continues. -/
theorem read_sound {c : Cursor} {r : Reading c.rest.length Expr} (h : read c = .ok r) :
    ∃ ts, Expr.Phrase .relation ts r.value ∧ c.Passes ts r.next ∧ r.next.operator? = none := by
  obtain ⟨k, ts, -, hp, hpass, hstop⟩ := (sound c).1 0 r h (Nat.zero_le _)
  refine ⟨ts, hp.loosen k.one_le_power, hpass, ?_⟩
  cases hop : r.next.operator? with
  | none => rfl
  | some op => exact absurd (hstop op hop) (Nat.not_lt_zero _)

/-! ### Phrases are read -/

/-- What a reader of operands gives on a phrase of one of the two tightest levels. -/
def ReadsOperand (ts : List Token) (e : Expr) : Prop :=
  ∀ s rest, Reading.result (readOperand ⟨s, ts ++ rest⟩) = .ok (e, ⟨lastSpan s ts, rest⟩)

/-- The reader comes to the end of a phrase and climbs on from there. -/
def ReadsThrough (k : Level) (ts : List Token) (e : Expr) : Prop :=
  ∀ q s rest, q ≤ k.power → Cursor.Stops (k.power + 1) ⟨lastSpan s ts, rest⟩ →
    Reading.result (readAbove q ⟨s, ts ++ rest⟩) =
      Reading.result (climb q e ⟨lastSpan s ts, rest⟩)

lemma ReadsOperand.through {k : Level} {ts : List Token} {e : Expr} (h : ReadsOperand ts e) :
    ReadsThrough k ts e := by
  intro q s rest _ _
  rw [readAbove_result, h s rest]
  rfl

/-- A phrase at the front of a text is read to its end if nothing there goes on with it. -/
lemma ReadsThrough.stop {k : Level} {ts : List Token} {e : Expr} (h : ReadsThrough k ts e)
    {q : Nat} {s : Span} {rest : List Token} (hq : q ≤ k.power)
    (hstop : Cursor.Stops q ⟨lastSpan s ts, rest⟩) :
    Reading.result (readAbove q ⟨s, ts ++ rest⟩) = .ok (e, ⟨lastSpan s ts, rest⟩) := by
  rw [h q s rest hq fun op hop => Nat.lt_succ_of_lt (Nat.lt_of_lt_of_le (hstop op hop) hq)]
  exact climb_stop e hstop

lemma readsOperand_parens {t u : Token} {ts : List Token} {e : Expr} (ht : t.kind = .leftParen)
    (hu : u.kind = .rightParen) (h : ReadsThrough .relation ts e) :
    ReadsOperand (t :: ts ++ [u]) e := by
  intro s rest
  obtain ⟨kind, sp, l, k⟩ := t
  cases ht
  have hinner : Reading.result (readAbove 0 ⟨sp, ts ++ u :: rest⟩)
      = .ok (e, ⟨lastSpan sp ts, u :: rest⟩) := by
    refine h.stop (Nat.zero_le _) fun op hop => ?_
    obtain ⟨ukind, _, _, _⟩ := u
    cases hu
    cases hop
  rw [List.cons_append, List.cons_append, List.append_assoc, List.singleton_append,
    readOperand_leftParen, hinner]
  simp only [Except.bind, Cursor.expect_token hu, Except.map]
  simp

lemma readsOperand_minus {t : Token} {ts : List Token} {e : Expr}
    (ht : t.kind = .operator (.arith .sub)) (h : ReadsThrough .sign ts e) :
    ReadsOperand (t :: ts) (e.negated t.span) := by
  intro s rest
  obtain ⟨kind, sp, l, k⟩ := t
  cases ht
  have hoperand : Reading.result (readAbove minusPower ⟨sp, ts ++ rest⟩)
      = .ok (e, ⟨lastSpan sp ts, rest⟩) :=
    h.stop (Nat.le_refl _) fun op _ => op.leftPower_lt_minusPower
  rw [List.cons_append, readOperand_minus, hoperand]
  rfl

lemma readsThrough_binary {op : BinaryOp} {t : Token} {ts us : List Token} {a b : Expr}
    (ht : t.kind = .operator op) (ha : ReadsThrough op.level ts a)
    (hb : ReadsThrough op.level.tighter us b) :
    ReadsThrough op.level (ts ++ t :: us) (.binary op a b (a.span.merge b.span)) := by
  intro q s rest hq hstop
  obtain ⟨kind, sp, l, k⟩ := t
  cases ht
  have hright : Reading.result (readAbove op.rightPower ⟨sp, us ++ rest⟩)
      = .ok (b, ⟨lastSpan sp us, rest⟩) := by
    refine hb.stop op.rightPower_le_power_tighter ?_
    rw [lastSpan_append, op.power_level] at hstop
    exact hstop
  have hleft := ha q s (⟨.operator op, sp, l, k⟩ :: (us ++ rest)) hq fun op' hop' => by
    cases hop'
    exact Nat.lt_succ_of_le (Nat.le_of_eq op.power_level.symm)
  rw [List.append_assoc, List.cons_append, hleft,
    climb_join _ _ _ _ _ _ (op.power_level ▸ hq), hright, lastSpan_append]
  rfl

/-- A phrase is read: the two tightest levels by the reader of operands, every level by climbing. -/
theorem Phrase.reads {k : Level} {ts : List Token} {e : Expr} (h : Expr.Phrase k ts e) :
    ReadsThrough k ts e ∧ (Level.sign.power ≤ k.power → ReadsOperand ts e) := by
  induction h with
  | @number x sp l k =>
    have h : ReadsOperand [⟨.number x, sp, l, k⟩] (.number x sp) := by
      intro s rest
      rw [readOperand.eq_def]
      rfl
    exact ⟨h.through, fun _ => h⟩
  | @string x sp l k =>
    have h : ReadsOperand [⟨.string x, sp, l, k⟩] (.string x sp) := by
      intro s rest
      rw [readOperand.eq_def]
      rfl
    exact ⟨h.through, fun _ => h⟩
  | @ident x sp l k =>
    have h : ReadsOperand [⟨.ident x, sp, l, k⟩] (.ident x sp) := by
      intro s rest
      rw [readOperand.eq_def]
      rfl
    exact ⟨h.through, fun _ => h⟩
  | parens ht hu _ ih =>
    have h := readsOperand_parens ht hu ih.1
    exact ⟨h.through, fun _ => h⟩
  | minusLiteral ht _ ih =>
    have h := readsOperand_minus ht ih.1
    exact ⟨h.through, fun _ => h⟩
  | @minus t ts e ht _ he ih =>
    have h := readsOperand_minus ht ih.1
    rw [negated_of_constant?_none he] at h
    exact ⟨h.through, fun _ => h⟩
  | @binary op t ts us a b ht _ _ iha ihb =>
    refine ⟨readsThrough_binary ht iha.1 ihb.1, fun hk => ?_⟩
    rw [op.power_level] at hk
    exact absurd op.leftPower_lt_minusPower (Nat.not_lt.mpr hk)
  | @tighter k ts e _ ih =>
    refine ⟨?_, fun hk => ih.2 (Nat.le_trans hk k.power_le_power_tighter)⟩
    intro q s rest hq hstop
    refine ih.1 q s rest (Nat.le_trans hq k.power_le_power_tighter) fun op hop => ?_
    exact Nat.lt_of_lt_of_le (hstop op hop) (Nat.succ_le_succ k.power_le_power_tighter)

/-- A phrase that no operator continues is read to its end. -/
theorem Phrase.read {ts : List Token} {e : Expr} (h : Expr.Phrase .relation ts e) (s : Span)
    {rest : List Token} (hrest : Cursor.operator? ⟨lastSpan s ts, rest⟩ = none) :
    Reading.result (Expr.read ⟨s, ts ++ rest⟩) = .ok (e, ⟨lastSpan s ts, rest⟩) := by
  refine h.reads.1.stop (Nat.zero_le _) fun op hop => ?_
  rw [hrest] at hop
  cases hop

end Expr

/-! ### Expressions at a cursor -/

/-- The cursor after the next `k` tokens. -/
def Cursor.advance (c : Cursor) (k : Nat) : Cursor :=
  ⟨lastSpan c.last (c.rest.take k), c.rest.drop k⟩

/-- What passes over some tokens is the cursor after as many tokens. -/
lemma Cursor.Passes.eq_advance {c c' : Cursor} {ts : List Token} (h : c.Passes ts c') :
    ts = c.rest.take ts.length ∧ c' = c.advance ts.length := by
  have htake : c.rest.take ts.length = ts := by rw [h.rest, List.take_left]
  have hdrop : c.rest.drop ts.length = c'.rest := by rw [h.rest, List.drop_left]
  refine ⟨htake.symm, ?_⟩
  rw [advance, htake, hdrop, ← h.last]

namespace Expr

/-- The next `k` tokens at a cursor write an expression, and no operator follows them. -/
structure Derives (c : Cursor) (k : Nat) (e : Expr) : Prop where
  enough : k ≤ c.rest.length
  phrase : Expr.Phrase .relation (c.rest.take k) e
  stop : (c.advance k).operator? = none

/-- An expression that was read is derived from the tokens that were passed. -/
lemma derives_of_read {c : Cursor} {r : Reading c.rest.length Expr} (h : read c = .ok r) :
    ∃ k, Derives c k r.value ∧ r.next = c.advance k := by
  obtain ⟨ts, hphrase, hpass, hstop⟩ := read_sound h
  obtain ⟨htake, hnext⟩ := hpass.eq_advance
  refine ⟨ts.length, ⟨?_, htake ▸ hphrase, hnext ▸ hstop⟩, hnext⟩
  rw [hpass.rest, List.length_append]
  exact Nat.le_add_right ..

/-- What the next tokens derive is read. -/
lemma Derives.read {c : Cursor} {k : Nat} {e : Expr} (h : Derives c k e) :
    Reading.result (Expr.read c) = .ok (e, c.advance k) := by
  have hread := h.phrase.read c.last h.stop
  rwa [List.take_append_drop] at hread

/-- At most one expression is derived at a cursor, from one number of tokens. -/
lemma Derives.unique {c : Cursor} {k k' : Nat} {e e' : Expr} (h : Derives c k e)
    (h' : Derives c k' e') : k = k' ∧ e = e' := by
  have hread := h.read.symm.trans h'.read
  injection hread with hread
  injection hread with he hcursor
  injection hcursor with _ hdrop
  have hlength := congrArg List.length hdrop
  rw [List.length_drop, List.length_drop] at hlength
  have hk := h.enough
  have hk' := h'.enough
  exact ⟨by omega, he⟩

/-- **Climbing and the grammar.**  At every cursor, an expression is read from the next `k` tokens
exactly if the levels of the grammar derive it from them and no operator follows.  There is at most
one such expression, and if there is none the reader fails. -/
theorem read_eq_ok_iff_derives (c : Cursor) :
    (∀ k e, k ≤ c.rest.length ∧ Reading.result (read c) = .ok (e, c.advance k) ↔
      Derives c k e) ∧
    (∀ k e k' e', Derives c k e → Derives c k' e' → k = k' ∧ e = e') ∧
    ((∃ err, read c = .error err) ↔ ∀ k e, ¬ Derives c k e) := by
  refine ⟨fun k e => ⟨?_, fun h => ⟨h.enough, h.read⟩⟩, fun k e k' e' => Derives.unique, ?_, ?_⟩
  · rintro ⟨hk, h⟩
    obtain ⟨r, hr, rfl, hnext⟩ := Reading.result_eq_ok.mp h
    obtain ⟨k', hderives, hnext'⟩ := derives_of_read hr
    have hlength := congrArg (fun c => c.rest.length) (hnext.symm.trans hnext')
    simp only [Cursor.advance, List.length_drop] at hlength
    have hk' := hderives.enough
    obtain rfl : k = k' := by omega
    exact hderives
  · rintro ⟨err, herror⟩ k e h
    have hread := h.read
    rw [herror] at hread
    cases hread
  · intro hnone
    cases hread : read c with
    | error err => exact ⟨err, rfl⟩
    | ok r =>
      obtain ⟨k, hderives, -⟩ := derives_of_read hread
      exact absurd hderives (hnone k r.value)

/-- In `(A)-1--B THEN` the eight tokens before `THEN` are read, from the left, and the last minus
is a sign. -/
theorem differenceCursor_derives :
    let c : Cursor :=
      ⟨⟨3, 5⟩, [⟨.leftParen, ⟨6, 7⟩, 1, 7⟩, ⟨.ident "A", ⟨7, 8⟩, 1, 8⟩, ⟨.rightParen, ⟨8, 9⟩, 1, 9⟩,
        ⟨.operator (.arith .sub), ⟨9, 10⟩, 1, 10⟩, ⟨.number 1, ⟨10, 11⟩, 1, 11⟩,
        ⟨.operator (.arith .sub), ⟨11, 12⟩, 1, 12⟩, ⟨.operator (.arith .sub), ⟨12, 13⟩, 1, 13⟩,
        ⟨.ident "B", ⟨13, 14⟩, 1, 14⟩, ⟨.keyword .thenKw, ⟨15, 19⟩, 1, 16⟩]⟩
    let e : Expr := .binary (.arith .sub)
      (.binary (.arith .sub) (.ident "A" ⟨7, 8⟩) (.number 1 ⟨10, 11⟩) ⟨7, 11⟩)
      (.binary (.arith .sub) (.number 0 ⟨12, 13⟩) (.ident "B" ⟨13, 14⟩) ⟨12, 14⟩) ⟨7, 14⟩
    Derives c 8 e ∧ ∀ k e', Derives c k e' → k = 8 ∧ e' = e := by
  intro c e
  obtain ⟨hiff, hunique, -⟩ := read_eq_ok_iff_derives c
  have hread : (Reading.result (read c)).toOption = some (e, c.advance 8) := by decide +kernel
  have hderives : Derives c 8 e := by
    refine (hiff 8 e).mp ⟨by decide, ?_⟩
    cases hresult : Reading.result (read c) with
    | error err =>
      rw [hresult] at hread
      cases hread
    | ok y =>
      rw [hresult] at hread
      rw [Option.some.inj hread]
  exact ⟨hderives, fun k e' h => hunique k e' 8 e h hderives⟩

end Expr

end LineBasic
