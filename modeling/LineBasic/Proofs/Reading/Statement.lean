import LineBasic.Proofs.Reading.Expr
import LineBasic.Reading.Statement

/-!
# Reading statements by the grammar

* `Cursor.AtFollow`: what can come after a statement: the end of a line, or `ELSE`;
* `Statement.readSound`: a statement that was read is a phrase, and if it is open then no `ELSE`
  follows it;
* `Statement.Phrase.reads`: a phrase at the front of a text is read to its end, if what follows
  can come after a statement and is no `ELSE` that the phrase would take in.
-/

namespace LineBasic

namespace Cursor

/-- The end of the line or an `ELSE` stands at the cursor. -/
def AtFollow (c : Cursor) : Prop := c.atLineEnd = true ∨ c.kind? = some (.keyword .elseKw)

/-- An `ELSE` stands at the cursor. -/
def AtElse (c : Cursor) : Prop := c.kind? = some (.keyword .elseKw)

lemma AtFollow.kind {c : Cursor} (h : c.AtFollow) :
    c.kind? = none ∨ c.kind? = some .newline ∨ c.kind? = some (.keyword .elseKw) := by
  rw [AtFollow, atLineEnd] at h
  simpa [or_assoc] using h

lemma AtFollow.operator? {c : Cursor} (h : c.AtFollow) : c.operator? = none := by
  rw [Cursor.operator?]
  split
  next op s l k ts hrest =>
    have hk := h.kind
    rw [kind?, hrest] at hk
    simp at hk
  next => rfl

lemma kind?_passes_token {c c' : Cursor} {t : Token} {ts : List Token}
    (h : c.Passes (t :: ts) c') : c.kind? = some t.kind := by
  rw [kind?, h.rest]
  rfl

/-! ### Words and names -/

/-- The cursor after a token of a given kind, if one stands here. -/
def skip? (c : Cursor) (kind : Kind) : Option Cursor := (c.accept? kind).map Reading.next

lemma skip?_token {t : Token} {kind : Kind} (ht : t.kind = kind) (s : Span) (ts : List Token) :
    skip? ⟨s, t :: ts⟩ kind = some ⟨t.span, ts⟩ := by
  obtain ⟨w, hw, -, hnext⟩ := Reading.result_eq_ok.mp (expect_token ht s ts)
  rw [skip?, accept?, hw]
  exact congrArg some hnext

lemma skip?_sound {c c' : Cursor} {kind : Kind} (h : c.skip? kind = some c') :
    ∃ t, t.kind = kind ∧ c.Passes [t] c' := by
  obtain ⟨w, hw, rfl⟩ := Option.map_eq_some_iff.mp h
  rw [accept?] at hw
  cases he : c.expect kind with
  | error e =>
    rw [he] at hw
    cases hw
  | ok r =>
    rw [he] at hw
    cases hw
    exact expect_sound he

lemma skip?_eq_none_iff {c : Cursor} {kind : Kind} :
    c.skip? kind = none ↔ c.kind? ≠ some kind := by
  constructor
  · intro h hk
    obtain ⟨last, rest⟩ := c
    cases rest with
    | nil => cases hk
    | cons t ts =>
      rw [skip?_token (Option.some.inj hk)] at h
      cases h
  · intro h
    cases hs : c.skip? kind with
    | none => rfl
    | some c' =>
      obtain ⟨t, ht, hpass⟩ := skip?_sound hs
      exact absurd (ht ▸ kind?_passes_token hpass) h

lemma ident_sound {c : Cursor} {r : Reading c.rest.length String} (h : c.ident = .ok r) :
    ∃ t, t.kind = .ident r.value ∧ c.Passes [t] r.next := by
  rw [ident.eq_def] at h
  split at h
  next last name s l k ts =>
    cases h
    exact ⟨⟨.ident name, s, l, k⟩, rfl, .token ..⟩
  next => cases h

lemma ident_token {t : Token} {n : String} (ht : t.kind = .ident n) (s : Span)
    (ts : List Token) : Reading.result (ident ⟨s, t :: ts⟩) = .ok (n, ⟨t.span, ts⟩) := by
  obtain ⟨kind, sp, l, k⟩ := t
  cases ht
  rfl

lemma names_result (c : Cursor) :
    Reading.result c.names = (Reading.result c.ident).bind fun x =>
      match x.2.skip? .comma with
      | none => .ok ([x.1], x.2)
      | some c' => (Reading.result c'.names).map fun y => (x.1 :: y.1, y.2) := by
  rw [names]
  cases c.ident with
  | error e => rfl
  | ok first =>
    simp only [Reading.result, Except.map, Except.bind, skip?]
    cases first.next.accept? .comma with
    | none => rfl
    | some comma =>
      simp only [Option.map_some]
      cases names comma.next <;> rfl

lemma names_sound (c : Cursor) : ∀ r, c.names = .ok r →
    ∃ ts, NamesPhrase ts r.value ∧ c.Passes ts r.next := by
  induction c using Cursor.shorterInduction with
  | _ c ih =>
    intro r h
    rw [names] at h
    split at h
    next => cases h
    next first hfirst =>
      obtain ⟨t, ht, hpass⟩ := ident_sound hfirst
      split at h
      next =>
        cases h
        exact ⟨[t], .one ht, hpass⟩
      next comma hcomma =>
        have hskip : first.next.skip? .comma = some comma.next := by rw [skip?, hcomma]; rfl
        obtain ⟨u, hu, hpass'⟩ := skip?_sound hskip
        split at h
        next => cases h
        next more hmore =>
          cases h
          obtain ⟨ts, hts, hpass''⟩ :=
            ih comma.next (Nat.lt_trans comma.short first.short) more hmore
          exact ⟨t :: u :: ts, .more ht hu hts, hpass.trans (hpass'.trans hpass'')⟩

end Cursor

/-- Names are read to their end if no comma follows. -/
lemma NamesPhrase.read {ts : List Token} {ns : List String} (h : NamesPhrase ts ns) :
    ∀ s rest, Cursor.kind? ⟨lastSpan s ts, rest⟩ ≠ some .comma →
      Reading.result (Cursor.names ⟨s, ts ++ rest⟩) = .ok (ns, ⟨lastSpan s ts, rest⟩) := by
  induction h with
  | @one t n ht =>
    intro s rest hrest
    have hskip : Cursor.skip? ⟨t.span, rest⟩ .comma = none := Cursor.skip?_eq_none_iff.mpr hrest
    rw [Cursor.names_result, List.singleton_append, Cursor.ident_token ht]
    simp only [Except.bind, hskip]
    rfl
  | @more t u n ts ns ht hu _ ih =>
    intro s rest hrest
    rw [Cursor.names_result, List.cons_append, Cursor.ident_token ht]
    simp only [Except.bind, List.cons_append, Cursor.skip?_token hu, ih u.span rest hrest]
    rfl

/-- No expression starts where a statement can end. -/
lemma Expr.Phrase.not_atFollow {k : Level} {ts : List Token} {e : Expr} (h : Expr.Phrase k ts e)
    (s : Span) (rest : List Token) : ¬ Cursor.AtFollow ⟨s, ts ++ rest⟩ := by
  intro hfollow
  have hkind := hfollow.kind
  clear hfollow
  induction h generalizing rest with
  | number => simp [Cursor.kind?] at hkind
  | string => simp [Cursor.kind?] at hkind
  | ident => simp [Cursor.kind?] at hkind
  | parens ht => simp [Cursor.kind?, ht] at hkind
  | minusLiteral ht => simp [Cursor.kind?, ht] at hkind
  | minus ht => simp [Cursor.kind?, ht] at hkind
  | binary _ _ _ iha =>
    rw [List.append_assoc] at hkind
    exact iha _ hkind
  | tighter _ ih => exact ih rest hkind

namespace Statement

/-! ### What is read is a phrase -/

lemma readAssign_sound {c : Cursor} {r : Reading c.rest.length Statement}
    (h : readAssign c = .ok r) : ∃ ts, Assignment ts r.value ∧ c.Passes ts r.next := by
  rw [readAssign] at h
  split at h
  next => cases h
  next name hname =>
    split at h
    next => cases h
    next sign hsign =>
      split at h
      next => cases h
      next value hvalue =>
        cases h
        obtain ⟨t, ht, hpass⟩ := Cursor.ident_sound hname
        obtain ⟨u, hu, hpass'⟩ := Cursor.expect_sound hsign
        obtain ⟨ts, hts, hpass'', -⟩ := Expr.read_sound hvalue
        refine ⟨t :: u :: ts, ?_, hpass.trans (hpass'.trans hpass'')⟩
        have hspan : c.span = t.span := by rw [Cursor.span, hpass.rest]; rfl
        rw [hspan]
        exact .intro ht hu hts

lemma readPrint_sound {w : Token} {us : List Token}
    {r : Reading (us.length + 1) Statement} (hw : w.kind = .keyword .print)
    (h : readPrint w.span ⟨w.span, us⟩ = .ok r) :
    ∃ ts, Phrase .line (w :: ts) r.value ∧ Cursor.Passes ⟨w.span, us⟩ ts r.next ∧
      r.value.isOpen = false := by
  rw [readPrint] at h
  split at h
  next =>
    cases h
    refine ⟨[], ?_, .refl _, rfl⟩
    rw [Span.merge_self]
    exact .printBlank hw
  next =>
    split at h
    next => cases h
    next item hitem =>
      cases h
      obtain ⟨ts, hts, hpass, -⟩ := Expr.read_sound hitem
      refine ⟨ts, ?_, hpass, rfl⟩
      rw [hpass.last]
      exact .print hw hts

/-- What a jump is made of.  The two jumps differ in their keyword and their constructor. -/
lemma readJump_sound {jump : Expr → Span → Statement} {s : Span} {c : Cursor}
    {r : Reading (c.rest.length + 1) Statement} (h : readJump jump s c = .ok r) :
    ∃ ts e, Expr.Phrase .relation ts e ∧ r.value = jump e (s.merge e.span) ∧
      c.Passes ts r.next := by
  rw [readJump] at h
  split at h
  next => cases h
  next target htarget =>
    cases h
    obtain ⟨ts, hts, hpass, -⟩ := Expr.read_sound htarget
    exact ⟨ts, target.value, hts, rfl, hpass⟩

lemma readInput_sound {w : Token} {us : List Token}
    {r : Reading (us.length + 1) Statement} (hw : w.kind = .keyword .input)
    (h : readInput w.span ⟨w.span, us⟩ = .ok r) :
    ∃ ts, Phrase .line (w :: ts) r.value ∧ Cursor.Passes ⟨w.span, us⟩ ts r.next ∧
      r.value.isOpen = false := by
  rw [readInput] at h
  split at h
  next => cases h
  next names hnames =>
    cases h
    obtain ⟨ts, hts, hpass⟩ := Cursor.names_sound _ _ hnames
    refine ⟨ts, ?_, hpass, rfl⟩
    rw [hpass.last]
    exact .input hw hts

lemma readCondition_sound {c : Cursor} {r : Reading c.rest.length Expr}
    (h : readCondition c = .ok r) :
    ∃ ts u, Expr.Phrase .relation ts r.value ∧ u.kind = .keyword .thenKw ∧
      c.Passes (ts ++ [u]) r.next := by
  rw [readCondition] at h
  split at h
  next => cases h
  next condition hcondition =>
    split at h
    next => cases h
    next word hword =>
      cases h
      obtain ⟨ts, hts, hpass, -⟩ := Expr.read_sound hcondition
      obtain ⟨u, hu, hpass'⟩ := Cursor.expect_sound hword
      exact ⟨ts, u, hts, hu, hpass.trans hpass'⟩

/-- Reads what can stand at a place. -/
def readAt : Place → (c : Cursor) → Except ParseError (Reading c.rest.length Statement)
  | .line, c => read c
  | .branch, c => readBranch c

/-- What is read at a cursor is a phrase that no `ELSE` continues. -/
def ReadSound (place : Place) (c : Cursor) : Prop :=
  ∀ r, readAt place c = .ok r →
    ∃ ts, Phrase place ts r.value ∧ c.Passes ts r.next ∧
      (r.value.isOpen = true → ¬ r.next.AtElse)

lemma readSound_branch {c : Cursor} (h : ReadSound .line c) : ReadSound .branch c := by
  intro r hr
  rw [readAt, readBranch.eq_def] at hr
  split at hr
  next last x s l k ts =>
    cases hr
    exact ⟨_, .jump, .token .., fun h => by cases h⟩
  next =>
    obtain ⟨ts, hts, hpass, helse⟩ := h r hr
    exact ⟨ts, .branch hts, hpass, helse⟩

lemma Assignment.isOpen {ts : List Token} {s : Statement} (h : Assignment ts s) :
    s.isOpen = false := by
  cases h with
  | intro => rfl

/-- A conditional whose branch ends at `c'` and is followed by no `ELSE`. -/
lemma ifThen_sound {w u : Token} {ts us vs : List Token} {last : Span} {c' : Cursor} {e : Expr}
    {a : Statement} (hw : w.kind = .keyword .ifKw) (he : Expr.Phrase .relation us e)
    (hu : u.kind = .keyword .thenKw) (ha : Phrase .branch vs a)
    (hpass : Cursor.Passes ⟨w.span, ts⟩ (us ++ u :: vs) c') (helse : ¬ c'.AtElse) :
    ∃ ts', Phrase .line ts' (.ifThen e a (w.span.merge c'.last)) ∧
      Cursor.Passes ⟨last, w :: ts⟩ ts' c' ∧
        ((Statement.ifThen e a (w.span.merge c'.last)).isOpen = true → ¬ c'.AtElse) := by
  have hlast : c'.last = lastSpan u.span vs := by
    rw [hpass.last, lastSpan_append]
    rfl
  refine ⟨w :: us ++ u :: vs, ?_, hpass.cons, fun _ => helse⟩
  rw [hlast]
  exact .ifThen hw he hu ha

/-- A conditional whose first branch ends at `c'`, before an `ELSE`, and whose second branch ends
at `c''`. -/
lemma ifThenElse_sound {w u v : Token} {ts us vs ws : List Token} {last : Span}
    {c' c₁ c'' : Cursor} {e : Expr} {a b : Statement} (hw : w.kind = .keyword .ifKw)
    (he : Expr.Phrase .relation us e) (hu : u.kind = .keyword .thenKw) (ha : Phrase .branch vs a)
    (hpass : Cursor.Passes ⟨w.span, ts⟩ (us ++ u :: vs) c')
    (hopen : a.isOpen = true → ¬ c'.AtElse) (hv : v.kind = .keyword .elseKw)
    (hword : c'.Passes [v] c₁) (hb : Phrase .branch ws b) (hpass' : c₁.Passes ws c'')
    (helse : b.isOpen = true → ¬ c''.AtElse) :
    ∃ ts', Phrase .line ts' (.ifThenElse e a b (w.span.merge c''.last)) ∧
      Cursor.Passes ⟨last, w :: ts⟩ ts' c'' ∧
        ((Statement.ifThenElse e a b (w.span.merge c''.last)).isOpen = true → ¬ c''.AtElse) := by
  have hboth := hpass.trans (hword.trans hpass')
  have hlast : c''.last = lastSpan v.span ws := by
    rw [hboth.last, lastSpan_append]
    rfl
  -- an open first branch would have taken the `ELSE` in
  have hclosed : a.isOpen = false := by
    refine Bool.eq_false_iff.mpr fun h => hopen h ?_
    exact (Cursor.kind?_passes_token hword).trans (congrArg some hv)
  refine ⟨w :: us ++ u :: vs ++ v :: ws, ?_, hboth.cons, helse⟩
  rw [hlast]
  exact .ifThenElse hw he hu ha hclosed hv hb

lemma readSound_line {c : Cursor}
    (ih : ∀ c' : Cursor, c'.rest.length < c.rest.length → ReadSound .branch c') :
    ReadSound .line c := by
  intro r h
  rw [readAt, read.eq_def] at h
  split at h
  next last s l k ts =>
    split at h
    next => cases h
    next assign hassign =>
      cases h
      obtain ⟨us, hus, hpass⟩ := readAssign_sound hassign
      refine ⟨⟨.keyword .letKw, s, l, k⟩ :: us, .letAssign rfl hus, hpass.cons, ?_⟩
      intro hopen
      exact absurd hopen (Bool.eq_false_iff.mp hus.isOpen)
  next last name s l k ts =>
    obtain ⟨us, hus, hpass⟩ := readAssign_sound h
    refine ⟨us, .assign hus, hpass, ?_⟩
    intro hopen
    exact absurd hopen (Bool.eq_false_iff.mp hus.isOpen)
  next last s l k ts =>
    obtain ⟨us, hus, hpass, hclosed⟩ := readPrint_sound (w := ⟨.keyword .print, s, l, k⟩) rfl h
    exact ⟨_, hus, hpass.cons, fun hopen => absurd hopen (Bool.eq_false_iff.mp hclosed)⟩
  next last s l k ts =>
    obtain ⟨us, e, he, hv, hpass⟩ := readJump_sound h
    rw [hv]
    exact ⟨⟨.keyword .goto, s, l, k⟩ :: us, .goto rfl he, hpass.cons, fun hopen => by cases hopen⟩
  next last s l k ts =>
    obtain ⟨us, e, he, hv, hpass⟩ := readJump_sound h
    rw [hv]
    exact ⟨⟨.keyword .gosub, s, l, k⟩ :: us, .gosub rfl he, hpass.cons, fun hopen => by cases hopen⟩
  next last s l k ts =>
    cases h
    exact ⟨[⟨.keyword .returnKw, s, l, k⟩], .ret rfl, .token .., fun hopen => by cases hopen⟩
  next last s l k ts =>
    obtain ⟨us, hus, hpass, hclosed⟩ := readInput_sound (w := ⟨.keyword .input, s, l, k⟩) rfl h
    exact ⟨_, hus, hpass.cons, fun hopen => absurd hopen (Bool.eq_false_iff.mp hclosed)⟩
  next last s l k ts =>
    cases h
    exact ⟨[⟨.keyword .endKw, s, l, k⟩], .halt rfl, .token .., fun hopen => by cases hopen⟩
  next last s l k ts =>
    split at h
    next => cases h
    next condition hcondition =>
      split at h
      next => cases h
      next yes hyes =>
        obtain ⟨us, u, hus, hu, hpass⟩ := readCondition_sound hcondition
        obtain ⟨vs, hvs, hpass', helse⟩ :=
          ih condition.next (Nat.lt_succ_of_lt condition.short) yes hyes
        have hyesPass : Cursor.Passes ⟨s, ts⟩ (us ++ u :: vs) yes.next := by
          have := hpass.trans hpass'
          rwa [List.append_assoc, List.singleton_append] at this
        split at h
        next hnone =>
          cases h
          have hnoElse : ¬ yes.next.AtElse := by
            apply Cursor.skip?_eq_none_iff.mp
            rw [Cursor.skip?, hnone]
            rfl
          exact ifThen_sound (w := ⟨.keyword .ifKw, s, l, k⟩) rfl hus hu hvs hyesPass hnoElse
        next word hword =>
          split at h
          next => cases h
          next no hno =>
            cases h
            have hskip : yes.next.skip? (.keyword .elseKw) = some word.next := by
              rw [Cursor.skip?, hword]
              rfl
            obtain ⟨v, hv, hpass''⟩ := Cursor.skip?_sound hskip
            have hshort := Nat.lt_trans word.short (Nat.lt_trans yes.short condition.short)
            obtain ⟨ws, hws, hpass₃, helse'⟩ := ih word.next (Nat.lt_succ_of_lt hshort) no hno
            exact ifThenElse_sound (w := ⟨.keyword .ifKw, s, l, k⟩) rfl hus hu hvs hyesPass helse
              hv hpass'' hws hpass₃ helse'
  next => cases h

/-- Everything that the readers of statements return is a phrase. -/
theorem readSound (c : Cursor) (place : Place) : ReadSound place c := by
  induction c using Cursor.shorterInduction generalizing place with
  | _ c ih =>
    have hline : ReadSound .line c := readSound_line fun c' hc' => ih c' hc' .branch
    cases place with
    | line => exact hline
    | branch => exact readSound_branch hline

/-! ### Phrases are read -/

lemma readIf_result (last s : Span) (l k : Nat) (ts : List Token) :
    Reading.result (read ⟨last, ⟨.keyword .ifKw, s, l, k⟩ :: ts⟩) =
      (Reading.result (readCondition ⟨s, ts⟩)).bind fun c =>
        (Reading.result (readBranch c.2)).bind fun yes =>
          match yes.2.skip? (.keyword .elseKw) with
          | none => .ok (.ifThen c.1 yes.1 (s.merge yes.2.last), yes.2)
          | some c' => (Reading.result (readBranch c')).map fun no =>
            (.ifThenElse c.1 yes.1 no.1 (s.merge no.2.last), no.2) := by
  rw [read.eq_def]
  simp only
  cases readCondition ⟨s, ts⟩ with
  | error e => rfl
  | ok c =>
    simp only [Reading.result, Except.map, Except.bind]
    cases readBranch c.next with
    | error e => rfl
    | ok yes =>
      simp only [Cursor.skip?]
      cases yes.next.accept? (.keyword .elseKw) with
      | none => rfl
      | some word =>
        simp only [Option.map_some]
        cases readBranch word.next <;> rfl

lemma readAssign_result (c : Cursor) :
    Reading.result (readAssign c) =
      (Reading.result c.ident).bind fun name =>
        (Reading.result (name.2.expect (.operator (.rel .eq)))).bind fun sign =>
          (Reading.result (Expr.read sign.2)).map fun value =>
            (.assign name.1 value.1 (c.span.merge value.1.span), value.2) := by
  rw [readAssign]
  cases c.ident with
  | error e => rfl
  | ok name =>
    simp only [Reading.result, Except.map, Except.bind]
    cases name.next.expect (.operator (.rel .eq)) with
    | error e => rfl
    | ok sign =>
      simp only
      cases Expr.read sign.next <;> rfl

lemma readCondition_result (c : Cursor) :
    Reading.result (readCondition c) =
      (Reading.result (Expr.read c)).bind fun x =>
        (Reading.result (x.2.expect (.keyword .thenKw))).map fun y => (x.1, y.2) := by
  rw [readCondition]
  cases Expr.read c with
  | error e => rfl
  | ok x =>
    simp only [Reading.result, Except.map, Except.bind]
    cases x.next.expect (.keyword .thenKw) <;> rfl

lemma readJump_result (jump : Expr → Span → Statement) (s : Span) (c : Cursor) :
    Reading.result (readJump jump s c) =
      (Reading.result (Expr.read c)).map fun x => (jump x.1 (s.merge x.1.span), x.2) := by
  rw [readJump]
  cases Expr.read c <;> rfl

lemma readInput_result (s : Span) (c : Cursor) :
    Reading.result (readInput s c) =
      (Reading.result c.names).map fun x => (.input x.1 (s.merge x.2.last), x.2) := by
  rw [readInput]
  cases c.names <;> rfl

lemma Assignment.read {ts : List Token} {st : Statement} (h : Assignment ts st) (s : Span)
    {rest : List Token} (hrest : Cursor.operator? ⟨lastSpan s ts, rest⟩ = none) :
    Reading.result (readAssign ⟨s, ts ++ rest⟩) = .ok (st, ⟨lastSpan s ts, rest⟩) := by
  obtain @⟨t, u, ts, n, e, ht, hu, he⟩ := h
  rw [readAssign_result, List.cons_append, Cursor.ident_token ht]
  simp only [Except.bind, List.cons_append, Cursor.expect_token hu, he.read u.span hrest]
  rfl

lemma readCondition_phrase {ts : List Token} {e : Expr} {u : Token}
    (h : Expr.Phrase .relation ts e) (hu : u.kind = .keyword .thenKw) (s : Span)
    (rest : List Token) :
    Reading.result (readCondition ⟨s, ts ++ u :: rest⟩) = .ok (e, ⟨u.span, rest⟩) := by
  have hstop : Cursor.operator? ⟨lastSpan s ts, u :: rest⟩ = none := by
    obtain ⟨kind, _, _, _⟩ := u
    cases hu
    rfl
  rw [readCondition_result, h.read s hstop]
  simp only [Except.bind, Cursor.expect_token hu]
  rfl

lemma read_let (last s : Span) (l k : Nat) (ts : List Token) :
    Reading.result (read ⟨last, ⟨.keyword .letKw, s, l, k⟩ :: ts⟩) =
      Reading.result (readAssign ⟨s, ts⟩) := by
  rw [read.eq_def]
  simp only
  cases readAssign ⟨s, ts⟩ <;> rfl

lemma read_assign {ts : List Token} {st : Statement} (h : Assignment ts st) (s : Span)
    (rest : List Token) :
    Reading.result (read ⟨s, ts ++ rest⟩) = Reading.result (readAssign ⟨s, ts ++ rest⟩) := by
  obtain @⟨t, u, ts, n, e, ht, hu, he⟩ := h
  obtain ⟨kind, sp, l, k⟩ := t
  cases ht
  rw [List.cons_append, read.eq_def]

lemma readBranch_of_kind {c : Cursor} (h : ∀ x, c.kind? ≠ some (.number x)) :
    readBranch c = read c := by
  rw [readBranch.eq_def]
  split
  next last x s l k ts => exact absurd rfl (h x)
  next => rfl

/-- A statement starts with a word, so as a branch it is no bare number. -/
lemma Phrase.kind?_ne_number {ts : List Token} {st : Statement} (h : Phrase .line ts st)
    (s : Span) (rest : List Token) (x : Number) :
    Cursor.kind? ⟨s, ts ++ rest⟩ ≠ some (.number x) := by
  cases h with
  | assign h =>
    obtain @⟨t, u, ts, n, e, ht, hu, he⟩ := h
    simp [Cursor.kind?, ht]
  | letAssign hw _ => simp [Cursor.kind?, hw]
  | printBlank hw => simp [Cursor.kind?, hw]
  | print hw _ => simp [Cursor.kind?, hw]
  | ifThen hw => simp [Cursor.kind?, hw]
  | ifThenElse hw => simp [Cursor.kind?, hw]
  | goto hw _ => simp [Cursor.kind?, hw]
  | gosub hw _ => simp [Cursor.kind?, hw]
  | ret hw => simp [Cursor.kind?, hw]
  | input hw _ => simp [Cursor.kind?, hw]
  | halt hw => simp [Cursor.kind?, hw]

/-- A phrase that can end here is read to its end. -/
def Reads (place : Place) (ts : List Token) (st : Statement) : Prop :=
  ∀ s rest, Cursor.AtFollow ⟨lastSpan s ts, rest⟩ →
    (st.isOpen = true → ¬ Cursor.AtElse ⟨lastSpan s ts, rest⟩) →
    Reading.result (readAt place ⟨s, ts ++ rest⟩) = .ok (st, ⟨lastSpan s ts, rest⟩)

lemma reads_ifThen {w u : Token} {ts us : List Token} {c : Expr} {b : Statement}
    (hw : w.kind = .keyword .ifKw) (hc : Expr.Phrase .relation ts c)
    (hu : u.kind = .keyword .thenKw) (hb : Reads .branch us b) :
    Reads .line (w :: ts ++ u :: us) (.ifThen c b (w.span.merge (lastSpan u.span us))) := by
  intro s rest hfollow helse
  obtain ⟨kind, sp, l, k⟩ := w
  cases hw
  rw [lastSpan_append, lastSpan_cons] at hfollow helse ⊢
  have hbranch : Reading.result (readBranch ⟨u.span, us ++ rest⟩)
      = .ok (b, ⟨lastSpan u.span us, rest⟩) := hb u.span rest hfollow fun _ => helse rfl
  have hskip : Cursor.skip? ⟨lastSpan u.span us, rest⟩ (.keyword .elseKw) = none :=
    Cursor.skip?_eq_none_iff.mpr (helse rfl)
  rw [readAt, List.append_assoc, List.cons_append, List.cons_append, readIf_result,
    readCondition_phrase hc hu]
  simp only [Except.bind, hbranch, hskip]

lemma reads_ifThenElse {w u v : Token} {ts us vs : List Token} {c : Expr} {a b : Statement}
    (hw : w.kind = .keyword .ifKw) (hc : Expr.Phrase .relation ts c)
    (hu : u.kind = .keyword .thenKw) (ha : Reads .branch us a) (closed : a.isOpen = false)
    (hv : v.kind = .keyword .elseKw) (hb : Reads .branch vs b) :
    Reads .line (w :: ts ++ u :: us ++ v :: vs)
      (.ifThenElse c a b (w.span.merge (lastSpan v.span vs))) := by
  intro s rest hfollow helse
  obtain ⟨kind, sp, l, k⟩ := w
  cases hw
  rw [lastSpan_append, lastSpan_cons] at hfollow helse ⊢
  have hyes : Reading.result (readBranch ⟨u.span, us ++ v :: (vs ++ rest)⟩)
      = .ok (a, ⟨lastSpan u.span us, v :: (vs ++ rest)⟩) := by
    refine ha u.span _ (.inr (congrArg some hv)) fun hopen => ?_
    exact absurd (hopen.symm.trans closed) (by decide)
  have hno : Reading.result (readBranch ⟨v.span, vs ++ rest⟩)
      = .ok (b, ⟨lastSpan v.span vs, rest⟩) := hb v.span rest hfollow helse
  rw [readAt, List.append_assoc, List.append_assoc, List.cons_append, List.cons_append,
    List.cons_append, readIf_result, readCondition_phrase hc hu]
  simp only [Except.bind, hyes, Cursor.skip?_token hv, hno]
  rfl

/-- `PRINT` reads an expression unless the statement can end there. -/
lemma readPrint_result (s : Span) (c : Cursor) :
    Reading.result (readPrint s c) =
      if c.atLineEnd || c.kind? == some (.keyword .elseKw) then
        .ok (.print none (s.merge c.last), c)
      else
        (Reading.result (Expr.read c)).map fun x =>
          (.print (some x.1) (s.merge x.2.last), x.2) := by
  rw [readPrint]
  split
  next => rfl
  next => cases Expr.read c <;> rfl

lemma reads_printBlank {w : Token} (hw : w.kind = .keyword .print) :
    Reads .line [w] (.print none w.span) := by
  intro s rest hfollow _
  obtain ⟨kind, sp, l, k⟩ := w
  cases hw
  rw [readAt, List.singleton_append, read.eq_def]
  simp only
  rw [readPrint_result, if_pos]
  · rw [Span.merge_self]
    rfl
  · simpa [Cursor.AtFollow] using hfollow

lemma reads_print {w : Token} {ts : List Token} {e : Expr} (hw : w.kind = .keyword .print)
    (h : Expr.Phrase .relation ts e) :
    Reads .line (w :: ts) (.print (some e) (w.span.merge (lastSpan w.span ts))) := by
  intro s rest hfollow _
  obtain ⟨kind, sp, l, k⟩ := w
  cases hw
  rw [readAt, List.cons_append, read.eq_def]
  simp only
  rw [readPrint_result, if_neg, h.read sp hfollow.operator?]
  · rfl
  · simpa [Cursor.AtFollow] using h.not_atFollow sp rest

/-- Every phrase of a statement is read. -/
theorem Phrase.reads {place : Place} {ts : List Token} {st : Statement}
    (h : Phrase place ts st) : Reads place ts st := by
  induction h with
  | @assign ts st h =>
    intro s rest hfollow _
    rw [readAt, read_assign h]
    exact h.read s hfollow.operator?
  | @letAssign w ts st hw h =>
    intro s rest hfollow _
    obtain ⟨kind, sp, l, k⟩ := w
    cases hw
    rw [readAt, List.cons_append, read_let]
    exact h.read sp hfollow.operator?
  | printBlank hw => exact reads_printBlank hw
  | print hw h => exact reads_print hw h
  | ifThen hw hc hu _ ihb => exact reads_ifThen hw hc hu ihb
  | ifThenElse hw hc hu _ closed hv _ iha ihb => exact reads_ifThenElse hw hc hu iha closed hv ihb
  | @goto w ts e hw h =>
    intro s rest hfollow _
    obtain ⟨kind, sp, l, k⟩ := w
    cases hw
    rw [readAt, List.cons_append, read.eq_def]
    simp only
    rw [readJump_result, h.read sp hfollow.operator?]
    rfl
  | @gosub w ts e hw h =>
    intro s rest hfollow _
    obtain ⟨kind, sp, l, k⟩ := w
    cases hw
    rw [readAt, List.cons_append, read.eq_def]
    simp only
    rw [readJump_result, h.read sp hfollow.operator?]
    rfl
  | @ret w hw =>
    intro s rest _ _
    obtain ⟨kind, sp, l, k⟩ := w
    cases hw
    rw [readAt, List.singleton_append, read.eq_def]
    rfl
  | @input w ts ns hw h =>
    intro s rest hfollow _
    obtain ⟨kind, sp, l, k⟩ := w
    cases hw
    have hcomma : Cursor.kind? ⟨lastSpan sp ts, rest⟩ ≠ some .comma := by
      intro hk
      have hkind := hfollow.kind
      rw [lastSpan_cons, hk] at hkind
      simp at hkind
    rw [readAt, List.cons_append, read.eq_def]
    simp only
    rw [readInput_result, h.read sp rest hcomma]
    rfl
  | @halt w hw =>
    intro s rest _ _
    obtain ⟨kind, sp, l, k⟩ := w
    cases hw
    rw [readAt, List.singleton_append, read.eq_def]
    rfl
  | jump =>
    intro s rest _ _
    rw [readAt, List.singleton_append, readBranch.eq_def]
    rfl
  | @branch ts st h ih =>
    intro s rest hfollow helse
    rw [readAt, readBranch_of_kind (h.kind?_ne_number s rest)]
    exact ih s rest hfollow helse

end Statement

end LineBasic
