import LineBasic.Proofs.Reading.Predictive

/-!
# Where reading fails

A parse error points at the first token that no program can have there.

* `Statement.predictiveAt`: the readers of statements look at one token, as those of expressions;
* `Line.predictive_read`: the same for lines;
* `Program.failsAt_readLines`: reading lines fails at the first token that cannot stand there;
* `Program.ofTokens_error_at`: what the place of an error says about whole lists of tokens.
-/

namespace LineBasic

/-! ### Statements -/

/-- Reads what follows the first name of a list: nothing, or a comma and more names. -/
def Cursor.readMoreNames (n : String) : Reader (List String) := fun c =>
  match c.skip? .comma with
  | none => .ok ([n], c)
  | some c' => (Reading.result c'.names).map fun ns => (n :: ns.1, ns.2)

lemma Cursor.predictive_names (c : Cursor) :
    Predictive (fun c => Reading.result c.names) (fun ts => ∃ ns, NamesPhrase ts ns) c := by
  induction c using Cursor.shorterInduction with
  | _ c ih =>
    refine (c.predictive_ident.bind (g := readMoreNames) (fun us hus => ?_)
      fun n c' ts hread hpass => ?_).congr fun d _ => names_result d
    · obtain ⟨t, n, rfl, ht⟩ := hus
      exact .of_mem ⟨[n], .one ht⟩
    · obtain ⟨r, hr, rfl, rfl⟩ := Reading.result_eq_ok.mp hread
      obtain ⟨t, ht, hpass'⟩ := ident_sound hr
      cases hpass.unique hpass'
      unfold readMoreNames
      refine .optional (fun _ => [r.value]) fun u us hrest hu => ?_
      have hshort : us.length < c.rest.length := by
        have hlt := r.short
        rw [hrest, List.length_cons] at hlt
        omega
      refine ((ih ⟨u.span, us⟩ hshort).map fun ns _ => r.value :: ns).mono fun vs hvs => ?_
      obtain ⟨ns, hns⟩ := hvs
      exact .of_mem ⟨r.value :: ns, .more ht hu hns⟩

namespace Statement

lemma predictive_readAssign (c : Cursor) :
    Predictive (fun c => Reading.result (readAssign c)) (fun ts => ∃ st, Assignment ts st) c := by
  by_cases hc : ∃ n, c.kind? = some (.ident n)
  · obtain ⟨n, hc⟩ := hc
    obtain ⟨s, rest⟩ := c
    cases rest with
    | nil => cases hc
    | cons t ts =>
      have ht : t.kind = .ident n := Option.some.inj hc
      refine .token (g := fun c => (Reading.result (c.expect (.operator (.rel .eq)))).bind fun x =>
        (Reading.result (Expr.read x.2)).map fun y =>
          (.assign n y.1 (t.span.merge y.1.span), y.2)) (fun us => ?_) ?_
      · rw [readAssign_result, Cursor.ident_token ht]
        rfl
      · refine (Cursor.predictive_expect _ (.operator (.rel .eq)) rfl).bind
          (g := fun _ c => (Reading.result (Expr.read c)).map fun y =>
            (Statement.assign n y.1 (t.span.merge y.1.span), y.2))
          (fun us hus => ?_) fun x c' us hread hpass => ?_
        · obtain ⟨u, rfl, hu⟩ := hus
          exact .of_kinds [.number 0] (by decide +kernel)
            ⟨_, .intro ht hu (.loosen .number (by decide))⟩
        · obtain ⟨r, hr, -, rfl⟩ := Reading.result_eq_ok.mp hread
          obtain ⟨u, hu, hpass'⟩ := Cursor.expect_sound hr
          cases hpass.unique hpass'
          refine ((Expr.predictive_read r.next).map
            fun e _ => Statement.assign n e (t.span.merge e.span)).mono fun vs hvs => ?_
          obtain ⟨e, he⟩ := hvs
          exact .of_mem ⟨_, .intro ht hu he⟩
  · have hnone : ∀ n, c.kind? ≠ some (.ident n) := fun n hn => hc ⟨n, hn⟩
    refine .expected .identifier (.of_kinds [.ident "A", .operator (.rel .eq), .number 0]
      (by decide +kernel) ⟨_, .intro rfl rfl (.loosen .number (by decide))⟩) fun d hd => ?_
    rw [readAssign_result, Cursor.ident_of_kind fun n => hd.kind? ▸ hnone n]
    rfl

lemma predictive_readPrint {w : Token} (hw : w.kind = .keyword .print) (c : Cursor) :
    Predictive (fun c => Reading.result (readPrint w.span c))
      (fun ts => ∃ st, Phrase .line (w :: ts) st) c := by
  have hlike {d : Cursor} (hd : c.Alike d) :
      (d.atLineEnd || d.kind? == some (.keyword .elseKw)) =
        (c.atLineEnd || c.kind? == some (.keyword .elseKw)) := by
    rw [Cursor.atLineEnd, Cursor.atLineEnd, hd.kind?]
  by_cases hend : (c.atLineEnd || c.kind? == some (.keyword .elseKw)) = true
  · refine .stop (.print none (w.span.merge c.last)) fun d hd => ?_
    rw [readPrint_result, hlike hd, if_pos hend, hd.last]
  · refine (((Expr.predictive_read c).map
      fun e last => Statement.print (some e) (w.span.merge last)).mono
      fun us hus => ?_).congr fun d hd => ?_
    · obtain ⟨e, he⟩ := hus
      exact .of_mem ⟨_, .print hw he⟩
    · rw [readPrint_result, hlike hd, if_neg hend]

lemma predictive_readJump (jump : Expr → Span → Statement) (s : Span) (c : Cursor) :
    Predictive (fun c => Reading.result (readJump jump s c))
      (fun ts => ∃ e, Expr.Phrase .relation ts e) c :=
  ((Expr.predictive_read c).map fun e _ => jump e (s.merge e.span)).congr
    fun d _ => readJump_result jump s d

lemma predictive_readInput (s : Span) (c : Cursor) :
    Predictive (fun c => Reading.result (readInput s c)) (fun ts => ∃ ns, NamesPhrase ts ns) c :=
  (c.predictive_names.map fun ns last => Statement.input ns (s.merge last)).congr
    fun d _ => readInput_result s d

/-- A condition and the word `THEN`. -/
def IsCondition (ts : List Token) : Prop :=
  ∃ us u e, ts = us ++ [u] ∧ Expr.Phrase .relation us e ∧ u.kind = .keyword .thenKw

lemma predictive_readCondition (c : Cursor) :
    Predictive (fun c => Reading.result (readCondition c)) IsCondition c := by
  refine ((Expr.predictive_read c).bind
    (g := fun e c => (Reading.result (c.expect (.keyword .thenKw))).map fun y => (e, y.2))
    (fun us hus => ?_) fun e c' us hread hpass => ?_).congr fun d _ => readCondition_result d
  · obtain ⟨e, he⟩ := hus
    exact .of_kinds [.keyword .thenKw] (by decide) ⟨us, _, e, rfl, he, rfl⟩
  · obtain ⟨r, hr, rfl, rfl⟩ := Reading.result_eq_ok.mp hread
    obtain ⟨us', he, hpass', -⟩ := Expr.read_sound hr
    cases hpass.unique hpass'
    refine ((r.next.predictive_expect _ rfl).map fun _ _ => r.value).mono fun vs hvs => ?_
    obtain ⟨u, rfl, hu⟩ := hvs
    exact .of_mem ⟨us, u, r.value, rfl, he, hu⟩

/-- The reader of statements at a place. -/
def PredictiveAt (place : Place) (c : Cursor) : Prop :=
  Predictive (fun c => Reading.result (readAt place c)) (fun ts => ∃ st, Phrase place ts st) c

lemma predictiveAt_branch {c : Cursor} (h : PredictiveAt .line c) : PredictiveAt .branch c := by
  by_cases hc : ∃ x, c.kind? = some (.number x)
  · obtain ⟨x, hc⟩ := hc
    obtain ⟨s, rest⟩ := c
    cases rest with
    | nil => cases hc
    | cons t ts =>
      obtain ⟨kind, sp, l, k⟩ := t
      cases hc
      refine .token (g := fun d => .ok (.goto (.number x sp) sp, d)) (fun us => ?_)
        (.stop _ fun _ _ => rfl)
      rw [readAt, readBranch.eq_def]
      rfl
  · have hnone : ∀ x, c.kind? ≠ some (.number x) := fun x hx => hc ⟨x, hx⟩
    refine (Predictive.mono h fun us hus => ?_).congr fun d hd => ?_
    · obtain ⟨st, hst⟩ := hus
      exact .of_mem ⟨st, .branch hst⟩
    · rw [readAt, readAt, readBranch_of_kind fun x => hd.kind? ▸ hnone x]

/-- The kinds of tokens that a statement can start with. -/
def startsStatement : Kind → Bool
  | .ident _ => true
  | .keyword .thenKw | .keyword .elseKw => false
  | .keyword _ => true
  | _ => false

lemma read_of_kind {c : Cursor} (h : ∀ k, c.kind? = some k → startsStatement k = false) :
    Reading.result (read c) = .error (c.expected .statement) := by
  rw [read.eq_def]
  split
  next => cases h _ rfl
  next => cases h _ rfl
  next => cases h _ rfl
  next => cases h _ rfl
  next => cases h _ rfl
  next => cases h _ rfl
  next => cases h _ rfl
  next => cases h _ rfl
  next => cases h _ rfl
  next => rfl

lemma predictiveAt_of_kind {c : Cursor}
    (h : ∀ k, c.kind? = some k → startsStatement k = false) : PredictiveAt .line c := by
  refine .expected .statement ?_ fun d hd => read_of_kind (hd.kind? ▸ h)
  exact .of_kinds [.keyword .endKw] (by decide) ⟨_, .halt rfl⟩

/-- Reads what follows the first branch of a conditional: nothing, or `ELSE` and a branch. -/
def readAlternative (start : Span) (e : Expr) (a : Statement) : Reader Statement := fun c =>
  match c.skip? (.keyword .elseKw) with
  | none => .ok (.ifThen e a (start.merge c.last), c)
  | some c' => (Reading.result (readAt .branch c')).map fun b =>
    (.ifThenElse e a b.1 (start.merge b.2.last), b.2)

lemma predictive_readAlternative {w u : Token} {ts us : List Token} {e : Expr} {a : Statement}
    {c : Cursor} (hw : w.kind = .keyword .ifKw) (he : Expr.Phrase .relation ts e)
    (hu : u.kind = .keyword .thenKw) (ha : Phrase .branch us a)
    (hopen : a.isOpen = true → ¬ c.AtElse)
    (ih : ∀ v vs, c.rest = v :: vs → PredictiveAt .branch ⟨v.span, vs⟩) :
    Predictive (readAlternative w.span e a)
      (fun vs => ∃ st, Phrase .line (w :: ts ++ u :: us ++ vs) st) c := by
  unfold readAlternative
  refine .optional (fun last => Statement.ifThen e a (w.span.merge last)) fun v vs hrest hv => ?_
  -- an open first branch would have taken the `ELSE` in
  have hclosed : a.isOpen = false := by
    refine Bool.eq_false_iff.mpr fun h => hopen h ?_
    rw [Cursor.AtElse, Cursor.kind?, hrest]
    exact congrArg some hv
  refine (Predictive.map (fun b last => Statement.ifThenElse e a b (w.span.merge last))
    (ih v vs hrest)).mono fun ws hws => ?_
  obtain ⟨b, hb⟩ := hws
  exact .of_mem ⟨_, .ifThenElse hw he hu ha hclosed hv hb⟩

lemma predictiveAt_if {s : Span} {w : Token} {ts : List Token} (hw : w.kind = .keyword .ifKw)
    (ih : ∀ c' : Cursor, c'.rest.length < ts.length → PredictiveAt .branch c') :
    PredictiveAt .line ⟨s, w :: ts⟩ := by
  refine .token (g := fun c => (Reading.result (readCondition c)).bind fun x =>
    (Reading.result (readAt .branch x.2)).bind fun y =>
      readAlternative w.span x.1 y.1 y.2) (fun us => ?_) ?_
  · obtain ⟨kind, sp, l, k⟩ := w
    cases hw
    exact readIf_result s sp l k us
  · refine (predictive_readCondition _).bind
      (g := fun e c => (Reading.result (readAt .branch c)).bind fun y =>
        readAlternative w.span e y.1 y.2) (fun us hus => ?_) fun e c' us hread hpass => ?_
    · obtain ⟨us, u, e, rfl, he, hu⟩ := hus
      have hif := Phrase.ifThen hw he hu (.branch (.halt (w := Kind.token (.keyword .endKw)) rfl))
      exact .of_kinds [.keyword .endKw] (by decide) ⟨_, by simpa using hif⟩
    · obtain ⟨r, hr, rfl, rfl⟩ := Reading.result_eq_ok.mp hread
      obtain ⟨us', u, he, hu, hpass'⟩ := readCondition_sound hr
      cases hpass.unique hpass'
      refine (ih r.next r.short).bind (g := fun a c => readAlternative w.span r.value a c)
        (fun vs hvs => ?_) fun a c' vs hread hpass => ?_
      · obtain ⟨a, ha⟩ := hvs
        have hif := Phrase.ifThen hw he hu ha
        exact .of_mem ⟨_, by simpa using hif⟩
      · obtain ⟨r', hr', rfl, rfl⟩ := Reading.result_eq_ok.mp hread
        obtain ⟨vs', ha, hpass'', hopen⟩ := readSound _ .branch r' hr'
        cases hpass.unique hpass''
        have hrest := predictive_readAlternative hw he hu ha hopen fun v vs hv => ih _ (by
          have hlt := Nat.lt_trans r'.short r.short
          rw [hv, List.length_cons] at hlt
          exact Nat.lt_of_succ_lt hlt)
        simpa using hrest

lemma read_of_ident {c : Cursor} {n : String} (h : c.kind? = some (.ident n)) :
    Reading.result (read c) = Reading.result (readAssign c) := by
  obtain ⟨s, rest⟩ := c
  cases rest with
  | nil => cases h
  | cons t ts =>
    obtain ⟨kind, sp, l, k⟩ := t
    cases h
    rw [read.eq_def]

lemma predictiveAt_line {c : Cursor}
    (ih : ∀ c' : Cursor, c'.rest.length < c.rest.length → PredictiveAt .branch c') :
    PredictiveAt .line c := by
  obtain ⟨s, rest⟩ := c
  cases rest with
  | nil => exact predictiveAt_of_kind fun k hk => by cases hk
  | cons t ts =>
    obtain ⟨kind, sp, l, k⟩ := t
    cases kind with
    | ident n =>
      refine (Predictive.mono (predictive_readAssign _) fun us hus => ?_).congr fun d hd => ?_
      · obtain ⟨st, hst⟩ := hus
        exact .of_mem ⟨st, .assign hst⟩
      · exact read_of_ident (hd.kind?.trans rfl)
    | keyword w =>
      cases w with
      | letKw =>
        refine .token (g := fun c => Reading.result (readAssign c)) (fun us => read_let s sp l k us)
          ((predictive_readAssign _).mono ?_)
        rintro us ⟨st, hst⟩
        exact .of_mem ⟨st, .letAssign rfl hst⟩
      | print =>
        refine .token (g := fun c => Reading.result (readPrint sp c)) (fun us => ?_)
          (predictive_readPrint (w := ⟨.keyword .print, sp, l, k⟩) rfl _)
        rw [readAt, read.eq_def]
      | goto =>
        refine .token (g := fun c => Reading.result (readJump .goto sp c)) (fun us => ?_)
          ((predictive_readJump .goto sp _).mono ?_)
        · rw [readAt, read.eq_def]
        · rintro us ⟨e, he⟩
          exact .of_mem ⟨_, .goto rfl he⟩
      | gosub =>
        refine .token (g := fun c => Reading.result (readJump .gosub sp c)) (fun us => ?_)
          ((predictive_readJump .gosub sp _).mono ?_)
        · rw [readAt, read.eq_def]
        · rintro us ⟨e, he⟩
          exact .of_mem ⟨_, .gosub rfl he⟩
      | input =>
        refine .token (g := fun c => Reading.result (readInput sp c)) (fun us => ?_)
          ((predictive_readInput sp _).mono ?_)
        · rw [readAt, read.eq_def]
        · rintro us ⟨ns, hns⟩
          exact .of_mem ⟨_, .input rfl hns⟩
      | returnKw =>
        refine .token (g := fun d => .ok (.ret sp, d)) (fun us => ?_) (.stop _ fun _ _ => rfl)
        rw [readAt, read.eq_def]
        rfl
      | endKw =>
        refine .token (g := fun d => .ok (.halt sp, d)) (fun us => ?_) (.stop _ fun _ _ => rfl)
        rw [readAt, read.eq_def]
        rfl
      | ifKw => exact predictiveAt_if rfl fun c' hc' => ih c' (Nat.lt_succ_of_lt hc')
      | thenKw => exact predictiveAt_of_kind fun k hk => by cases hk; rfl
      | elseKw => exact predictiveAt_of_kind fun k hk => by cases hk; rfl
    | _ => exact predictiveAt_of_kind fun k hk => by cases hk; rfl

/-- The readers of statements and of branches are predictive. -/
theorem predictiveAt (c : Cursor) (place : Place) : PredictiveAt place c := by
  induction c using Cursor.shorterInduction generalizing place with
  | _ c ih =>
    have hline : PredictiveAt .line c := predictiveAt_line fun c' hc' => ih c' hc' .branch
    cases place with
    | line => exact hline
    | branch => exact predictiveAt_branch hline

end Statement

/-! ### Lines -/

namespace Line

/-- Reads a line from its number `n` on, which stands at `start`. -/
def readStatement (n : Nat) (start : Span) : Reader Line := fun c =>
  (Reading.result (Statement.readAt .line c)).bind fun st =>
    if st.2.atLineEnd then .ok (⟨n, st.1, start.merge st.2.last⟩, st.2)
    else .error (st.2.expected .lineEnd)

lemma read_of_number {x : Number} {n : Nat} (hx : lineNumber? x = some n) (last s : Span)
    (l k : Nat) (ts : List Token) :
    Reading.result (read ⟨last, ⟨.number x, s, l, k⟩ :: ts⟩) = readStatement n s ⟨s, ts⟩ := by
  have hnumber : Reading.result (readNumber ⟨last, ⟨.number x, s, l, k⟩ :: ts⟩)
      = .ok (n, ⟨s, ts⟩) := by
    rw [readNumber]
    simp only [hx]
    rfl
  rw [read_result, hnumber]
  rfl

lemma read_of_kind {c : Cursor} (h : ∀ x, c.kind? ≠ some (.number x)) :
    Reading.result (read c) = .error (c.expected .lineNumber) := by
  have hnumber : Reading.result (readNumber c) = .error (c.expected .lineNumber) := by
    rw [readNumber.eq_def]
    split
    next last x s l k ts => exact absurd rfl (h x)
    next => rfl
  rw [read_result, hnumber]
  rfl

lemma read_of_invalid {x : Number} (hx : lineNumber? x = none) (last s : Span) (l k : Nat)
    (ts : List Token) :
    Reading.result (read ⟨last, ⟨.number x, s, l, k⟩ :: ts⟩) =
      .error ⟨.invalidLineNumber x, s⟩ := by
  have hnumber : Reading.result (readNumber ⟨last, ⟨.number x, s, l, k⟩ :: ts⟩)
      = .error ⟨.invalidLineNumber x, s⟩ := by
    rw [readNumber]
    simp only [hx]
    rfl
  rw [read_result, hnumber]
  rfl

/-- A line can always be completed. -/
lemma viable_line : Viable (fun ts => ∃ l, Line.Phrase ts l) [] := by
  have hzero : IsLineNumber 0 0 := lineNumber?_sound (by decide +kernel) (by decide +kernel)
  exact .of_kinds [.number 0, .keyword .endKw] (by decide +kernel) ⟨_, .intro hzero (.halt rfl)⟩

lemma predictive_readStatement {x : Number} {n : Nat} (hx : IsLineNumber x n) (s : Span)
    (l k : Nat) (c : Cursor) :
    Predictive (readStatement n s) (fun ts => ∃ y, Line.Phrase (⟨.number x, s, l, k⟩ :: ts) y)
      c := by
  refine (Statement.predictiveAt c .line).bind (g := fun st c =>
    if c.atLineEnd then .ok (Line.mk n st (s.merge c.last), c)
    else .error (c.expected .lineEnd)) (fun us hus => ?_) fun st c' ts hread hpass => ?_
  · obtain ⟨st, hst⟩ := hus
    exact .of_mem ⟨_, .intro hx hst⟩
  · obtain ⟨r, hr, rfl, rfl⟩ := Reading.result_eq_ok.mp hread
    obtain ⟨ts', hst, hpass', -⟩ := Statement.readSound _ .line r hr
    cases hpass.unique hpass'
    by_cases hend : r.next.atLineEnd = true
    · refine .stop ⟨n, r.value, s.merge r.next.last⟩ fun d hd => ?_
      rw [Cursor.atLineEnd] at hend
      rw [Cursor.atLineEnd, hd.kind?, if_pos hend, hd.last]
    · refine .expected .lineEnd (.of_mem ⟨⟨n, r.value, s.merge (lastSpan s ts)⟩, ?_⟩) fun d hd => ?_
      · rw [List.append_nil]
        exact .intro hx hst
      · rw [Cursor.atLineEnd] at hend
        rw [Cursor.atLineEnd, hd.kind?, if_neg hend]

lemma predictive_read (c : Cursor) (hc : ∀ t ∈ c.rest, t.kind.nonNegative = true) :
    Predictive (fun c => Reading.result (read c)) (fun ts => ∃ l, Line.Phrase ts l) c := by
  by_cases hnumber : ∃ x, c.kind? = some (.number x)
  · obtain ⟨x, hx⟩ := hnumber
    obtain ⟨s, rest⟩ := c
    cases rest with
    | nil => cases hx
    | cons t ts =>
      obtain ⟨kind, sp, l, k⟩ := t
      cases hx
      cases hn : lineNumber? x with
      | none =>
        refine .fail viable_line rfl (read_of_invalid hn s sp l k ts) fun t rest hrest us => ?_
        cases hrest
        exact read_of_invalid hn s sp l k us
      | some n =>
        have hnonneg : Number.atMost 0 x = true := hc _ List.mem_cons_self
        exact .token (fun us => read_of_number hn s sp l k us)
          (predictive_readStatement (lineNumber?_sound hnonneg hn) sp l k _)
  · have hnone : ∀ x, c.kind? ≠ some (.number x) := fun x hx => hnumber ⟨x, hx⟩
    exact .expected .lineNumber viable_line fun d hd => read_of_kind fun x => hd.kind? ▸ hnone x

end Line

/-! ### Programs -/

namespace Program

variable {p : Program} {e : ParseError} {s : Span} {t : Token} {ts : List Token}

/-- The tokens that write lines. -/
def IsText (ts : List Token) : Prop := ∃ ls, Program.Phrase ts ls

lemma readLines_of_kind {c : Cursor} (hc : c.kind? ≠ some .newline) (p : Program) :
    readLines p c = readFrom p c := by
  rw [readLines_eq_readFrom, Cursor.skipBreaks_of_kind hc]

/-- A line break may stand before lines. -/
lemma failsAt_blank (ht : t.kind = .newline) (h : FailsAt (readLines p) IsText ⟨t.span, ts⟩ e) :
    FailsAt (readLines p) IsText ⟨s, t :: ts⟩ e := by
  have hmore : FailsAt (readLines p) (fun us => IsText (t :: us)) ⟨t.span, ts⟩ e := by
    refine h.first (fun us hus => ?_) fun _ _ hd => hd
    obtain ⟨ls, hls⟩ := hus
    exact .of_mem ⟨ls, .blank ht hls⟩
  refine hmore.after (.token s t ts) fun d hd hread => ?_
  obtain ⟨s', rest⟩ := d
  obtain rfl : s' = t.span := hd.last
  exact (readLines_blank ht p s rest).trans hread

/-- Reading fails in the first line. -/
lemma failsAt_line {c : Cursor} (hc : ∀ t ∈ c.rest, t.kind.nonNegative = true)
    (hkind : c.kind? ≠ some .newline) (hrest : c.rest ≠ [])
    (h : Reading.result (Line.read c) = .error e) : FailsAt (readLines p) IsText c e := by
  refine ((Line.predictive_read c hc).fails e h).first (fun us hus => ?_) fun d hd hread => ?_
  · obtain ⟨l, hl⟩ := hus
    exact .of_mem ⟨[l], .last hl⟩
  · have hne : d.rest.isEmpty = false := by
      have hsame := hd.kind?
      rw [Cursor.kind?, Cursor.kind?] at hsame
      cases hd' : d.rest with
      | nil =>
        rw [hd', List.head?_nil, Option.map_none, eq_comm, Option.map_eq_none_iff,
          List.head?_eq_none_iff] at hsame
        exact absurd hsame hrest
      | cons u us => rfl
    rw [readLines_of_kind (hd.kind? ▸ hkind), readFrom, hne, hread]
    rfl

/-- Reading fails after a line and a line break. -/
lemma failsAt_next {us : List Token} {l : Line} (hl : Line.ReadFrom ts l)
    (hts : ∀ t ∈ ts, t.kind.nonNegative = true) (ht : t.kind = .newline)
    (fresh : p.get? l.number = none)
    (h : FailsAt (readLines (p.insert l fresh)) IsText ⟨t.span, us⟩ e) :
    FailsAt (readLines p) IsText ⟨s, ts ++ t :: us⟩ e := by
  have hmore : FailsAt (readLines (p.insert l fresh)) (fun us => IsText (ts ++ [t] ++ us))
      ⟨t.span, us⟩ e := by
    refine h.first (fun us hus => ?_) fun _ _ hd => hd
    obtain ⟨ls, hls⟩ := hus
    refine .of_mem ⟨l :: ls, ?_⟩
    rw [List.append_assoc]
    exact .cons (hl.phrase hts) ht hls
  refine hmore.after ⟨by simp, by simp⟩ fun d hd hread => ?_
  obtain ⟨s', rest⟩ := d
  obtain rfl : s' = t.span := hd.last
  have hend : Cursor.atLineEnd ⟨lastSpan s ts, t :: rest⟩ = true := by
    simp [Cursor.atLineEnd, Cursor.kind?, ht]
  rw [List.append_assoc, List.singleton_append, readLines_line hl p s hend fresh,
    readLines_blank ht]
  exact hread

/-- Reading lines fails at the first token that cannot stand there, unless a number is taken. -/
theorem failsAt_readLines (c : Cursor) (hc : ∀ t ∈ c.rest, t.kind.nonNegative = true)
    (p : Program) : ∀ e, readLines p c = .error e → (∀ n, e.fault ≠ .duplicateLine n) →
      FailsAt (readLines p) IsText c e := by
  induction c using Cursor.shorterInduction generalizing p with
  | _ c ih =>
    intro e he hdup
    obtain ⟨s, rest⟩ := c
    cases rest with
    | nil =>
      rw [readLines_nil] at he
      cases he
    | cons t ts =>
      have hts : ∀ t ∈ ts, t.kind.nonNegative = true :=
        fun u hu => hc u (List.mem_cons_of_mem _ hu)
      by_cases ht : t.kind = .newline
      · rw [readLines_blank ht] at he
        exact failsAt_blank ht (ih ⟨t.span, ts⟩ (Nat.lt_succ_self _) hts p e he hdup)
      · have hkind : Cursor.kind? ⟨s, t :: ts⟩ ≠ some .newline :=
          fun h => ht (Option.some.inj h)
        cases hline : Line.read ⟨s, t :: ts⟩ with
        | error e' =>
          have hresult : Reading.result (Line.read ⟨s, t :: ts⟩) = .error e' := by rw [hline]; rfl
          rw [readLines_of_kind hkind, readFrom, hresult] at he
          cases he
          exact failsAt_line hc hkind (by simp) hresult
        | ok r =>
          have hresult : Reading.result (Line.read ⟨s, t :: ts⟩) = .ok (r.value, r.next) := by
            rw [hline]
            rfl
          rw [readLines_of_kind hkind, readFrom, hresult] at he
          simp only [List.isEmpty_cons, Bool.false_eq_true, if_false, Except.bind] at he
          split at he
          next fresh =>
            obtain ⟨l, ⟨s', rest⟩, hshort⟩ := r
            obtain ⟨us, hus, hpass, hend⟩ := Line.readFrom_of_read hline
            have hrest : t :: ts = us ++ rest := hpass.rest
            cases rest with
            | nil =>
              rw [readLines_nil] at he
              cases he
            | cons u rest =>
              have hu : u.kind = .newline := by
                simpa [Cursor.atLineEnd, Cursor.kind?] using hend
              rw [readLines_blank hu] at he
              rw [hrest] at hc ⊢
              obtain ⟨hline, hnext⟩ := List.forall_mem_append.mp hc
              refine failsAt_next hus hline hu fresh (ih ⟨u.span, rest⟩ ?_ ?_ _ e he hdup)
              · exact Nat.lt_trans (Nat.lt_succ_self _) hshort
              · exact fun v hv => hnext v (List.mem_cons_of_mem _ hv)
          next =>
            cases he
            exact absurd rfl (hdup _)

/-- **The place of an error.**  Where tokens are no program, for another reason than a line number
that is taken, the error points at the first token that cannot stand there.  The tokens before it
can be continued to a text of the grammar.  No tokens that start with them and with this token are
a program; at the end of the tokens, they are no program as they stand. -/
theorem ofTokens_error_at (tokens : List Token)
    (hnonneg : ∀ t ∈ tokens, t.kind.nonNegative = true) (e : ParseError)
    (h : ofTokens tokens = .error e) (hdup : ∀ n, e.fault ≠ .duplicateLine n) :
    ∃ before after, tokens = before ++ after ∧ Viable IsText before ∧
      ((∃ t rest, after = t :: rest ∧ e.span = t.span ∧
          ∀ us p, ofTokens (before ++ t :: us) ≠ .ok p) ∨
        (after = [] ∧ (∃ t, before.getLast? = some t ∧ e.span = .point t.span.stop) ∧
          ∀ p, ofTokens before ≠ .ok p)) := by
  obtain ⟨ts, ⟨s, rest⟩, hpass, hspan, hviable, hsame⟩ :=
    failsAt_readLines (.start tokens) hnonneg empty e h hdup
  refine ⟨ts, rest, hpass.rest, hviable, ?_⟩
  cases rest with
  | nil =>
    obtain rfl : tokens = ts := hpass.rest.trans (List.append_nil ts)
    refine .inr ⟨rfl, ?_, fun p hok => by rw [hok] at h; cases h⟩
    have hne : tokens ≠ [] := by
      rintro rfl
      rw [ofTokens, Cursor.start, readLines_nil] at h
      cases h
    refine ⟨tokens.getLast hne, List.getLast?_eq_some_getLast hne, ?_⟩
    rw [hspan, Cursor.span, hpass.last, lastSpan_eq_getLast hne]
  | cons t rest =>
    refine .inl ⟨t, rest, rfl, hspan, fun us p hok => ?_⟩
    have herror : ofTokens (ts ++ t :: us) = .error e := hsame t rest rfl us
    rw [herror] at hok
    cases hok

/-- `10 IF A` can go on, and `10 IF A PRINT` cannot. -/
theorem ofTokens_error_at_print :
    let tokens : List Token :=
      [⟨.number 10, ⟨0, 2⟩, 1, 1⟩, ⟨.keyword .ifKw, ⟨3, 5⟩, 1, 4⟩, ⟨.ident "A", ⟨6, 7⟩, 1, 7⟩]
    let print : Token := ⟨.keyword .print, ⟨8, 13⟩, 1, 9⟩
    Viable IsText tokens ∧ ∀ us p, ofTokens (tokens ++ print :: us) ≠ .ok p := by
  intro tokens print
  have hfault : (match ofTokens (tokens ++ [print]) with
      | .ok _ => none
      | .error e => some e) =
      some ⟨.expected (.token (.keyword .thenKw)) (some (.keyword .print)), ⟨8, 13⟩⟩ := by
    decide +kernel
  split at hfault
  next => cases hfault
  next e herror =>
    obtain rfl := Option.some.inj hfault
    obtain ⟨before, after, hsplit, hviable, hplace⟩ :=
      ofTokens_error_at _ (by decide +kernel) _ herror (by simp)
    rcases hplace with ⟨t, rest, rfl, hspan, hno⟩ | ⟨rfl, ⟨t, hlast, hspan⟩, -⟩
    · rcases before with _ | ⟨_, _ | ⟨_, _ | ⟨_, _ | ⟨_, before⟩⟩⟩⟩
      · cases hsplit
        cases hspan
      · cases hsplit
        cases hspan
      · cases hsplit
        cases hspan
      · cases hsplit
        exact ⟨hviable, hno⟩
      · simp [tokens] at hsplit
    · rw [List.append_nil] at hsplit
      rw [← hsplit] at hlast
      cases hlast
      cases hspan

end Program

end LineBasic
