import LineBasic.Proofs.Reading.Literals
import LineBasic.Value
import Mathlib.Data.String.Basic

/-!
# Comparisons

The six relations between values are read off the order of two numbers or of two texts, but two of
them are decided by equality. They agree with each other for all values.

* `Value.order?`: the order of two values, absent for a NaN and for values of other kinds;
* `Value.compare_of_order?`: if there is an order, it decides all six relations;
* `Value.compare_unordered`: a NaN is in no relation to a number but `<>`;
* `Value.compare_converse`: every relation read from the other side;
* `Value.compare_consistent`: how the relations agree.
-/

namespace LineBasic

namespace Number

variable {x y z : Number}

lemma rank?_eq_none_iff : rank? x = none ↔ IsNaN x := by
  rw [isNaN_iff_magnitude, rank?]
  split
  next h => exact ⟨fun _ => h, fun _ => rfl⟩
  next h => exact ⟨fun hsome => absurd hsome (Option.some_ne_none _), fun hlarge => absurd hlarge h⟩

/-- Two numbers have no order exactly if one of them is a NaN. -/
lemma order?_eq_none_iff_isNaN : order? x y = none ↔ IsNaN x ∨ IsNaN y := by
  rw [order?_eq_none_iff, rank?_eq_none_iff, rank?_eq_none_iff]

lemma order?_eq_lt_iff :
    order? x y = some .lt ↔ ∃ i j, rank? x = some i ∧ rank? y = some j ∧ i < j := by
  rw [order?]
  cases rank? x <;> cases rank? y <;> simp [Int.compare_eq_lt]

lemma order?_lt_trans (hxy : order? x y = some .lt) (hyz : order? y z = some .lt) :
    order? x z = some .lt := by
  obtain ⟨i, j, hi, hj, hij⟩ := order?_eq_lt_iff.mp hxy
  obtain ⟨j', k, hj', hk, hjk⟩ := order?_eq_lt_iff.mp hyz
  obtain rfl : j = j' := Option.some.inj (hj.symm.trans hj')
  exact order?_eq_lt_iff.mpr ⟨i, k, hi, hk, Int.lt_trans hij hjk⟩

end Number

namespace Value

/-! ### The order of texts -/

lemma textOrder_eq_lt_iff {s t : String} : textOrder s t = .lt ↔ s < t := by
  rw [textOrder]
  split
  next h => exact ⟨fun _ => h, fun _ => rfl⟩
  next h =>
    refine ⟨fun hlt => ?_, fun hlt => absurd hlt h⟩
    split at hlt <;> cases hlt

lemma textOrder_eq_eq_iff {s t : String} : textOrder s t = .eq ↔ s = t := by
  rw [textOrder]
  split
  next hlt =>
    refine ⟨nofun, ?_⟩
    rintro rfl
    exact absurd hlt (lt_irrefl s)
  next =>
    split
    next h => exact ⟨fun _ => h, fun _ => rfl⟩
    next h => exact ⟨nofun, fun heq => absurd heq h⟩

lemma textOrder_swap (s t : String) : textOrder t s = (textOrder s t).swap := by
  rcases lt_trichotomy s t with h | rfl | h
  · rw [textOrder_eq_lt_iff.mpr h, textOrder, if_neg (lt_asymm h), if_neg h.ne']
    rfl
  · rw [textOrder_eq_eq_iff.mpr rfl]
    rfl
  · rw [textOrder_eq_lt_iff.mpr h, textOrder, if_neg (lt_asymm h), if_neg h.ne']
    rfl

/-! ### The order of values -/

/-- The order of two values: that of two numbers, or that of two texts. -/
def order? : Value → Value → Option Ordering
  | .number x, .number y => x.order? y
  | .string s, .string t => some (textOrder s t)
  | _, _ => none

/-- Two texts, or two numbers neither of which is a NaN. -/
inductive Comparable : Value → Value → Prop
  | texts (s t : String) : Comparable (.string s) (.string t)
  | numbers {x y : Number} (hx : ¬ x.IsNaN) (hy : ¬ y.IsNaN) : Comparable (.number x) (.number y)

variable {a b c : Value}

lemma Comparable.exists_order? (h : Comparable a b) : ∃ o, order? a b = some o := by
  cases h with
  | texts s t => exact ⟨_, rfl⟩
  | @numbers x y hx hy =>
    cases ho : x.order? y with
    | none => exact absurd (Number.order?_eq_none_iff_isNaN.mp ho) (not_or.mpr ⟨hx, hy⟩)
    | some o => exact ⟨o, ho⟩

lemma order?_swap (a b : Value) : order? b a = (order? a b).map Ordering.swap := by
  cases a <;> cases b <;> try rfl
  · exact Number.order?_swap ..
  · exact congrArg some (textOrder_swap ..)

/-- What has an order is two numbers or two texts. -/
lemma order?_cases {o : Ordering} (h : order? a b = some o) :
    (∃ x y, a = .number x ∧ b = .number y ∧ x.order? y = some o) ∨
      ∃ s t, a = .string s ∧ b = .string t ∧ textOrder s t = o := by
  cases a with
  | number x =>
    cases b with
    | number y => exact .inl ⟨x, y, rfl, rfl, h⟩
    | _ => cases h
  | string s =>
    cases b with
    | string t => exact .inr ⟨s, t, rfl, rfl, Option.some.inj h⟩
    | _ => cases h
  | _ => cases h

lemma order?_lt_trans (hab : order? a b = some .lt) (hbc : order? b c = some .lt) :
    order? a c = some .lt := by
  obtain ⟨x, y, rfl, rfl, hxy⟩ | ⟨s, t, rfl, rfl, hst⟩ := order?_cases hab
  · obtain ⟨y', z, hy, rfl, hyz⟩ | ⟨t, u, hy, -, -⟩ := order?_cases hbc
    · cases hy
      exact Number.order?_lt_trans hxy hyz
    · cases hy
  · obtain ⟨y, z, ht, -, -⟩ | ⟨t', u, ht, rfl, htu⟩ := order?_cases hbc
    · cases ht
    · cases ht
      rw [textOrder_eq_lt_iff] at hst htu
      exact congrArg some (textOrder_eq_lt_iff.mpr (hst.trans htu))

/-! ### Relations -/

/-- Whether values are equal is decided by their order. -/
lemma equals_of_order? {o : Ordering} (h : order? a b = some o) : equals a b = (o == .eq) := by
  obtain ⟨x, y, rfl, rfl, ho⟩ | ⟨s, t, rfl, rfl, rfl⟩ := order?_cases h
  · rw [equals, Number.same, ho]
    rfl
  · rw [equals, Bool.eq_iff_iff, beq_iff_eq, beq_iff_eq, textOrder_eq_eq_iff]

lemma inOrder_of_order? {o : Ordering} (h : order? a b = some o) (op : RelOp) :
    inOrder op a b = .ok (op.accepts o) := by
  obtain ⟨x, y, rfl, rfl, ho⟩ | ⟨s, t, rfl, rfl, rfl⟩ := order?_cases h
  · rw [inOrder, ho]
  · rfl

/-- If two values have an order, it decides all relations between them. -/
lemma compare_of_order? {o : Ordering} (h : order? a b = some o) (op : RelOp) :
    compare op a b = .ok (.boolean (op.accepts o)) := by
  have hset : (a.isSet && b.isSet) = true := by
    obtain ⟨x, y, rfl, rfl, -⟩ | ⟨s, t, rfl, rfl, -⟩ := order?_cases h <;> rfl
  rw [compare, if_pos hset]
  cases op with
  | eq => rw [relation, equals_of_order? h]; rfl
  | ne => rw [relation, equals_of_order? h]; rfl
  | _ => simp only [relation, inOrder_of_order? h]; rfl

/-- A NaN is in no relation to a number, but differs from it. -/
lemma compare_unordered {x y : Number} (h : x.IsNaN ∨ y.IsNaN) (op : RelOp) :
    compare op (.number x) (.number y) = .ok (.boolean (decide (op = .ne))) := by
  have hnone := Number.order?_eq_none_iff_isNaN.mpr h
  have hset : (isSet (.number x) && isSet (.number y)) = true := rfl
  rw [compare, if_pos hset]
  cases op with
  | eq => rw [relation, equals, Number.same, hnone]; rfl
  | ne => rw [relation, equals, Number.same, hnone]; rfl
  | _ => simp only [relation, inOrder, hnone]; rfl

lemma compare_eq_unset_iff (op : RelOp) :
    compare op a b = .ok .unset ↔ a = .unset ∨ b = .unset := by
  rw [compare]
  split
  next hset =>
    refine ⟨fun h => ?_, ?_⟩
    · cases hr : relation op a b <;> rw [hr] at h <;> cases h
    · rintro (rfl | rfl)
      · cases hset
      · cases a <;> cases hset
  next hset =>
    refine ⟨fun _ => ?_, fun _ => rfl⟩
    cases a <;> cases b <;> simp_all [isSet]

lemma isSet_and_of_ne (ha : a ≠ .unset) (hb : b ≠ .unset) : (a.isSet && b.isSet) = true := by
  cases a <;> cases b <;> first | rfl | contradiction

/-- Equality is decided for any two values that are set, and `<>` is its negation. -/
lemma compare_eq_of_set (ha : a ≠ .unset) (hb : b ≠ .unset) :
    compare .eq a b = .ok (.boolean (equals a b)) ∧
      compare .ne a b = .ok (.boolean (!equals a b)) := by
  rw [compare, compare, if_pos (isSet_and_of_ne ha hb), if_pos (isSet_and_of_ne ha hb)]
  exact ⟨rfl, rfl⟩

/-- Any other relation asks for an order. -/
lemma compare_eq_inOrder (ha : a ≠ .unset) (hb : b ≠ .unset) {op : RelOp}
    (hop : op ∈ [RelOp.lt, .le, .gt, .ge]) :
    compare op a b = (inOrder op a b).map .boolean := by
  rw [compare, if_pos (isSet_and_of_ne ha hb)]
  cases op with
  | eq => simp at hop
  | ne => simp at hop
  | _ => rfl

/-- There is no order between values of two kinds, and none between truth values. -/
lemma inOrder_eq_error_iff (ha : a ≠ .unset) (op : RelOp) (e : ValueError) :
    inOrder op a b = .error e ↔
      (a.typeName ≠ b.typeName ∨ ∃ p q, a = .boolean p ∧ b = .boolean q) ∧
        e = mismatch op.symbol a b := by
  cases a with
  | number x =>
    cases b with
    | number y =>
      rw [inOrder]
      split <;> simp [typeName]
    | _ => simp [inOrder, typeName, eq_comm]
  | string s => cases b <;> simp [inOrder, typeName, eq_comm]
  | boolean p => cases b <;> simp [inOrder, typeName, eq_comm]
  | unset => exact absurd rfl ha

/-- The relations that ask for an order fail on values of two kinds and on two truth values. -/
lemma compare_eq_error_iff (ha : a ≠ .unset) (hb : b ≠ .unset) {op : RelOp}
    (hop : op ∈ [RelOp.lt, .le, .gt, .ge]) (e : ValueError) :
    compare op a b = .error e ↔
      (a.typeName ≠ b.typeName ∨ ∃ p q, a = .boolean p ∧ b = .boolean q) ∧
        e = mismatch op.symbol a b := by
  rw [compare_eq_inOrder ha hb hop, ← inOrder_eq_error_iff ha]
  cases inOrder op a b <;> simp [Except.map]

/-! ### The other side -/

lemma equals_comm (a b : Value) : equals b a = equals a b := by
  cases a with
  | number x =>
    cases b with
    | number y =>
      rw [equals, equals, Number.same, Number.same, Number.order?_swap x y]
      cases x.order? y with
      | none => rfl
      | some o => cases o <;> rfl
    | _ => rfl
  | string s => cases b <;> simp [equals, Bool.beq_comm]
  | boolean p => cases b <;> simp [equals, Bool.beq_comm]
  | unset => cases b <;> rfl

lemma inOrder_converse (op : RelOp) (a b : Value) :
    (inOrder op.converse b a).toOption = (inOrder op a b).toOption := by
  cases ho : order? a b with
  | some o =>
    have hswap : order? b a = some o.swap := by rw [order?_swap, ho]; rfl
    rw [inOrder_of_order? ho, inOrder_of_order? hswap, op.accepts_converse_swap]
  | none =>
    cases a with
    | number x =>
      cases b with
      | number y =>
        have hnone : y.order? x = none := by rw [Number.order?_swap]; simp_all [order?]
        simp_all [inOrder, order?]
      | _ => rfl
    | _ => cases b <;> first | rfl | cases ho

/-- A relation read from the other side has the same result, or both fail. -/
lemma compare_converse (op : RelOp) (a b : Value) :
    (compare op.converse b a).toOption = (compare op a b).toOption := by
  by_cases hunset : a = .unset ∨ b = .unset
  · rw [(compare_eq_unset_iff op).mpr hunset, (compare_eq_unset_iff _).mpr hunset.symm]
  · obtain ⟨ha, hb⟩ := not_or.mp hunset
    have horder {op op' : RelOp} (hop : op ∈ [RelOp.lt, .le, .gt, .ge])
        (hop' : op' ∈ [RelOp.lt, .le, .gt, .ge]) (hconverse : op.converse = op') :
        (compare op' b a).toOption = (compare op a b).toOption := by
      have hsame := inOrder_converse op a b
      rw [compare_eq_inOrder ha hb hop, compare_eq_inOrder hb ha hop', ← hconverse]
      cases h : inOrder op a b <;> cases h' : inOrder op.converse b a <;>
        simp_all [Except.toOption, Except.map]
    cases op with
    | eq =>
      rw [RelOp.converse, (compare_eq_of_set ha hb).1, (compare_eq_of_set hb ha).1, equals_comm]
    | ne =>
      rw [RelOp.converse, (compare_eq_of_set ha hb).2, (compare_eq_of_set hb ha).2, equals_comm]
    | lt => exact horder (by decide) (by decide) rfl
    | le => exact horder (by decide) (by decide) rfl
    | gt => exact horder (by decide) (by decide) rfl
    | ge => exact horder (by decide) (by decide) rfl

/-! ### All relations -/

lemma order?_of_inOrder_lt (h : inOrder .lt a b = .ok true) : order? a b = some .lt := by
  cases ho : order? a b with
  | some o =>
    rw [inOrder_of_order? ho] at h
    cases o <;> first | rfl | cases h
  | none =>
    cases a with
    | number x =>
      cases b with
      | number y =>
        have hnone : x.order? y = none := ho
        rw [inOrder, hnone] at h
        cases h
      | _ => cases h
    | _ => cases b <;> first | cases h | cases ho

/-- A value is before another one exactly if their order says so. -/
lemma compare_lt_iff : compare .lt a b = .ok (.boolean true) ↔ order? a b = some .lt := by
  refine ⟨fun h => ?_, fun h => compare_of_order? h .lt⟩
  have hset : ¬ (a = .unset ∨ b = .unset) := by
    rw [← compare_eq_unset_iff .lt, h]
    exact nofun
  obtain ⟨ha, hb⟩ := not_or.mp hset
  rw [compare_eq_inOrder ha hb (by decide)] at h
  cases hr : inOrder .lt a b with
  | error e => rw [hr] at h; cases h
  | ok r =>
    rw [hr] at h
    cases h
    exact order?_of_inOrder_lt hr

/-- **Comparisons agree with each other.** A relation gives the unset value exactly if an operand is
unset. Between set values `<>` is the negation of `=`, and the other four relations fail exactly on
values of two kinds and on two truth values. `<` and `>` read from the other side are each other,
and so are `<=` and `>=`, also in that they fail. Between two texts, or two numbers neither of which
is a NaN, exactly one of `<`, `=` and `>` holds, `<=` is `<` or `=`, and `>=` is `>` or `=`. `<` is
transitive. A NaN is in no relation to a number but `<>`. -/
theorem compare_consistent (a b : Value) :
    (∀ op, compare op a b = .ok .unset ↔ a = .unset ∨ b = .unset) ∧
    (a ≠ .unset → b ≠ .unset →
      (∃ r, compare .eq a b = .ok (.boolean r) ∧ compare .ne a b = .ok (.boolean !r)) ∧
      ∀ op ∈ [RelOp.lt, .le, .gt, .ge],
        ((∃ e, compare op a b = .error e) ↔
          a.typeName ≠ b.typeName ∨ ∃ p q, a = .boolean p ∧ b = .boolean q) ∧
        ∀ e, compare op a b = .error e → e = mismatch op.symbol a b) ∧
    ((compare .gt b a).toOption = (compare .lt a b).toOption ∧
      (compare .ge b a).toOption = (compare .le a b).toOption) ∧
    (Comparable a b → ∃ l e g : Bool, l.toNat + e.toNat + g.toNat = 1 ∧
      compare .lt a b = .ok (.boolean l) ∧ compare .eq a b = .ok (.boolean e) ∧
      compare .gt a b = .ok (.boolean g) ∧
      compare .le a b = .ok (.boolean (l || e)) ∧ compare .ge a b = .ok (.boolean (g || e))) ∧
    (∀ c, compare .lt a b = .ok (.boolean true) → compare .lt b c = .ok (.boolean true) →
      compare .lt a c = .ok (.boolean true)) ∧
    ∀ x y, a = .number x → b = .number y → x.IsNaN ∨ y.IsNaN →
      ∀ op, compare op a b = .ok (.boolean (decide (op = .ne))) := by
  refine ⟨fun op => compare_eq_unset_iff op, fun ha hb => ⟨⟨_, compare_eq_of_set ha hb⟩, ?_⟩,
    ⟨compare_converse .lt a b, compare_converse .le a b⟩, fun hab => ?_, fun c hab hbc => ?_, ?_⟩
  · intro op hop
    refine ⟨⟨fun ⟨e, he⟩ => ((compare_eq_error_iff ha hb hop e).mp he).1, fun hkinds => ?_⟩,
      fun e he => ((compare_eq_error_iff ha hb hop e).mp he).2⟩
    exact ⟨_, (compare_eq_error_iff ha hb hop _).mpr ⟨hkinds, rfl⟩⟩
  · obtain ⟨o, ho⟩ := hab.exists_order?
    have hcompare := compare_of_order? ho
    refine ⟨o == .lt, o == .eq, o == .gt, ?_, hcompare .lt, hcompare .eq, hcompare .gt, ?_, ?_⟩
    · cases o <;> rfl
    · rw [hcompare]
      cases o <;> rfl
    · rw [hcompare]
      cases o <;> rfl
  · exact compare_lt_iff.mpr (order?_lt_trans (compare_lt_iff.mp hab) (compare_lt_iff.mp hbc))
  · rintro x y rfl rfl hnan op
    exact compare_unordered hnan op

/-- Texts are compared by their code points and not by their lengths, and a NaN differs from
itself. -/
theorem nan_compare_consistent :
    compare .lt (.string "Z") (.string "a") = .ok (.boolean true) ∧
      compare .lt (.string "a") (.string "é") = .ok (.boolean true) ∧
      compare .lt (.string "Z") (.string "é") = .ok (.boolean true) ∧
      Number.nan.IsNaN ∧
      compare .le (.number Number.nan) (.number Number.nan) = .ok (.boolean false) ∧
      compare .ne (.number Number.nan) (.number Number.nan) = .ok (.boolean true) := by
  have hZa : compare .lt (.string "Z") (.string "a") = .ok (.boolean true) := by decide
  have hae : compare .lt (.string "a") (.string "é") = .ok (.boolean true) := by decide
  obtain ⟨-, -, -, -, htrans, -⟩ := compare_consistent (.string "Z") (.string "a")
  have hnan : Number.nan.IsNaN := by
    rw [Number.IsNaN]
    decide +kernel
  obtain ⟨-, -, -, -, -, hdiffers⟩ := compare_consistent (.number Number.nan) (.number Number.nan)
  have hall := hdiffers _ _ rfl rfl (.inl hnan)
  exact ⟨hZa, hae, htrans _ hZa hae, hnan, hall .le, hall .ne⟩

end Value

end LineBasic
