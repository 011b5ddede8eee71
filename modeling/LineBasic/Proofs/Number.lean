import LineBasic.Number.Whole
import LineBasic.Program
import Mathlib.Tactic.Lemma

/-!
# Numbers in the range of line numbers

The order of numbers is read off their bits, and so is their whole part.  Between zero and the
greatest line number the two agree.

* `Number.wholePart_nonneg`: a number that is not below zero has no whole part below zero;
* `Number.size_le_maxLineNumber`: the bits of a number that is not above the greatest line number
  leave it with no whole part above it;
* `Number.toLine_of_inRange`: as a jump target such a number names its whole part;
* `Number.toLine_of_not_inLineRange`: outside that range, a number names no line number but the
  least and the greatest one.
-/

namespace LineBasic.Number

/-! ### Order and bits -/

lemma rank?_zero : rank? 0 = some 0 := by decide +kernel

lemma rank?_maxLineNumber : rank? maxLineNumber.toFloat = some 0x41EFFFFFFFE00000 := by
  decide +kernel

lemma rank?_le_of_atMost {x y : Number} (h : atMost x y = true) :
    ∃ i j, rank? x = some i ∧ rank? y = some j ∧ i ≤ j := by
  rw [atMost, order?] at h
  cases hx : rank? x with
  | none => simp [hx] at h
  | some i =>
    cases hy : rank? y with
    | none => simp [hx, hy] at h
    | some j =>
      refine ⟨i, j, rfl, rfl, ?_⟩
      simp only [hx, hy, Bool.or_eq_true, beq_iff_eq, Option.some.injEq] at h
      rcases h with h | h
      · exact Int.le_of_lt (Int.compare_eq_lt.mp h)
      · exact Int.le_of_eq (Int.compare_eq_eq.mp h)

lemma atMost_of_rank? {x y : Number} {i j : Int} (hx : rank? x = some i) (hy : rank? y = some j)
    (h : i ≤ j) : atMost x y = true := by
  rw [atMost, order?, hx, hy]
  rcases Int.lt_or_eq_of_le h with hlt | rfl
  · simp [Int.compare_eq_lt.mpr hlt]
  · simp

/-- A place at or after zero belongs to a number without sign, or to the negative zero. -/
lemma magnitude_of_rank? {x : Number} {i : Int} (h : rank? x = some i) (hi : 0 ≤ i) :
    (magnitude x : Int) = i ∧ (signed x = true → magnitude x = 0) := by
  rw [rank?] at h
  split at h
  next => cases h
  next =>
    injection h with h
    split at h
    next hs =>
      have h0 : magnitude x = 0 := by omega
      exact ⟨by omega, fun _ => h0⟩
    next hs => exact ⟨h, fun hs' => absurd hs' hs⟩

/-! ### Whole parts -/

/-- The parts of a finite number, read off its magnitude. -/
lemma form_eq_finite {x : Number} {negative : Bool} {m : Nat} {q : Int}
    (h : form x = .finite negative m q) :
    negative = signed x ∧
      (magnitude x / 0x10000000000000 = 0 ∧ m = magnitude x % 0x10000000000000 ∧ q = -1074 ∨
        0 < magnitude x / 0x10000000000000 ∧
          m = 0x10000000000000 + magnitude x % 0x10000000000000 ∧
          q = (magnitude x / 0x10000000000000 : Nat) - 1075) := by
  rw [form] at h
  split at h
  next => cases h
  next =>
    split at h
    next => cases h
    next =>
      split at h
      next hzero =>
        cases h
        exact ⟨rfl, .inl ⟨hzero, rfl, rfl⟩⟩
      next hpos =>
        cases h
        exact ⟨rfl, .inr ⟨Nat.pos_of_ne_zero hpos, rfl, rfl⟩⟩

lemma exists_form_of_magnitude {x : Number} (h : magnitude x < infiniteMagnitude) :
    ∃ negative m q, form x = .finite negative m q := by
  rw [infiniteMagnitude] at h
  rw [form, infiniteMagnitude]
  rw [if_neg (by omega), if_neg (by omega)]
  split
  next => exact ⟨_, _, _, rfl⟩
  next => exact ⟨_, _, _, rfl⟩

/-- A number at or after zero has the whole part that its mantissa and exponent give. -/
lemma wholePart_of_rank? {x : Number} {i : Int} (h : rank? x = some i) (hi : 0 ≤ i)
    {negative : Bool} {m : Nat} {q : Int} (hform : form x = .finite negative m q) :
    wholePart x = (m <<< q.toNat >>> (-q).toNat : Nat) := by
  obtain ⟨-, hzero⟩ := magnitude_of_rank? h hi
  obtain ⟨hneg, hparts⟩ := form_eq_finite hform
  rw [wholePart, hform]
  simp only
  split
  next hsign =>
    -- only the negative zero has a sign here
    have hmag : magnitude x = 0 := hzero (hneg ▸ hsign)
    have hm : m = 0 := by
      rcases hparts with ⟨-, hm, -⟩ | ⟨hpos, -, -⟩
      · rw [hm, hmag, Nat.zero_mod]
      · rw [hmag] at hpos
        cases hpos
    simp [hm]
  next => rfl

lemma wholePart_nonneg {x : Number} (h : atMost 0 x = true) : 0 ≤ wholePart x := by
  obtain ⟨i, j, hi, hj, hij⟩ := rank?_le_of_atMost h
  rw [rank?_zero] at hi
  injection hi with hi
  cases hform : form x with
  | finite negative m q =>
    rw [wholePart_of_rank? hj (hi ▸ hij) hform]
    exact Int.natCast_nonneg _
  | notANumber => simp [wholePart, hform]
  | infinite negative => simp [wholePart, hform]

/-- The bits of a number at or before the greatest line number leave it with at most 32 places
before the point. -/
lemma size_le_maxLineNumber {magnitude m : Nat} {q : Int} (h : magnitude ≤ 0x41EFFFFFFFE00000)
    (hparts : magnitude / 0x10000000000000 = 0 ∧ m = magnitude % 0x10000000000000 ∧ q = -1074 ∨
      0 < magnitude / 0x10000000000000 ∧
        m = 0x10000000000000 + magnitude % 0x10000000000000 ∧
        q = (magnitude / 0x10000000000000 : Nat) - 1075) :
    m <<< q.toNat >>> (-q).toNat ≤ maxLineNumber := by
  have hq : q.toNat = 0 := by omega
  have hm : m < 2 ^ 53 := by omega
  rw [hq, Nat.shiftLeft_zero, Nat.shiftRight_eq_div_pow]
  by_cases hlarge : (-q).toNat = 21
  · -- the numbers from 2 ^ 31 on: here the fraction decides
    have hm' : m ≤ 0x1FFFFFFFE00000 := by omega
    rw [hlarge]
    exact Nat.div_le_div_right hm'
  · have hd : 22 ≤ (-q).toNat := by omega
    calc m / 2 ^ (-q).toNat
        ≤ m / 2 ^ 22 := Nat.div_le_div_left (Nat.pow_le_pow_right (by decide) hd) (by decide)
      _ ≤ (2 ^ 53 - 1) / 2 ^ 22 := Nat.div_le_div_right (Nat.le_sub_one_of_lt hm)
      _ ≤ maxLineNumber := by decide

/-- Between zero and the greatest line number, the line that a number names is its whole part,
and it is in that range too. -/
theorem toLine_of_inRange {x : Number} (h0 : atMost 0 x = true)
    (h1 : atMost x maxLineNumber.toFloat = true) :
    toLine x = wholePart x ∧ 0 ≤ wholePart x ∧ wholePart x ≤ maxLineNumber := by
  have hnonneg := wholePart_nonneg h0
  obtain ⟨i, j, hi, hj, hij⟩ := rank?_le_of_atMost h0
  obtain ⟨j', k, hj', hk, hjk⟩ := rank?_le_of_atMost h1
  rw [rank?_zero] at hi
  rw [rank?_maxLineNumber] at hk
  cases hi
  cases hk
  cases hj.symm.trans hj'
  obtain ⟨hmag, -⟩ := magnitude_of_rank? hj hij
  have hle : magnitude x ≤ 0x41EFFFFFFFE00000 := by omega
  obtain ⟨negative, m, q, hform⟩ := exists_form_of_magnitude (Nat.lt_of_le_of_lt hle (by decide))
  have hmax : wholePart x ≤ maxLineNumber := by
    rw [wholePart_of_rank? hj hij hform]
    exact Int.ofNat_le.mpr (size_le_maxLineNumber hle (form_eq_finite hform).2)
  refine ⟨?_, hnonneg, hmax⟩
  rw [toLine, hform]
  simp only [minLine, maxLine]
  have : (maxLineNumber : Int) = 4294967295 := rfl
  omega

/-! ### Numbers outside the range -/

/-- Whether a number is between zero and the greatest line number. -/
def inLineRange (x : Number) : Bool := atMost 0 x && atMost x maxLineNumber.toFloat

/-- The bits of a number after the greatest line number leave it with no whole part below that
number. -/
lemma maxLineNumber_le_size {magnitude m : Nat} {q : Int} (h : 0x41EFFFFFFFE00000 < magnitude)
    (hparts : magnitude / 0x10000000000000 = 0 ∧ m = magnitude % 0x10000000000000 ∧ q = -1074 ∨
      0 < magnitude / 0x10000000000000 ∧
        m = 0x10000000000000 + magnitude % 0x10000000000000 ∧
        q = (magnitude / 0x10000000000000 : Nat) - 1075) :
    maxLineNumber ≤ m <<< q.toNat >>> (-q).toNat := by
  rw [Nat.shiftRight_eq_div_pow]
  have hm : 2 ^ 52 ≤ m := by omega
  have hshift : m ≤ m <<< q.toNat := by
    rw [Nat.shiftLeft_eq]
    exact Nat.le_mul_of_pos_right m (Nat.two_pow_pos _)
  by_cases hlarge : (-q).toNat = 21
  · -- the numbers below 2 ^ 32: here the fraction decides
    have hm' : 0x1FFFFFFFE00000 ≤ m := by omega
    rw [hlarge]
    calc maxLineNumber = 0x1FFFFFFFE00000 / 2 ^ 21 := by decide
      _ ≤ m <<< q.toNat / 2 ^ 21 := Nat.div_le_div_right (Nat.le_trans hm' hshift)
  · have hd : (-q).toNat ≤ 20 := by omega
    calc maxLineNumber ≤ 2 ^ 52 / 2 ^ 20 := by decide
      _ ≤ m <<< q.toNat / 2 ^ 20 := Nat.div_le_div_right (Nat.le_trans hm hshift)
      _ ≤ m <<< q.toNat / 2 ^ (-q).toNat :=
        Nat.div_le_div_left (Nat.pow_le_pow_right (by decide) hd) (Nat.two_pow_pos _)

lemma magnitude_le_of_form {x : Number} {negative : Bool} {m : Nat} {q : Int}
    (h : form x = .finite negative m q) : magnitude x ≤ infiniteMagnitude := by
  refine Nat.le_of_not_lt fun hlarge => ?_
  rw [form, if_pos hlarge] at h
  cases h

/-- A number outside the range of line numbers names no line number but the least and the greatest
one. -/
theorem toLine_of_not_inLineRange {x : Number} (h : inLineRange x = false) (hnonneg : 0 ≤ toLine x)
    (hmax : toLine x ≤ maxLineNumber) : toLine x = 0 ∨ toLine x = maxLineNumber := by
  cases hform : form x with
  | notANumber =>
    rw [toLine, hform]
    exact .inl rfl
  | infinite negative =>
    rw [toLine, hform] at hnonneg hmax
    cases negative with
    | true => exact absurd hnonneg (show ¬ 0 ≤ minLine by decide)
    | false => exact absurd hmax (show ¬ maxLine ≤ maxLineNumber by decide)
  | finite negative m q =>
    obtain ⟨hsign, hparts⟩ := form_eq_finite hform
    have hline : toLine x = max minLine (min maxLine (wholePart x)) := by rw [toLine, hform]
    have hlow : minLine ≤ 0 := by decide
    have hhigh : (maxLineNumber : Int) ≤ maxLine := by decide
    cases negative with
    | true =>
      have hwhole : wholePart x ≤ 0 := by
        rw [wholePart, hform]
        exact Int.neg_nonpos_of_nonneg (Int.natCast_nonneg _)
      exact .inl (by omega)
    | false =>
      have hrank : rank? x = some (magnitude x : Int) := by
        rw [rank?, if_neg (Nat.not_lt.mpr (magnitude_le_of_form hform)), if_neg (by simp [← hsign])]
      have hlarge : 0x41EFFFFFFFE00000 < magnitude x := by
        refine Nat.lt_of_not_le fun hsmall => ?_
        have hzero := atMost_of_rank? rank?_zero hrank (Int.natCast_nonneg _)
        have hle := atMost_of_rank? hrank rank?_maxLineNumber (by omega)
        rw [inLineRange, hzero, hle] at h
        cases h
      have hwhole : (maxLineNumber : Int) ≤ wholePart x := by
        rw [wholePart, hform]
        exact Int.ofNat_le.mpr (maxLineNumber_le_size hlarge hparts)
      exact .inr (by omega)

end LineBasic.Number
