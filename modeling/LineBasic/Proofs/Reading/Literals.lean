import LineBasic.Proofs.Reading.Strings

/-!
# Numbers in a program

The numbers of a program come from its tokens: they are numbers of tokens or negated ones, or the
zero that a minus sign takes its operand from.  A token has the number that its digits denote.  This
may be an infinity, but it is never a NaN.

* `Number.isNaN_iff_unpack`: whether a number is a NaN, said of its sign, mantissa and exponent;
* `Number.not_isNaN_neg`, `Number.not_isNaN_ofDecimal`: operations that make no NaN;
* `Statement.Phrase.literals`: what holds of the numbers of tokens holds of those of a statement;
* `Program.not_isNaN_of_ofText`: no number of a program that is read is a NaN.
-/

namespace LineBasic

namespace Number

open Float.Model (UnpackedFloat)
open Float.Model.UnpackedFloat

/-- Whether a number is a NaN. -/
def IsNaN (x : Number) : Prop := form x = .notANumber

variable {f g : UnpackedFloat} {x : Number}

/-! ### The bits of a NaN -/

/-- A number is a NaN if its magnitude is above that of an infinity. -/
lemma isNaN_iff_magnitude : IsNaN x ↔ infiniteMagnitude < magnitude x := by
  rw [IsNaN, form]
  split
  next h => exact ⟨fun _ => h, fun _ => rfl⟩
  next h =>
    refine ⟨fun hform => ?_, fun hlarge => absurd hlarge h⟩
    split at hform
    next => cases hform
    next => split at hform <;> cases hform

lemma ite_ne {c : Prop} [Decidable c] (hf : f ≠ .notANumber) (hg : g ≠ .notANumber) :
    (if c then f else g) ≠ .notANumber := by
  by_cases h : c
  · rwa [if_pos h]
  · rwa [if_neg h]

lemma dite_ne {c : Prop} [Decidable c] {f : c → UnpackedFloat} {g : ¬ c → UnpackedFloat}
    (hf : ∀ h, f h ≠ .notANumber) (hg : ∀ h, g h ≠ .notANumber) :
    (if h : c then f h else g h) ≠ .notANumber := by
  by_cases h : c
  · rw [dif_pos h]
    exact hf h
  · rw [dif_neg h]
    exact hg h

/-- Bits are those of a NaN if the exponent is full and the mantissa is not zero. -/
lemma unpack_eq_notANumber_iff {b : BitVec 64} :
    unpack .binary64 b = .notANumber ↔
      @unpackExponent .binary64 b = -1#11 ∧ @unpackMantissa .binary64 b ≠ 0#52 := by
  unfold unpack
  by_cases hfull : @unpackExponent .binary64 b = -1#11
  · by_cases hzero : @unpackMantissa .binary64 b = 0#52
    · refine iff_of_false ?_ fun h => h.2 hzero
      exact ne_of_eq_of_ne ((if_pos hfull).trans (if_pos hzero)) nofun
    · exact iff_of_true ((if_pos hfull).trans (if_neg hzero)) ⟨hfull, hzero⟩
  · refine iff_of_false (ne_of_eq_of_ne (if_neg hfull) ?_) fun h => hfull h.1
    exact ite_ne (dite_ne (fun _ => nofun) fun _ => nofun) nofun

/-- The two ways to take a number apart agree on what is a NaN. -/
lemma isNaN_iff_unpack : IsNaN x ↔ x.toModel.unpack = .notANumber := by
  obtain ⟨⟨b, hvalid⟩⟩ := x
  have hexponent : (@unpackExponent .binary64 b.toBitVec).toNat =
      b.toNat / 0x10000000000000 % 2048 := by
    simp [unpackExponent, BitVec.extractLsb_toNat, Nat.shiftRight_eq_div_pow]
  have hmantissa : (@unpackMantissa .binary64 b.toBitVec).toNat = b.toNat % 0x10000000000000 := by
    simp [unpackMantissa]
  have hmagnitude : magnitude ⟨⟨b, hvalid⟩⟩ = b.toNat % 0x8000000000000000 := rfl
  have hfull : (-1#11).toNat = 2047 := rfl
  have hzero : (0#52).toNat = 0 := rfl
  rw [isNaN_iff_magnitude, hmagnitude, infiniteMagnitude]
  refine Iff.trans ?_ unpack_eq_notANumber_iff.symm
  rw [← BitVec.toNat_inj, Ne, ← BitVec.toNat_inj, hexponent, hmantissa, hfull, hzero]
  omega

/-- Bits with a full exponent and no mantissa are not those of a NaN, and neither are bits without
a full exponent. -/
lemma unpack_packComponents_ne {s : Sign} {e : BitVec 11} {m : BitVec 52}
    (h : e = -1#11 → m = 0#52) :
    unpack .binary64 (packComponents .binary64 s e m) ≠ .notANumber := by
  rw [Ne, unpack_eq_notANumber_iff, unpackExponent_packComponents, unpackMantissa_packComponents]
  exact fun hnan => hnan.2 (h hnan.1)

/-- Writing a number in bits makes no NaN. -/
lemma not_isNaN_pack (h : f ≠ .notANumber) : ¬ IsNaN ⟨Float.Model.pack f⟩ := by
  rw [isNaN_iff_unpack]
  show unpack .binary64 (pack .binary64 f) ≠ .notANumber
  cases f with
  | notANumber => exact absurd rfl h
  | infinity s => exact unpack_packComponents_ne fun _ => rfl
  | zero s => exact unpack_packComponents_ne (by decide)
  | finite s m e hm =>
    unfold pack
    dsimp only
    split
    next => exact unpack_packComponents_ne fun _ => rfl
    next hsmall =>
      split
      next =>
        -- an exponent that is not too large for the format is not full
        refine unpack_packComponents_ne fun hfull => absurd hsmall ?_
        have hbits := congrArg BitVec.toNat hfull
        simp at hbits
        simp
        omega
      next => exact unpack_packComponents_ne fun h => absurd h (by decide)

/-! ### Numbers that digits denote -/

lemma roundWithAccuracy_ne (s : Sign) (m : Nat) (e : Int) (a : Accuracy) :
    roundWithAccuracy .binary64 s m e a ≠ .notANumber := by
  unfold roundWithAccuracy
  exact dite_ne (fun _ => nofun) fun _ => nofun

/-- Multiplying by a finite number that is not zero makes no NaN. -/
lemma mul_ne (hf : f ≠ .notANumber) (hg : (g matches .finite ..) = true) :
    mul .binary64 f g ≠ .notANumber := by
  cases g with
  | finite s m e hm =>
    cases f with
    | notANumber => exact absurd rfl hf
    | infinity s => exact nofun
    | zero s => exact nofun
    | finite s m e hm => exact roundWithAccuracy_ne _ _ _ _
  | _ => cases hg

/-- Dividing by a finite number that is not zero makes no NaN. -/
lemma div_ne (hf : f ≠ .notANumber) (hg : (g matches .finite ..) = true) :
    div .binary64 f g ≠ .notANumber := by
  cases g with
  | finite s m e hm =>
    cases f with
    | notANumber => exact absurd rfl hf
    | infinity s => exact nofun
    | zero s => exact nofun
    | finite s m e hm => exact roundWithAccuracy_ne _ _ _ _
  | _ => cases hg

/-- Rounding a decimal makes no NaN. -/
lemma ofScientific_ne (m : Nat) (e : Int) :
    UnpackedFloat.ofScientific .binary64 m e ≠ .notANumber := by
  unfold UnpackedFloat.ofScientific
  refine dite_ne (fun _ => nofun) fun _ => ite_ne nofun (ite_ne nofun (ite_ne ?_ ?_))
  · exact roundWithAccuracy_ne _ _ _ _
  · exact roundWithAccuracy_ne _ _ _ _

lemma unpack_toFloat_ne (n : UInt64) : n.toFloat.toModel.unpack ≠ .notANumber := by
  refine mt isNaN_iff_unpack.mpr (not_isNaN_pack ?_)
  rw [UnpackedFloat.ofUInt64, UnpackedFloat.ofNat, UnpackedFloat.ofInt, UnpackedFloat.normalize]
  split
  · exact roundWithAccuracy_ne _ _ _ _
  · exact nofun
  · exact roundWithAccuracy_ne _ _ _ _

/-- The number nearest to a decimal is not a NaN. -/
lemma not_isNaN_ofScientific (m : Nat) (s : Bool) (e : Nat) :
    ¬ IsNaN (Float.ofScientific m s e) := by
  rw [Float.ofScientific]
  split
  next h =>
    -- short decimals are a product or quotient with a power of ten
    have hpower : ∀ i : Fin 23,
        (Float.exactlyRepresentablePowersOfTen[i].toModel.unpack matches .finite ..) = true := by
      decide +kernel
    have hfinite := hpower ⟨e, Nat.lt_succ_of_le h.2⟩
    dsimp only
    split
    · exact not_isNaN_pack (div_ne (unpack_toFloat_ne _) hfinite)
    · exact not_isNaN_pack (mul_ne (unpack_toFloat_ne _) hfinite)
  next => exact not_isNaN_pack (ofScientific_ne m _)

lemma not_isNaN_zero : ¬ IsNaN 0 := not_isNaN_ofScientific 0 false 0

/-- Digits do not denote a NaN. -/
lemma not_isNaN_ofDecimal (whole fraction : List Char) (power : Int) :
    ¬ IsNaN (ofDecimal whole fraction power) := by
  rw [ofDecimal]
  split
  · exact not_isNaN_zero
  split
  · rw [IsNaN]
    decide +kernel
  split
  · exact not_isNaN_zero
  · exact not_isNaN_ofScientific _ _ _

/-- Negation makes no NaN. -/
lemma not_isNaN_neg (h : ¬ IsNaN x) : ¬ IsNaN (-x) := by
  rw [isNaN_iff_unpack] at h
  refine not_isNaN_pack ?_
  cases hx : x.toModel.unpack with
  | notANumber => exact absurd hx h
  | _ => exact nofun

end Number

/-! ### Numbers of tokens -/

section Phrases

variable {P : Number → Prop} {ts : List Token}

/-- What holds of the numbers of tokens and of zero, and is kept by negation, holds of the numbers
in an expression. -/
lemma Expr.Phrase.literals (hzero : P 0) (hneg : ∀ x, P x → P (-x)) {k : Level} {e : Expr}
    (h : Expr.Phrase k ts e) (hts : ∀ t ∈ ts, ∀ x, t.kind = .number x → P x) :
    ∀ x ∈ e.literals, P x := by
  induction h with
  | number => simpa [Expr.literals] using hts
  | string => simp [Expr.literals]
  | ident => simp [Expr.literals]
  | parens ht hu h ih => exact ih fun t ht => hts t (by simp [ht])
  | @minusLiteral t ts x s ht h ih =>
    have hx := ih (fun t ht => hts t (List.mem_cons_of_mem _ ht)) x List.mem_cons_self
    simpa [Expr.literals] using hneg x hx
  | minus ht h he ih =>
    refine List.forall_mem_cons.mpr ⟨hzero, ih fun t ht => hts t (List.mem_cons_of_mem _ ht)⟩
  | binary ht ha hb iha ihb =>
    refine List.forall_mem_append.mpr ⟨iha fun t ht => hts t ?_, ihb fun t ht => hts t ?_⟩
    · exact List.mem_append_left _ ht
    · exact List.mem_append_right _ (List.mem_cons_of_mem _ ht)
  | tighter h ih => exact ih hts

/-- The same for the numbers in a statement. -/
lemma Statement.Phrase.literals (hzero : P 0) (hneg : ∀ x, P x → P (-x)) {k : Place}
    {s : Statement} (h : Statement.Phrase k ts s)
    (hts : ∀ t ∈ ts, ∀ x, t.kind = .number x → P x) : ∀ x ∈ s.literals, P x := by
  have hexpr {us vs : List Token} {e : Expr} (he : Expr.Phrase .relation us e)
      (hus : ∀ t ∈ us, t ∈ vs) (hvs : ∀ t ∈ vs, ∀ x, t.kind = .number x → P x) :
      ∀ x ∈ e.literals, P x :=
    he.literals hzero hneg fun t ht => hvs t (hus t ht)
  induction h with
  | assign h =>
    obtain ⟨-, -, he⟩ := h
    exact hexpr he (fun t ht => by simp [ht]) hts
  | letAssign hw h =>
    obtain ⟨-, -, he⟩ := h
    exact hexpr he (fun t ht => by simp [ht]) hts
  | printBlank hw => simp [Statement.literals]
  | print hw he => simpa [Statement.literals] using hexpr he (fun t ht => by simp [ht]) hts
  | ifThen hw hc hu hb ih =>
    refine List.forall_mem_append.mpr ⟨hexpr hc (fun t ht => by simp [ht]) hts, ih fun t ht => ?_⟩
    exact hts t (by simp [ht])
  | ifThenElse hw hc hu ha closed hv hb iha ihb =>
    rw [Statement.literals, List.forall_mem_append, List.forall_mem_append]
    refine ⟨⟨hexpr hc (fun t ht => by simp [ht]) hts, iha fun t ht => ?_⟩, ihb fun t ht => ?_⟩
    · exact hts t (by simp [ht])
    · exact hts t (by simp [ht])
  | goto hw he => exact hexpr he (fun t ht => by simp [ht]) hts
  | gosub hw he => exact hexpr he (fun t ht => by simp [ht]) hts
  | ret hw => simp [Statement.literals]
  | input hw h => simp [Statement.literals]
  | halt hw => simp [Statement.literals]
  | jump => simpa [Statement.literals, Expr.literals] using hts
  | branch h ih => exact ih hts

end Phrases

/-- The digits of a token do not denote a NaN. -/
lemma Scan.Spelled.not_isNaN {text : List Char} {x : Number}
    (h : Spelled text (.token (.number x))) : ¬ x.IsNaN := by
  obtain ⟨whole, fraction, rfl⟩ := h.eq_of_number
  exact Number.not_isNaN_ofDecimal whole fraction 0

/-- The numbers of a program that is read from a text are no NaNs. -/
lemma Program.not_isNaN_of_ofText {source : String} {p : Program} (h : ofText source = .ok p) :
    ∀ l ∈ p.lines, ∀ x ∈ l.statement.literals, ¬ x.IsNaN := by
  obtain ⟨tokens, hscan, hlines⟩ := readFrom_of_ofText h
  intro l hl
  obtain ⟨ts, hts, hread⟩ := hlines l hl
  obtain ⟨-, hst⟩ := hread
  refine hst.literals (P := fun x => ¬ x.IsNaN) Number.not_isNaN_zero
    (fun _ => Number.not_isNaN_neg) fun t ht x hkind => ?_
  obtain ⟨text, hspelled⟩ := Scan.spelled_of_mem_scan hscan (hts t (List.mem_cons_of_mem _ ht))
  rw [hkind] at hspelled
  exact hspelled.not_isNaN

end LineBasic
