import AjpGateway.Config.Settings
import Mathlib.Algebra.GroupWithZero.Nat

/-!
# Loads are ordered by their bits

A load is a float from zero up, infinity included.  The bits of such a float, read as a number, are
its place in the order: `place m e` for the mantissa `m` at the exponent `e`.  So the order of loads
is that of their bits, and a sum, though it is rounded, is at no lower place than what was added to.

    IsLoad x → IsLoad y → (x ≤ y ↔ bits x ≤ bits y)                            (le_iff_bits)
    IsLoad x → IsLoad y → IsLoad (x + y) ∧ x ≤ x + y                           (IsLoad.add)
    IsLoad x → IsLoad y → IsLoad (max x y) ∧ x ≤ max x y ∧ y ≤ max x y         (IsLoad.max)
-/

namespace AjpGateway.Load

open Float.Model Float.Model.UnpackedFloat

/-! ## The fields of a float -/

theorem toNat_unpackMantissa (b : BitVec Format.binary64.numBits) :
    (unpackMantissa b).toNat = b.toNat % 2 ^ 52 := by
  simp [unpackMantissa, BitVec.extractLsb_toNat]

theorem toNat_unpackExponent (b : BitVec Format.binary64.numBits) :
    (unpackExponent b).toNat = b.toNat / 2 ^ 52 % 2 ^ 11 := by
  simp [unpackExponent, BitVec.extractLsb_toNat, Nat.shiftRight_eq_div_pow]

theorem toNat_unpackSign (b : BitVec Format.binary64.numBits) :
    (unpackSign b).toNat = b.toNat / 2 ^ 63 % 2 := by
  show (b.extractLsb 63 63).toNat = _
  rw [BitVec.extractLsb_toNat, Nat.shiftRight_eq_div_pow]

theorem unpackMantissa_eq_zero_iff {b : BitVec Format.binary64.numBits} :
    unpackMantissa b = 0#52 ↔ b.toNat % 2 ^ 52 = 0 := by
  rw [← toNat_unpackMantissa, ← BitVec.toNat_inj]
  rfl

theorem unpackExponent_eq_zero_iff {b : BitVec Format.binary64.numBits} :
    unpackExponent b = 0#11 ↔ b.toNat / 2 ^ 52 % 2 ^ 11 = 0 := by
  rw [← toNat_unpackExponent, ← BitVec.toNat_inj]
  rfl

theorem unpackExponent_eq_top_iff {b : BitVec Format.binary64.numBits} :
    unpackExponent b = -1#11 ↔ b.toNat / 2 ^ 52 % 2 ^ 11 = 2047 := by
  rw [← toNat_unpackExponent, ← BitVec.toNat_inj]
  rfl

theorem unpackSign_eq_zero_iff {b : BitVec Format.binary64.numBits} :
    unpackSign b = 0#1 ↔ b.toNat < 2 ^ 63 := by
  have hlt : b.toNat < 2 ^ 64 := b.isLt
  rw [← BitVec.toNat_inj, toNat_unpackSign]
  show b.toNat / 2 ^ 63 % 2 = 0 ↔ _
  omega

theorem ofBitVec_unpackSign (b : BitVec Format.binary64.numBits) :
    Sign.ofBitVec (unpackSign b) = if b.toNat < 2 ^ 63 then .positive else .negative :=
  if_congr unpackSign_eq_zero_iff rfl rfl

theorem toNat_append {k n : Nat} (v : BitVec k) (w : BitVec n) :
    (v ++ w).toNat = v.toNat * 2 ^ n + w.toNat := by
  rw [BitVec.toNat_append, ← Nat.shiftLeft_add_eq_or_of_lt w.isLt, Nat.shiftLeft_eq]

theorem toNat_packComponents (e : BitVec Format.binary64.exponentBits)
    (m : BitVec Format.binary64.mantissaBitsWithoutImplicit) :
    (packComponents .binary64 .positive e m).toNat = e.toNat * 2 ^ 52 + m.toNat := by
  unfold packComponents
  rw [toNat_append, toNat_append]
  show (0 * 2 ^ 11 + e.toNat) * 2 ^ 52 + m.toNat = _
  omega

theorem toNat_packedInfinity : (packedInfinity .binary64 .positive).toNat = 2047 * 2 ^ 52 := rfl

/-! ## The place of a mantissa at an exponent -/

/-- What is read from the bits of a positive float: the mantissa has 53 bits, the first of which is
set unless the exponent is the least one. -/
structure Fits (m : Nat) (e : Int) : Prop where
  low : -1074 ≤ e
  high : m < 2 ^ 53
  full : 2 ^ 52 ≤ m ∨ e = -1074

/-- The bits of a positive float. -/
def place (m : Nat) (e : Int) : Nat := (e + 1074).toNat * 2 ^ 52 + m

/-- Places go by the exponent first. -/
theorem Fits.place_le_iff {m₁ m₂ : Nat} {e₁ e₂ : Int} (h₁ : Fits m₁ e₁) (h₂ : Fits m₂ e₂) :
    place m₁ e₁ ≤ place m₂ e₂ ↔ e₁ < e₂ ∨ e₁ = e₂ ∧ m₁ ≤ m₂ := by
  obtain ⟨hlow₁, hhigh₁, hfull₁⟩ := h₁
  obtain ⟨hlow₂, hhigh₂, hfull₂⟩ := h₂
  unfold place
  omega

/-- Packing keeps the place, up to that of infinity. -/
theorem Fits.toNat_pack {m : Nat} {e : Int} (h : Fits m e) (hm : 0 < m) :
    (UnpackedFloat.pack .binary64 (.finite .positive m e hm)).toNat =
      min (place m e) (2047 * 2 ^ 52) := by
  obtain ⟨hlow, hhigh, hfull⟩ := h
  have hbias : Format.binary64.exponentBias = 1023 := rfl
  have hwidth : Format.binary64.mantissaBits = 53 := rfl
  have hnormal : m.log2 + 1 = 53 ↔ 2 ^ 52 ≤ m := by
    have hshort := Nat.log2_lt (n := m) (k := 52) (by omega)
    have hlong := Nat.log2_lt (n := m) (k := 53) (by omega)
    omega
  unfold UnpackedFloat.pack place
  dsimp only
  rw [hbias, hwidth]
  split
  · rw [toNat_packedInfinity]
    omega
  · split
    · next hfirst =>
      rw [hnormal] at hfirst
      rw [toNat_packComponents, BitVec.toNat_ofNat, BitVec.toNat_ofNat]
      dsimp only
      omega
    · next hfirst =>
      rw [hnormal] at hfirst
      rw [toNat_packComponents, BitVec.toNat_ofNat, BitVec.toNat_ofNat]
      dsimp only
      omega

/-- Unpacking by the bits below the sign. -/
theorem unpack_cases (b : BitVec Format.binary64.numBits) :
    (b.toNat % 2 ^ 63 = 2047 * 2 ^ 52 ∧
      UnpackedFloat.unpack .binary64 b = .infinity (Sign.ofBitVec (unpackSign b))) ∨
    (2047 * 2 ^ 52 < b.toNat % 2 ^ 63 ∧ UnpackedFloat.unpack .binary64 b = .notANumber) ∨
    (b.toNat % 2 ^ 63 = 0 ∧
      UnpackedFloat.unpack .binary64 b = .zero (Sign.ofBitVec (unpackSign b))) ∨
    ∃ m e hm, Fits m e ∧ b.toNat % 2 ^ 63 = place m e ∧ place m e < 2047 * 2 ^ 52 ∧
      UnpackedFloat.unpack .binary64 b = .finite (Sign.ofBitVec (unpackSign b)) m e hm := by
  have hm := toNat_unpackMantissa b
  have he := toNat_unpackExponent b
  have hbias : Format.binary64.exponentBias = 1023 := rfl
  unfold UnpackedFloat.unpack place
  dsimp only
  rw [hbias]
  by_cases htop : b.toNat / 2 ^ 52 % 2 ^ 11 = 2047
  · rw [if_pos (unpackExponent_eq_top_iff.2 htop)]
    by_cases hnone : b.toNat % 2 ^ 52 = 0
    · exact .inl ⟨by omega, if_pos (unpackMantissa_eq_zero_iff.2 hnone)⟩
    · exact .inr (.inl ⟨by omega, if_neg (mt unpackMantissa_eq_zero_iff.1 hnone)⟩)
  rw [if_neg (mt unpackExponent_eq_top_iff.1 htop)]
  by_cases hbottom : b.toNat / 2 ^ 52 % 2 ^ 11 = 0
  · rw [if_pos (unpackExponent_eq_zero_iff.2 hbottom)]
    by_cases hnone : b.toNat % 2 ^ 52 = 0
    · exact .inr (.inr (.inl ⟨by omega, dif_pos (unpackMantissa_eq_zero_iff.2 hnone)⟩))
    · rw [dif_neg (mt unpackMantissa_eq_zero_iff.1 hnone)]
      exact .inr (.inr (.inr ⟨_, _, by omega, ⟨by omega, by omega, .inr (by omega)⟩, by omega,
        by omega, rfl⟩))
  · have hfirst : (1#1 ++ unpackMantissa b).toNat = 2 ^ 52 + (unpackMantissa b).toNat := by
      rw [toNat_append]
      rfl
    rw [if_neg (mt unpackExponent_eq_zero_iff.1 hbottom)]
    exact .inr (.inr (.inr ⟨_, _, by omega, ⟨by omega, by omega, .inl (by omega)⟩, by omega,
      by omega, rfl⟩))

/-! ## What is read from the bits of a load -/

/-- `Reads n u`: the bits `n` are those of the load `u`. -/
inductive Reads : Nat → UnpackedFloat → Prop
  | zero : Reads 0 (.zero .positive)
  | finite {m : Nat} {e : Int} (hm : 0 < m) (hfits : Fits m e)
      (hlt : place m e < 2047 * 2 ^ 52) : Reads (place m e) (.finite .positive m e hm)
  | infinity : Reads (2047 * 2 ^ 52) (.infinity .positive)

theorem reads_unpack {b : BitVec Format.binary64.numBits} (h : b.toNat ≤ 2047 * 2 ^ 52) :
    Reads b.toNat (UnpackedFloat.unpack .binary64 b) := by
  have hmod : b.toNat % 2 ^ 63 = b.toNat := Nat.mod_eq_of_lt (by omega)
  have hcases := unpack_cases b
  rw [hmod, ofBitVec_unpackSign, if_pos (by omega)] at hcases
  rcases hcases with ⟨hb, hu⟩ | ⟨hb, -⟩ | ⟨hb, hu⟩ | ⟨m, e, hm, hfits, hb, hlt, hu⟩
  · rw [hb, hu]
    exact .infinity
  · omega
  · rw [hb, hu]
    exact .zero
  · rw [hb, hu]
    exact .finite hm hfits hlt

/-- What is greater than zero was read from the bits of a load. -/
theorem toNat_le_of_unpack {b : BitVec Format.binary64.numBits}
    (h : (UnpackedFloat.zero .positive).lt (UnpackedFloat.unpack .binary64 b) = true) :
    b.toNat ≤ 2047 * 2 ^ 52 := by
  have hcases := unpack_cases b
  rw [ofBitVec_unpackSign] at hcases
  by_cases hsign : b.toNat < 2 ^ 63
  · rw [if_pos hsign] at hcases
    rcases hcases with ⟨hb, -⟩ | ⟨-, hu⟩ | ⟨hb, -⟩ | ⟨m, e, hm, -, hb, hlt, -⟩
    · omega
    · rw [hu] at h
      cases h
    · omega
    · omega
  · rw [if_neg hsign] at hcases
    rcases hcases with ⟨-, hu⟩ | ⟨-, hu⟩ | ⟨-, hu⟩ | ⟨m, e, hm, -, -, -, hu⟩
    all_goals
      rw [hu] at h
      cases h

theorem Reads.le_iff {n₁ n₂ : Nat} {u₁ u₂ : UnpackedFloat} (h₁ : Reads n₁ u₁) (h₂ : Reads n₂ u₂) :
    u₁.le u₂ = true ↔ n₁ ≤ n₂ := by
  cases h₁ with
  | zero => exact iff_of_true (by cases h₂ <;> rfl) (Nat.zero_le _)
  | @finite m₁ e₁ hm₁ hfits₁ hlt₁ =>
    cases h₂ with
    | zero => exact iff_of_false Bool.false_ne_true (by unfold place; omega)
    | @finite m₂ e₂ hm₂ hfits₂ hlt₂ =>
      show ((compare e₁ e₂).then (compare m₁ m₂)).isLE = true ↔ _
      rw [hfits₁.place_le_iff hfits₂, Ordering.isLE_then_iff_or, Int.compare_eq_lt,
        Int.compare_eq_eq, Nat.isLE_compare]
    | infinity => exact iff_of_true rfl (Nat.le_of_lt hlt₁)
  | infinity =>
    cases h₂ with
    | zero => exact iff_of_false Bool.false_ne_true (by omega)
    | finite _ _ hlt₂ => exact iff_of_false Bool.false_ne_true (by omega)
    | infinity => exact iff_of_true rfl (Nat.le_refl _)

/-! ## Rounding -/

theorem binary64_targetExponent (t : Int) :
    Format.binary64.targetExponent t = max (t - 53) (-1074) := rfl

theorem mantissa_shiftRight (em : ExtendedMantissa) (k : Nat) :
    (em >>> k).mantissa = em.mantissa / 2 ^ k := by
  show (k.repeat ExtendedMantissa.shiftRightOne em).mantissa = _
  induction k with
  | zero => rw [Nat.repeat, Nat.pow_zero, Nat.div_one]
  | succ k ih =>
    rw [Nat.repeat, ExtendedMantissa.shiftRightOne, ih, Nat.div_div_eq_div_mul, Nat.pow_succ]

/-- Rounding goes up by one at most, and never down. -/
theorem roundedMantissa_bounds (em : ExtendedMantissa) :
    em.mantissa ≤ em.roundedMantissa ∧ em.roundedMantissa ≤ em.mantissa + 1 := by
  unfold ExtendedMantissa.roundedMantissa
  rcases em.accuracy with - | (- | - | -) <;> simp only [Accuracy.roundToNearestEven] <;> omega

variable {M : Nat} {E T : Int}

/-- Shifting a mantissa right to its target exponent leaves one that fits. -/
theorem fits_shift (hM : 0 < M) (hE : -1074 ≤ E)
    (hT : Format.binary64.targetExponent (totalExponent M E) = T) (hET : E ≤ T) :
    0 < M / 2 ^ (T - E).toNat ∧ Fits (M / 2 ^ (T - E).toNat) T := by
  rw [binary64_targetExponent] at hT
  unfold totalExponent at hT
  generalize hd : (T - E).toNat = d
  by_cases hlow : T = M.log2 + 1 + E - 53
  · have hlog : M.log2 = 52 + d := by omega
    have hfirst : 2 ^ 52 * 2 ^ d ≤ M := by
      rw [← Nat.pow_add, ← hlog]
      exact Nat.log2_self_le (Nat.ne_of_gt hM)
    have hlast : M < 2 ^ 53 * 2 ^ d := by
      rw [← Nat.pow_add, show 53 + d = M.log2 + 1 by omega]
      exact Nat.lt_log2_self
    have hge := (Nat.le_div_iff_mul_le (Nat.two_pow_pos d)).2 hfirst
    have hlt := (Nat.div_lt_iff_lt_mul (Nat.two_pow_pos d)).2 hlast
    exact ⟨by omega, by omega, hlt, .inl hge⟩
  · have hzero : d = 0 := by omega
    have hlt : M < 2 ^ 53 := (Nat.log2_lt (by omega)).1 (by omega)
    rw [hzero, Nat.pow_zero, Nat.div_one]
    exact ⟨hM, by omega, hlt, .inr (by omega)⟩

/-- A mantissa of at most `2 ^ 53` is shifted once more only where rounding carried. -/
theorem shift_of_le {R : Nat} (hR : 0 < R) (hT : -1074 ≤ T) (hle : R ≤ 2 ^ 53) :
    (Format.binary64.targetExponent (totalExponent R T) - T).toNat = R / 2 ^ 53 := by
  rw [binary64_targetExponent]
  unfold totalExponent
  rcases Nat.lt_or_eq_of_le hle with hlt | heq
  · have hlog := (Nat.log2_lt (by omega)).2 hlt
    rw [Nat.div_eq_of_lt hlt]
    omega
  · rw [heq, Nat.log2_two_pow]
    omega

/-- A mantissa that fits, rounded and shifted once more where that carried, fits and is at no lower
place. -/
theorem Fits.carry {r R : Nat} (h : Fits r T) (hr : 0 < r) (hlow : r ≤ R) (hhigh : R ≤ r + 1) :
    0 < R / 2 ^ (R / 2 ^ 53) ∧ Fits (R / 2 ^ (R / 2 ^ 53)) (T + (R / 2 ^ 53 : Nat)) ∧
      place r T ≤ place (R / 2 ^ (R / 2 ^ 53)) (T + (R / 2 ^ 53 : Nat)) := by
  obtain ⟨hT, hlt, hfull⟩ := h
  unfold place
  rcases Nat.lt_or_eq_of_le (show R ≤ 2 ^ 53 by omega) with hfits | heq
  · rw [Nat.div_eq_of_lt hfits, Nat.pow_zero, Nat.div_one]
    exact ⟨by omega, ⟨by omega, hfits, by omega⟩, by omega⟩
  · have hone : R / 2 ^ 53 = 1 := by omega
    rw [hone, heq]
    exact ⟨by omega, ⟨by omega, by omega, by omega⟩, by omega⟩

theorem roundWithAccuracy_exact (hM : 0 < M) (hE : -1074 ≤ E)
    (hT : Format.binary64.targetExponent (totalExponent M E) = T) (hET : E ≤ T) :
    ∃ m e hm, roundWithAccuracy .binary64 .positive M E .exact = .finite .positive m e hm ∧
      Fits m e ∧ place (M / 2 ^ (T - E).toNat) T ≤ place m e := by
  obtain ⟨hpos, hfits⟩ := fits_shift hM hE hT hET
  have hlow := hfits.low
  have hhigh := hfits.high
  unfold roundWithAccuracy shiftToTargetExponent shiftToExponent
  dsimp only
  rw [hT, show E + ((T - E).toNat : Int) = T by omega]
  have hmantissa : (ExtendedMantissa.ofMantissaAndAccuracy M .exact >>> (T - E).toNat).mantissa =
      M / 2 ^ (T - E).toNat := mantissa_shiftRight _ _
  generalize ExtendedMantissa.ofMantissaAndAccuracy M .exact >>> (T - E).toNat = em at hmantissa ⊢
  have hround := roundedMantissa_bounds em
  rw [hmantissa] at hround
  generalize em.roundedMantissa = R at hround ⊢
  rw [shift_of_le (by omega) hlow (by omega), mantissa_shiftRight]
  obtain ⟨hcarried, hfits', hplace⟩ := hfits.carry hpos hround.1 hround.2
  exact ⟨_, _, hcarried, dif_neg (Nat.ne_of_gt hcarried), hfits', hplace⟩

/-- Where no bits have to be added, rounding does not fall below the mantissa shifted right. -/
theorem round_of_le (hM : 0 < M) (hE : -1074 ≤ E)
    (hT : Format.binary64.targetExponent (totalExponent M E) = T) (hET : E ≤ T) :
    ∃ m e hm, UnpackedFloat.round .binary64 .positive M E = .finite .positive m e hm ∧
      Fits m e ∧ place (M / 2 ^ (T - E).toNat) T ≤ place m e := by
  unfold UnpackedFloat.round decreaseExponent
  dsimp only
  rw [hT, Int.toNat_of_nonpos (by omega), Nat.shiftLeft_zero, Int.natCast_zero, Int.sub_zero]
  exact roundWithAccuracy_exact hM hE hT hET

/-! ## Sums -/

/-- A sum `M` at the exponent `E` that is no less than `m` at `e`, shifted right to its target
exponent, is at no lower place. -/
theorem Fits.place_le_shift {m : Nat} {e : Int} (h : Fits m e) (hm : 0 < m)
    (hM : m * 2 ^ (e - E).toNat ≤ M) (hE : -1074 ≤ E) (hEe : E ≤ e)
    (hT : Format.binary64.targetExponent (totalExponent M E) = T) :
    E ≤ T ∧ place m e ≤ place (M / 2 ^ (T - E).toNat) T := by
  have hpower : 0 < 2 ^ (e - E).toNat := Nat.two_pow_pos _
  have hpos : 0 < M := Nat.lt_of_lt_of_le (Nat.mul_pos hm hpower) hM
  have hle : e ≤ T := by
    rw [← hT, binary64_targetExponent]
    unfold totalExponent
    rcases h.full with hfull | rfl
    · have hlog : 52 + (e - E).toNat ≤ M.log2 := by
        rw [Nat.le_log2 (by omega), Nat.pow_add]
        exact Nat.le_trans (Nat.mul_le_mul_right _ hfull) hM
      omega
    · omega
  have hET : E ≤ T := by omega
  refine ⟨hET, ?_⟩
  obtain ⟨-, hfits⟩ := fits_shift hpos hE hT hET
  rw [h.place_le_iff hfits]
  rcases Int.lt_or_eq_of_le hle with hlt | rfl
  · exact .inl hlt
  · exact .inr ⟨rfl, (Nat.le_div_iff_mul_le hpower).2 hM⟩

theorem Fits.add {m₁ m₂ : Nat} {e₁ e₂ : Int} (h₁ : Fits m₁ e₁) (h₂ : Fits m₂ e₂) (hm₁ : 0 < m₁)
    (hm₂ : 0 < m₂) :
    ∃ m e hm, UnpackedFloat.add .binary64 (.finite .positive m₁ e₁ hm₁)
        (.finite .positive m₂ e₂ hm₂) = .finite .positive m e hm ∧
      Fits m e ∧ place m₁ e₁ ≤ place m e := by
  have hlow₁ := h₁.low
  have hlow₂ := h₂.low
  unfold UnpackedFloat.add decreaseExponent
  dsimp only [Sign.apply]
  rw [Nat.shiftLeft_eq, Nat.shiftLeft_eq, ← Int.natCast_add]
  have hpos : 0 < m₁ * 2 ^ (e₁ - min e₁ e₂).toNat := Nat.mul_pos hm₁ (Nat.two_pow_pos _)
  have hsum : m₁ * 2 ^ (e₁ - min e₁ e₂).toNat ≤
      m₁ * 2 ^ (e₁ - min e₁ e₂).toNat + m₂ * 2 ^ (e₂ - min e₁ e₂).toNat := Nat.le_add_right _ _
  generalize m₁ * 2 ^ (e₁ - min e₁ e₂).toNat + m₂ * 2 ^ (e₂ - min e₁ e₂).toNat = M at hsum ⊢
  obtain ⟨hET, hle⟩ := h₁.place_le_shift hm₁ hsum (by omega) (by omega) rfl
  obtain ⟨m, e, hm, hround, hfits, hplace⟩ :=
    round_of_le (show 0 < M by omega) (show -1074 ≤ min e₁ e₂ by omega) rfl hET
  refine ⟨m, e, hm, ?_, hfits, Nat.le_trans hle hplace⟩
  rw [← hround]
  unfold UnpackedFloat.normalize
  rw [Int.compare_eq_gt.2 (by omega)]
  rfl

theorem Reads.toNat_pack_add {n₁ n₂ : Nat} {u₁ u₂ : UnpackedFloat} (h₁ : Reads n₁ u₁)
    (h₂ : Reads n₂ u₂) :
    n₁ ≤ (UnpackedFloat.pack .binary64 (UnpackedFloat.add .binary64 u₁ u₂)).toNat ∧
      (UnpackedFloat.pack .binary64 (UnpackedFloat.add .binary64 u₁ u₂)).toNat ≤
        2047 * 2 ^ 52 := by
  have htop := Nat.le_of_eq toNat_packedInfinity
  cases h₁ with
  | zero =>
    refine ⟨Nat.zero_le _, ?_⟩
    cases h₂ with
    | zero => decide
    | finite hm hfits hlt =>
      show (UnpackedFloat.pack .binary64 (.finite ..)).toNat ≤ _
      rw [hfits.toNat_pack hm]
      omega
    | infinity => exact htop
  | finite hm₁ hfits₁ hlt₁ =>
    cases h₂ with
    | zero =>
      show _ ≤ (UnpackedFloat.pack .binary64 (.finite ..)).toNat ∧
        (UnpackedFloat.pack .binary64 (.finite ..)).toNat ≤ _
      rw [hfits₁.toNat_pack hm₁]
      omega
    | finite hm₂ hfits₂ hlt₂ =>
      obtain ⟨m, e, hm, hadd, hfits, hplace⟩ := hfits₁.add hfits₂ hm₁ hm₂
      rw [hadd, hfits.toNat_pack hm]
      omega
    | infinity => exact ⟨Nat.le_of_lt hlt₁, htop⟩
  | infinity =>
    have hinfinity := Nat.le_of_eq toNat_packedInfinity.symm
    cases h₂ <;> exact ⟨hinfinity, htop⟩

/-! ## Loads -/

/-- The bits of a float as a number. -/
def bits (x : Float) : Nat := x.toBits.toNat

/-- Whether a float may be a load: it is zero, a positive number or infinity. -/
def IsLoad (x : Float) : Prop := bits x ≤ 2047 * 2 ^ 52

theorem reads_bits {x : Float} (h : IsLoad x) : Reads (bits x) x.toModel.unpack := reads_unpack h

theorem le_iff_bits {x y : Float} (hx : IsLoad x) (hy : IsLoad y) : x ≤ y ↔ bits x ≤ bits y :=
  decide_eq_true_iff.trans ((reads_bits hx).le_iff (reads_bits hy))

theorem IsLoad.le_refl {x : Float} (h : IsLoad x) : x ≤ x :=
  (le_iff_bits h h).2 (Nat.le_refl _)

theorem IsLoad.le_trans {x y z : Float} (hx : IsLoad x) (hy : IsLoad y) (hz : IsLoad z)
    (hxy : x ≤ y) (hyz : y ≤ z) : x ≤ z := by
  rw [le_iff_bits hx hy] at hxy
  rw [le_iff_bits hy hz] at hyz
  exact (le_iff_bits hx hz).2 (Nat.le_trans hxy hyz)

theorem isLoad_zero : IsLoad 0 := by
  have hbits : bits 0 = 0 := by decide +kernel
  rw [IsLoad, hbits]
  omega

/-- A number greater than zero is a load. -/
theorem isLoad_of_pos {x : Float} (h : x > 0.0) : IsLoad x := by
  have hlt : (0.0 : Float).toModel.unpack.lt x.toModel.unpack = true := of_decide_eq_true h
  have hzero : (0.0 : Float).toModel.unpack = .zero .positive := rfl
  rw [hzero] at hlt
  exact toNat_le_of_unpack hlt

theorem IsLoad.max {x y : Float} (hx : IsLoad x) (hy : IsLoad y) :
    IsLoad (max x y) ∧ x ≤ max x y ∧ y ≤ max x y := by
  have hmax : Max.max x y = if x ≤ y then y else x := rfl
  rw [hmax]
  split
  · next hle => exact ⟨hy, hle, hy.le_refl⟩
  · next hgt =>
    refine ⟨hx, hx.le_refl, ?_⟩
    rw [le_iff_bits hx hy] at hgt
    exact (le_iff_bits hy hx).2 (by omega)

/-- **A load does not shrink when another is added to it.** -/
theorem IsLoad.add {x y : Float} (hx : IsLoad x) (hy : IsLoad y) : IsLoad (x + y) ∧ x ≤ x + y := by
  obtain ⟨hlow, hhigh⟩ := (reads_bits hx).toNat_pack_add (reads_bits hy)
  have hload : IsLoad (x + y) := hhigh
  exact ⟨hload, (le_iff_bits hx hload).2 hlow⟩

end AjpGateway.Load
