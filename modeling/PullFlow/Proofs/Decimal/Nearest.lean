import PullFlow.Proofs.Decimal.Magnitude
import PullFlow.Value

/-!
The float nearest to an integer. A number of more than 53 places is rounded half to even, which
keeps the order of numbers but may make neighbours equal. Floats are told apart by their grade, the
exponent followed by the mantissa as one number, so that comparing floats is comparing grades. The
floats of integers are in the order of the integers, and those of at most 53 places are all
different.
-/

namespace PullFlow.Decimal

open Float.Model Float.Model.UnpackedFloat

/-- `n / 2 ^ k`, rounded to the nearest natural number, of two equally near ones to the even one. -/
def halfEven (n k : Nat) : Nat :=
  if 2 * (n % 2 ^ k) < 2 ^ k then n / 2 ^ k
  else if 2 * (n % 2 ^ k) = 2 ^ k then n / 2 ^ k + n / 2 ^ k % 2
  else n / 2 ^ k + 1

theorem halfEven_mono {m n k : Nat} (h : m ≤ n) : halfEven m k ≤ halfEven n k := by
  have hquot : m / 2 ^ k ≤ n / 2 ^ k := Nat.div_le_div_right h
  unfold halfEven
  rcases hquot.lt_or_eq with hlt | heq
  · have : n / 2 ^ k ≤ if 2 * (n % 2 ^ k) < 2 ^ k then n / 2 ^ k
        else if 2 * (n % 2 ^ k) = 2 ^ k then n / 2 ^ k + n / 2 ^ k % 2 else n / 2 ^ k + 1 := by
      split_ifs <;> omega
    refine le_trans ?_ this
    split_ifs <;> omega
  · have hmod : m % 2 ^ k ≤ n % 2 ^ k := by
      have hm := Nat.div_add_mod m (2 ^ k)
      have hn := Nat.div_add_mod n (2 ^ k)
      rw [heq] at hm
      omega
    rw [heq]
    split_ifs <;> omega

theorem halfEven_mul {m k : Nat} : halfEven (m * 2 ^ k) k = m := by
  have hpos := Nat.two_pow_pos k
  rw [halfEven, Nat.mul_mod_left, Nat.mul_div_cancel _ hpos, if_pos (by omega)]

theorem shiftRight_eq (n k : Nat) : (⟨n, false, false⟩ : ExtendedMantissa) >>> k =
    ⟨n / 2 ^ k, decide (2 ^ k ≤ 2 * (n % 2 ^ k)),
      decide (n % 2 ^ k ≠ 0 ∧ 2 * (n % 2 ^ k) ≠ 2 ^ k)⟩ := by
  induction k with
  | zero => simp [HShiftRight.hShiftRight, Nat.repeat, Nat.mod_one]
  | succ k ih =>
      have hmod : n % 2 ^ (k + 1) = n % 2 ^ k + 2 ^ k * (n / 2 ^ k % 2) := by
        rw [Nat.pow_succ, Nat.mod_mul]
      have hlt : n % 2 ^ k < 2 ^ k := Nat.mod_lt _ (Nat.two_pow_pos k)
      have hpow : 2 ^ (k + 1) = 2 * 2 ^ k := by rw [Nat.pow_succ, Nat.mul_comm]
      change ExtendedMantissa.shiftRightOne ((⟨n, false, false⟩ : ExtendedMantissa) >>> k) = _
      rw [ih, ExtendedMantissa.shiftRightOne, hmod, hpow, Nat.div_div_eq_div_mul, Nat.mul_comm _ 2]
      generalize n % 2 ^ k = r at *
      generalize n / 2 ^ k = q at *
      generalize 2 ^ k = p at *
      have hbit : q % 2 = 0 ∨ q % 2 = 1 := Nat.mod_two_eq_zero_or_one q
      rcases hbit with hq | hq <;> simp only [hq, ExtendedMantissa.mk.injEq]
      · refine ⟨trivial, ?_, ?_⟩
        · simp
          omega
        · rw [Bool.eq_iff_iff]
          simp
          omega
      · refine ⟨trivial, ?_, ?_⟩
        · simp
        · rw [Bool.eq_iff_iff]
          simp
          omega

theorem roundedMantissa_shiftRight (n k : Nat) :
    ((⟨n, false, false⟩ : ExtendedMantissa) >>> k).roundedMantissa = halfEven n k := by
  rw [shiftRight_eq, ExtendedMantissa.roundedMantissa, halfEven]
  rcases Nat.lt_trichotomy (2 * (n % 2 ^ k)) (2 ^ k) with h | h | h
  · have hnot : ¬ 2 ^ k ≤ 2 * (n % 2 ^ k) := by omega
    rw [if_pos h]
    by_cases hzero : n % 2 ^ k = 0 <;>
      simp [hnot, hzero, ExtendedMantissa.accuracy, Accuracy.roundToNearestEven, h.ne]
  · simp [h, ExtendedMantissa.accuracy, Accuracy.roundToNearestEven]
  · have hpos : n % 2 ^ k ≠ 0 := by
      intro hzero
      omega
    simp [h.le, h.ne', hpos, h.not_gt, ExtendedMantissa.accuracy, Accuracy.roundToNearestEven]

theorem le_halfEven {n k : Nat} (h : 2 ^ (52 + k) ≤ n) : 2 ^ 52 ≤ halfEven n k := by
  have hquot : 2 ^ 52 ≤ n / 2 ^ k := by
    rw [Nat.le_div_iff_mul_le (Nat.two_pow_pos k), ← Nat.pow_add]
    exact h
  unfold halfEven
  split_ifs <;> omega

theorem halfEven_le {n k : Nat} (h : n < 2 ^ (53 + k)) : halfEven n k ≤ 2 ^ 53 := by
  have hquot : n / 2 ^ k < 2 ^ 53 := by
    rw [Nat.div_lt_iff_lt_mul (Nat.two_pow_pos k), ← Nat.pow_add]
    exact h
  unfold halfEven
  split_ifs <;> omega

/-- What is cut off at the end of a number that ends in zeros. -/
theorem halfEven_scale (n k i : Nat) : halfEven (n * 2 ^ i) (k + i) = halfEven n k := by
  have hpos := Nat.two_pow_pos i
  have hquot : n * 2 ^ i / 2 ^ (k + i) = n / 2 ^ k := by
    rw [Nat.pow_add, Nat.mul_div_mul_right _ _ hpos]
  have hrest : n * 2 ^ i % 2 ^ (k + i) = n % 2 ^ k * 2 ^ i := by
    rw [Nat.pow_add, Nat.mul_mod_mul_right]
  have hlt : 2 * (n % 2 ^ k * 2 ^ i) < 2 ^ (k + i) ↔ 2 * (n % 2 ^ k) < 2 ^ k := by
    rw [Nat.pow_add, ← Nat.mul_assoc, Nat.mul_lt_mul_right hpos]
  have heq : 2 * (n % 2 ^ k * 2 ^ i) = 2 ^ (k + i) ↔ 2 * (n % 2 ^ k) = 2 ^ k := by
    rw [Nat.pow_add, ← Nat.mul_assoc, Nat.mul_left_inj hpos.ne']
  simp only [halfEven, hquot, hrest, hlt, heq]

/-- Cutting a number of at least 53 places down to 53. -/
theorem shiftToTargetExponent_eq {n : Nat} {e : Int} (h : 52 ≤ n.log2) (he : -1074 ≤ e) :
    shiftToTargetExponent .binary64 n e .exact =
      ((⟨n, false, false⟩ : ExtendedMantissa) >>> (n.log2 - 52), e + (n.log2 - 52 : Nat)) := by
  have hshift : (max ((n.log2 : Int) + 1 + e - 53) (-1074) - e).toNat = n.log2 - 52 := by omega
  simp only [shiftToTargetExponent, shiftToExponent, targetExponent_eq, totalExponent,
    ExtendedMantissa.ofMantissaAndAccuracy, hshift]

/-- A number of at least 53 places is rounded to 53 of them; a carry out of the first place is one
step in the exponent. -/
theorem roundWithAccuracy_eq {n : Nat} {e : Int} (h : 2 ^ 52 ≤ n) (he : -1074 ≤ e) :
    ∃ m e' hm, roundWithAccuracy .binary64 .positive n e .exact = .finite .positive m e' hm ∧
      2 ^ 52 ≤ m ∧ m < 2 ^ 53 ∧
      (e' + 52) * 2 ^ 52 + m = (e + n.log2) * 2 ^ 52 + halfEven n (n.log2 - 52) := by
  have hpos : n ≠ 0 := by
    rintro rfl
    simp at h
  have hlow : 52 ≤ n.log2 := (Nat.le_log2 hpos).mpr h
  obtain ⟨r, hr⟩ : ∃ r, halfEven n (n.log2 - 52) = r := ⟨_, rfl⟩
  have hround : 2 ^ 52 ≤ r := by
    refine hr ▸ le_halfEven ?_
    rw [show 52 + (n.log2 - 52) = n.log2 by omega]
    exact Nat.log2_self_le hpos
  have hcarry : r ≤ 2 ^ 53 := by
    refine hr ▸ halfEven_le ?_
    rw [show 53 + (n.log2 - 52) = n.log2 + 1 by omega]
    exact Nat.lt_log2_self
  have hlog : 52 ≤ r.log2 := (Nat.le_log2 (by omega)).mpr hround
  have hagain : -1074 ≤ e + (n.log2 - 52 : Nat) := by omega
  have hmantissa : 0 < r / 2 ^ (r.log2 - 52) := by
    refine Nat.div_pos ?_ (Nat.two_pow_pos _)
    exact (Nat.pow_le_pow_right (by decide) (Nat.sub_le _ _)).trans (Nat.log2_self_le (by omega))
  have hresult : roundWithAccuracy .binary64 .positive n e .exact =
      .finite .positive (r / 2 ^ (r.log2 - 52)) (e + (n.log2 - 52 : Nat) + (r.log2 - 52 : Nat))
        hmantissa := by
    simp only [roundWithAccuracy, shiftToTargetExponent_eq hlow he, roundedMantissa_shiftRight, hr,
      shiftToTargetExponent_eq hlog hagain, mantissa_shiftRight, dif_neg hmantissa.ne']
  refine ⟨_, _, hmantissa, hresult, ?_⟩
  rw [hr]
  rcases hcarry.lt_or_eq with hlt | rfl
  · have hstays : r.log2 = 52 := (Nat.log2_eq_iff (by omega)).mpr ⟨hround, hlt⟩
    rw [hstays, Nat.sub_self, Nat.pow_zero, Nat.div_one]
    refine ⟨hround, hlt, ?_⟩
    omega
  · rw [Nat.log2_two_pow]
    refine ⟨by decide, by decide, ?_⟩
    norm_num
    omega


/-! ### The order of floats -/

/-- The place of a natural number's float among the floats: where the float is `m · 2 ^ e` with 53
places in `m`, it is `(e + 52) · 2 ^ 52 + m`. -/
def grade (n : Nat) : Nat := n.log2 * 2 ^ 52 + halfEven (n * 2 ^ 53) (n.log2 + 1)

theorem grade_zero : grade 0 = 0 := by decide

section Grade

variable {m n : Nat}

theorem le_mantissa (h : n ≠ 0) : 2 ^ 52 ≤ halfEven (n * 2 ^ 53) (n.log2 + 1) := by
  refine le_halfEven ?_
  rw [show 52 + (n.log2 + 1) = n.log2 + 53 by omega, Nat.pow_add]
  exact Nat.mul_le_mul_right _ (Nat.log2_self_le h)

theorem mantissa_le (n : Nat) : halfEven (n * 2 ^ 53) (n.log2 + 1) ≤ 2 ^ 53 := by
  refine halfEven_le ?_
  rw [show 53 + (n.log2 + 1) = n.log2 + 1 + 53 by omega, Nat.pow_add]
  exact Nat.mul_lt_mul_of_pos_right Nat.lt_log2_self (Nat.two_pow_pos _)

/-- A number of at most 53 places keeps all of them. -/
theorem mantissa_eq (h : n.log2 ≤ 52) :
    halfEven (n * 2 ^ 53) (n.log2 + 1) = n * 2 ^ (52 - n.log2) := by
  rw [show n * 2 ^ 53 = n * 2 ^ (52 - n.log2) * 2 ^ (n.log2 + 1) by
    rw [Nat.mul_assoc, ← Nat.pow_add, show 52 - n.log2 + (n.log2 + 1) = 53 by omega]]
  exact halfEven_mul

theorem log2_mono (h : m ≤ n) : m.log2 ≤ n.log2 := by
  rw [Nat.log2_eq_log_two, Nat.log2_eq_log_two]
  exact Nat.log_mono_right h

theorem grade_mono (h : m ≤ n) : grade m ≤ grade n := by
  rcases Nat.eq_zero_or_pos m with rfl | hpos
  · exact grade_zero ▸ Nat.zero_le _
  · have hm := mantissa_le m
    have hn := le_mantissa (hpos.trans_le h).ne'
    have hround := halfEven_mono (k := n.log2 + 1) (Nat.mul_le_mul_right (2 ^ 53) h)
    unfold grade
    rcases (log2_mono h).lt_or_eq with hlt | heq
    · omega
    · rw [heq]
      omega

/-- Numbers up to `2 ^ 53` have floats of their own. -/
theorem grade_lt (h : m < n) (hn : n ≤ 2 ^ 53) : grade m < grade n := by
  have hlow := le_mantissa (Nat.zero_lt_of_lt h).ne'
  have hm : m < 2 ^ 53 := h.trans_le hn
  have hlog : m.log2 ≤ 52 := by
    rcases eq_or_ne m 0 with rfl | hne
    · simp
    · exact Nat.le_of_lt_succ ((Nat.log2_lt hne).mpr hm)
  have hexact := mantissa_eq hlog
  unfold grade
  rcases (log2_mono h.le).lt_or_eq with hlt | heq
  · have hhigh : m * 2 ^ (52 - m.log2) < 2 ^ 53 := by
      rw [show 2 ^ 53 = 2 ^ (m.log2 + 1) * 2 ^ (52 - m.log2) by
        rw [← Nat.pow_add, show m.log2 + 1 + (52 - m.log2) = 53 by omega]]
      exact Nat.mul_lt_mul_of_pos_right Nat.lt_log2_self (Nat.two_pow_pos _)
    omega
  · rw [hexact, mantissa_eq (heq ▸ hlog), ← heq]
    exact Nat.add_lt_add_left (Nat.mul_lt_mul_of_pos_right h (Nat.two_pow_pos _)) _

end Grade

/-- The grade from which on a float is infinite. -/
def topGrade : Nat := 1025 * 2 ^ 52

/-- The float of a grade. -/
inductive Graded (g : Nat) : UnpackedFloat → Prop
  | zero : g = 0 → Graded g (.zero .positive)
  | finite {m : Nat} {e : Int} {hm : 0 < m} : 2 ^ 52 ≤ m → m < 2 ^ 53 → -52 ≤ e → e ≤ 971 →
      (g : Int) = (e + 52) * 2 ^ 52 + m → Graded g (.finite .positive m e hm)
  | infinity : topGrade ≤ g → Graded g (.infinity .positive)

/-- A float with all its places, in the range of floats, is stored as it is. -/
theorem unpack_pack {m : Nat} {e : Int} {hm : 0 < m} (s : Sign) (hlow : 2 ^ 52 ≤ m)
    (hhigh : m < 2 ^ 53) (he : -1073 ≤ e) (hlarge : e ≤ 971) :
    (Float.Model.pack (.finite s m e hm)).unpack = .finite s m e hm := by
  have hlog : m.log2 + 1 = 53 := by
    rw [(Nat.log2_eq_iff hm.ne').mpr ⟨hlow, hhigh⟩]
  obtain ⟨k, rfl⟩ : ∃ k : Nat, e = k - 1075 := ⟨(e + 1075).toNat, by omega⟩
  have hbiased : ((k : Int) - 1075 + (Format.binary64.exponentBias : Int) + (52 : Nat)).toNat
      = k := by
    change ((k : Int) - 1075 + 1023 + 52).toNat = k
    omega
  have hfield : (BitVec.ofNat 11 k).toNat = k := by
    rw [BitVec.toNat_ofNat, Nat.mod_eq_of_lt (by omega)]
  have hfinite : BitVec.ofNat 11 k ≠ -1#11 := fun h => by
    have h : k = 2047 := hfield ▸ congrArg BitVec.toNat h
    omega
  have hnormal : BitVec.ofNat 11 k ≠ 0#11 := fun h => by
    have h : k = 0 := hfield ▸ congrArg BitVec.toNat h
    omega
  have hmantissa : (1#1 ++ BitVec.ofNat 52 m).toNat = m := by
    rw [toNat_one_append, BitVec.toNat_ofNat]
    omega
  simp only [Float.Model.unpack, Float.Model.pack, UnpackedFloat.pack, hbiased]
  rw [if_neg (by change ¬ 2048 ≤ k + 1; omega), if_pos (by exact hlog)]
  unfold UnpackedFloat.unpack
  simp only [unpackMantissa_packComponents, unpackExponent_packComponents,
    unpackSign_packComponents]
  rw [if_neg hfinite, if_neg hnormal]
  simp only [UnpackedFloat.finite.injEq]
  refine ⟨trivial, hmantissa, ?_⟩
  change (((BitVec.ofNat 11 k).toNat : Int)) - (1023 + 52) = _
  rw [hfield]
  omega


theorem unpack_pack_infinity (s : Sign) :
    (Float.Model.pack (.infinity s)).unpack = .infinity s := by
  cases s <;> rfl

theorem unpack_pack_zero (s : Sign) : (Float.Model.pack (.zero s)).unpack = .zero s := by
  cases s <;> rfl

/-- A float beyond the range is stored as infinity. -/
theorem pack_of_large {m : Nat} {e : Int} {hm : 0 < m} (h : 972 ≤ e) :
    Float.Model.pack (.finite .positive m e hm) = Float.Model.pack (.infinity .positive) := by
  have hbiased : 2 ^ Format.binary64.exponentBits ≤ (e + (Format.binary64.exponentBias : Int) +
      (Format.binary64.mantissaBitsWithoutImplicit : Nat)).toNat + 1 := by
    change 2048 ≤ (e + 1023 + (52 : Nat)).toNat + 1
    omega
  simp only [Float.Model.pack, UnpackedFloat.pack, if_pos hbiased]

/-- Rounding a number of at least 53 places. -/
theorem graded_roundWithAccuracy {n g : Nat} {e : Int} (h : 2 ^ 52 ≤ n) (he : -1074 ≤ e)
    (hg : (g : Int) = (e + n.log2) * 2 ^ 52 + halfEven n (n.log2 - 52)) (hlow : 0 ≤ e + n.log2) :
    Graded g (Float.Model.pack (roundWithAccuracy .binary64 .positive n e .exact)).unpack := by
  have hround : 2 ^ 52 ≤ halfEven n (n.log2 - 52) := by
    have hpos : n ≠ 0 := by
      rintro rfl
      simp at h
    refine le_halfEven ?_
    have := (Nat.le_log2 hpos).mpr h
    rw [show 52 + (n.log2 - 52) = n.log2 by omega]
    exact Nat.log2_self_le hpos
  obtain ⟨m, e', hm, hresult, hfirst, hlast, hplace⟩ := roundWithAccuracy_eq h he
  rw [hresult]
  rcases Int.lt_or_le 971 e' with hlarge | hsmall
  · rw [pack_of_large (by omega), unpack_pack_infinity]
    refine .infinity ?_
    unfold topGrade
    omega
  · rw [unpack_pack .positive hfirst hlast (by omega) hsmall]
    exact .finite hfirst hlast (by omega) hsmall (by omega)

theorem log2_mul_two_pow {n : Nat} (h : n ≠ 0) (k : Nat) : (n * 2 ^ k).log2 = n.log2 + k := by
  have := totalExponent_mul_two_pow (n := k) (e := k) h
  simp only [totalExponent] at this
  omega

/-- A natural number of at most 53 places as a float. -/
theorem graded_toFloat {n : Nat} (h : n < 2 ^ 53) :
    Graded (grade n) n.toUInt64.toFloat.toModel.unpack := by
  have hword : n.toUInt64.toNat = n := by
    rw [Nat.toUInt64, UInt64.toNat_ofNat_of_lt' (h.trans (by decide))]
  change Graded (grade n) (Float.Model.pack (.ofNat .binary64 n.toUInt64.toNat)).unpack
  rw [hword, UnpackedFloat.ofNat, UnpackedFloat.ofInt, UnpackedFloat.normalize]
  rcases Nat.eq_zero_or_pos n with rfl | hpos
  · exact .zero grade_zero
  · have hlog : n.log2 ≤ 52 := Nat.le_of_lt_succ ((Nat.log2_lt hpos.ne').mpr h)
    have hscaled := log2_mul_two_pow hpos.ne' (52 - n.log2)
    have hexact := mantissa_eq hlog
    rw [compare_gt_iff_gt.mpr (by omega)]
    simp only [UnpackedFloat.round, decreaseExponent, targetExponent_eq, totalExponent,
      Nat.shiftLeft_eq, Int.toNat_natCast]
    rw [show (0 - max ((n.log2 : Int) + 1 + 0 - 53) (-1074)).toNat = 52 - n.log2 by omega]
    refine graded_roundWithAccuracy ?_ (by omega) ?_ (by omega)
    · refine (Nat.le_log2 ?_).mp (by omega)
      positivity
    · rw [hscaled, show n.log2 + (52 - n.log2) - 52 = 0 by omega, grade, hexact]
      have := @halfEven_mul (n * 2 ^ (52 - n.log2)) 0
      rw [Nat.pow_zero, Nat.mul_one] at this
      rw [this]
      push_cast
      omega


theorem Graded.mul_one {g : Nat} {u : UnpackedFloat} (h : Graded g u) (hone) :
    Graded g
      (Float.Model.pack (.mul .binary64 u (.finite .positive (2 ^ 52) (-52) hone))).unpack := by
  cases h with
  | zero hg =>
      change Graded g (Float.Model.pack (.zero .positive)).unpack
      rw [unpack_pack_zero]
      exact .zero hg
  | infinity hg =>
      change Graded g (Float.Model.pack (.infinity .positive)).unpack
      rw [unpack_pack_infinity]
      exact .infinity hg
  | @finite m e hm hfirst hlast he hsmall hg =>
      have hlog : m.log2 = 52 := (Nat.log2_eq_iff hm.ne').mpr ⟨hfirst, hlast⟩
      have hscaled : (m * 2 ^ 52).log2 = 104 := by rw [log2_mul_two_pow hm.ne', hlog]
      refine graded_roundWithAccuracy (n := m * 2 ^ 52) ?_ (by omega) ?_ (by omega)
      · exact Nat.le_mul_of_pos_left _ hm
      · rw [hscaled, halfEven_mul, hg]
        omega

/-- The float of a natural number is the one of its grade. -/
theorem graded_ofScientific (n : Nat) :
    Graded (grade n) (Float.ofScientific n false 0).toModel.unpack := by
  rcases Nat.lt_or_ge n (2 ^ 53) with hsmall | hlarge
  · have hone : (Float.ofBits 0x3FF0000000000000).toModel.unpack =
        .finite .positive (2 ^ 52) (-52) (by decide) := by rfl
    rw [Float.ofScientific, dif_pos ⟨hsmall, by decide⟩]
    have hmul := (graded_toFloat hsmall).mul_one (by decide)
    rw [← hone] at hmul
    exact hmul
  · have hpos : n ≠ 0 := by omega
    have hlow : ¬ (0 : Int) < -((2 : Int) ^ Format.binary64.exponentBits + n.log2) := by
      change ¬ (0 : Int) < -(2048 + (n.log2 : Int))
      omega
    have hscaled := log2_mul_two_pow hpos 53
    rw [Float.ofScientific, dif_neg (by omega)]
    change Graded (grade n) (Float.Model.pack (.ofScientific .binary64 n 0)).unpack
    rw [UnpackedFloat.ofScientific, dif_neg hpos, if_neg (by decide), if_neg hlow,
      if_pos (by decide), UnpackedFloat.mul]
    have hmantissa : n <<< Format.binary64.mantissaBits * 10 ^ (0 : Int).toNat = n * 2 ^ 53 := by
      rw [Nat.shiftLeft_eq, Int.toNat_zero, Nat.pow_zero, Nat.mul_one]
      rfl
    rw [hmantissa]
    refine graded_roundWithAccuracy (n := n * 2 ^ 53) (by omega) (by decide) ?_ ?_
    · rw [hscaled, grade, show n.log2 + 53 - 52 = n.log2 + 1 by omega]
      change _ = (-53 + 0 + ((n.log2 + 53 : Nat) : Int)) * 2 ^ 52 + _
      push_cast
      omega
    · rw [hscaled]
      change (0 : Int) ≤ -53 + 0 + ((n.log2 + 53 : Nat) : Int)
      omega


/-! ### Integers -/

/-- The place of an integer's float among all floats; those beyond the range share the last one. -/
def rank (n : Int) : Int :=
  if n < 0 then -(min (grade n.natAbs) topGrade : Nat) else (min (grade n.natAbs) topGrade : Nat)

/-- The float of a rank. -/
inductive Ranked : Int → UnpackedFloat → Prop
  | zero (s : Sign) : Ranked 0 (.zero s)
  | finite (s : Sign) {m : Nat} {e : Int} {hm : 0 < m} : 2 ^ 52 ≤ m → m < 2 ^ 53 → -52 ≤ e →
      e ≤ 971 → Ranked (s.apply ((e + 52) * 2 ^ 52 + m)) (.finite s m e hm)
  | infinity (s : Sign) : Ranked (s.apply topGrade) (.infinity s)

theorem Graded.ranked {g : Nat} {u : UnpackedFloat} (h : Graded g u) :
    Ranked (min g topGrade : Nat) u := by
  cases h with
  | zero hg =>
      subst hg
      exact .zero _
  | @finite m e _ hfirst hlast he hsmall hg =>
      have hplace : ((min g topGrade : Nat) : Int) =
          Sign.positive.apply ((e + 52) * 2 ^ 52 + m) := by
        simp only [Sign.apply, topGrade]
        omega
      rw [hplace]
      exact .finite _ hfirst hlast he hsmall
  | infinity hg =>
      rw [Nat.min_eq_right hg]
      exact .infinity .positive

theorem Ranked.neg {r : Int} {u : UnpackedFloat} (h : Ranked r u) : Ranked (-r) u.neg := by
  cases h with
  | zero s => exact .zero _
  | finite s hfirst hlast he hsmall =>
      rw [show ∀ n : Int, -s.apply n = (-s).apply n by cases s <;> simp [Sign.apply]]
      exact .finite _ hfirst hlast he hsmall
  | infinity s =>
      rw [show ∀ n : Int, -s.apply n = (-s).apply n by cases s <;> simp [Sign.apply]]
      exact .infinity _

theorem Ranked.unpack_neg {r : Int} {x : Float} (h : Ranked r x.toModel.unpack) :
    (-x).toModel.unpack = x.toModel.unpack.neg := by
  change (Float.Model.pack x.toModel.unpack.neg).unpack = _
  generalize x.toModel.unpack = u at *
  cases h with
  | zero s => exact unpack_pack_zero _
  | finite s hfirst hlast he hsmall => exact unpack_pack _ hfirst hlast (by omega) hsmall
  | infinity s => exact unpack_pack_infinity _

/-- The float of an integer is the one of its rank. -/
theorem ranked_toFloat (n : Int) : Ranked (rank n) (Number.int n).toFloat.toModel.unpack := by
  have hranked := (graded_ofScientific n.natAbs).ranked
  simp only [rank, Number.toFloat]
  split
  · rw [hranked.unpack_neg]
    exact hranked.neg
  · exact hranked

/-- Of floats with all their places the exponents decide, then the mantissas. -/
theorem compare_places {m n : Nat} {e f : Int} (hm : 2 ^ 52 ≤ m ∧ m < 2 ^ 53)
    (hn : 2 ^ 52 ≤ n ∧ n < 2 ^ 53) :
    (compare e f).then (compare m n) =
      compare ((e + 52) * 2 ^ 52 + (m : Int)) ((f + 52) * 2 ^ 52 + n) := by
  rcases lt_trichotomy e f with h | rfl | h
  · have hplace : (e + 52) * 2 ^ 52 + (m : Int) < (f + 52) * 2 ^ 52 + n := by omega
    rw [compare_lt_iff_lt.mpr h, compare_lt_iff_lt.mpr hplace]
    rfl
  · rw [compare_eq_iff_eq.mpr (rfl : e = e), Ordering.eq_then]
    rcases lt_trichotomy m n with h | rfl | h
    · rw [compare_lt_iff_lt.mpr h, compare_lt_iff_lt.mpr (by omega)]
    · rw [compare_eq_iff_eq.mpr rfl, compare_eq_iff_eq.mpr rfl]
    · rw [compare_gt_iff_gt.mpr h, compare_gt_iff_gt.mpr (by omega)]
  · have hplace : (f + 52) * 2 ^ 52 + (n : Int) < (e + 52) * 2 ^ 52 + m := by omega
    rw [compare_gt_iff_gt.mpr h, compare_gt_iff_gt.mpr hplace]
    rfl

theorem compare_neg (a b : Int) : compare (-a) (-b) = (compare a b).swap := by
  rw [Int.compare_swap]
  rcases lt_trichotomy a b with h | rfl | h
  · rw [compare_gt_iff_gt.mpr h, compare_gt_iff_gt.mpr (by omega)]
  · rw [compare_eq_iff_eq.mpr rfl, compare_eq_iff_eq.mpr rfl]
  · rw [compare_lt_iff_lt.mpr h, compare_lt_iff_lt.mpr (by omega)]

theorem some_lt {a b : Int} (h : a < b) : some Ordering.lt = some (compare a b) :=
  congrArg some (compare_lt_iff_lt.mpr h).symm

theorem some_gt {a b : Int} (h : b < a) : some Ordering.gt = some (compare a b) :=
  congrArg some (compare_gt_iff_gt.mpr h).symm

/-- Floats of integers compare as their ranks do. -/
theorem Ranked.compare_eq {a b : Int} {u v : UnpackedFloat} (hu : Ranked a u) (hv : Ranked b v) :
    u.compare v = some (compare a b) := by
  cases hu with
  | zero s =>
      cases hv with
      | zero t => rfl
      | finite t hfirst hlast he hsmall =>
          cases t
          · exact some_gt (by simp only [Sign.apply]; omega)
          · exact some_lt (by simp only [Sign.apply]; omega)
      | infinity t => cases t <;> rfl
  | finite s hfirst hlast he hsmall =>
      cases hv with
      | zero t =>
          cases s
          · exact some_lt (by simp only [Sign.apply]; omega)
          · exact some_gt (by simp only [Sign.apply]; omega)
      | finite t hfirst' hlast' he' hsmall' =>
          have hplaces := fun e f => @compare_places _ _ e f ⟨hfirst, hlast⟩ ⟨hfirst', hlast'⟩
          cases s <;> cases t
          · exact congrArg some ((congrArg _ (hplaces _ _)).trans (compare_neg _ _).symm)
          · exact some_lt (by simp only [Sign.apply]; omega)
          · exact some_gt (by simp only [Sign.apply]; omega)
          · exact congrArg some (hplaces _ _)
      | infinity t =>
          cases s <;> cases t
          · exact some_gt (by simp only [Sign.apply, topGrade]; omega)
          · exact some_lt (by simp only [Sign.apply, topGrade]; omega)
          · exact some_gt (by simp only [Sign.apply, topGrade]; omega)
          · exact some_lt (by simp only [Sign.apply, topGrade]; omega)
  | infinity s =>
      cases hv with
      | zero t => cases s <;> rfl
      | finite t hfirst hlast he hsmall =>
          cases s <;> cases t
          · exact some_lt (by simp only [Sign.apply, topGrade]; omega)
          · exact some_lt (by simp only [Sign.apply, topGrade]; omega)
          · exact some_gt (by simp only [Sign.apply, topGrade]; omega)
          · exact some_gt (by simp only [Sign.apply, topGrade]; omega)
      | infinity t => cases s <;> cases t <;> rfl

/-- How the floats of two integers compare. -/
theorem toFloat_compare (a b : Int) :
    ((Number.int a).toFloat < (Number.int b).toFloat ↔ rank a < rank b) ∧
      ((Number.int a).toFloat == (Number.int b).toFloat) = decide (rank a = rank b) := by
  have h := (ranked_toFloat a).compare_eq (ranked_toFloat b)
  constructor
  · rw [float_lt_iff, UnpackedFloat.lt, h, ← compare_lt_iff_lt]
    simp
  · change UnpackedFloat.beq _ _ = _
    rw [UnpackedFloat.beq, h, Bool.eq_iff_iff, decide_eq_true_iff, ← compare_eq_iff_eq]
    simp

theorem rank_mono {a b : Int} (h : a ≤ b) : rank a ≤ rank b := by
  unfold rank
  split_ifs with ha hb
  · have := @grade_mono b.natAbs a.natAbs (by omega)
    omega
  · omega
  · omega
  · have := @grade_mono a.natAbs b.natAbs (by omega)
    omega

theorem grade_le_top {n : Nat} (h : n ≤ 2 ^ 53) : grade n < topGrade :=
  (grade_mono h).trans_lt (by decide +kernel)

/-- Integers of at most 53 places have floats of their own. -/
theorem rank_lt {a b : Int} (h : a < b) (ha : -2 ^ 53 ≤ a) (hb : b ≤ 2 ^ 53) :
    rank a < rank b := by
  have htop := @grade_le_top a.natAbs
  have htop' := @grade_le_top b.natAbs
  unfold rank
  split_ifs with hneg hneg' hneg'
  · have := @grade_lt b.natAbs a.natAbs (by omega) (by omega)
    omega
  · have := @grade_lt 0 a.natAbs (by omega) (by omega)
    omega
  · omega
  · have := @grade_lt a.natAbs b.natAbs (by omega) (by omega)
    omega

end PullFlow.Decimal
