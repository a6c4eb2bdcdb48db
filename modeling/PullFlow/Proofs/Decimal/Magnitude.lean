import Mathlib
import PullFlow.Decimal.Shortest

/-!
How large the results of float arithmetic are. A finite float `m · 2 ^ e` has a total exponent, the
least power of two above it. Rounding to a float adds at most one to the total exponent, and the
sums, products and quotients of floats that are not negative follow from that; a number that a
float holds is not rounded at all.
-/

namespace PullFlow.Decimal

open Float.Model Float.Model.UnpackedFloat

/-- Zero, or a positive number below `2 ^ k`. -/
inductive Within (k : Int) : UnpackedFloat → Prop
  | zero (s : Sign) : Within k (.zero s)
  | finite {m : Nat} {e : Int} (hm : 0 < m) (h : totalExponent m e ≤ k) :
      Within k (.finite .positive m e hm)

theorem Within.mono {k l : Int} {u : UnpackedFloat} (h : Within k u) (hkl : k ≤ l) :
    Within l u := by
  cases h with
  | zero s => exact .zero s
  | finite hm h => exact .finite hm (h.trans hkl)

theorem targetExponent_eq (t : Int) : Format.binary64.targetExponent t = max (t - 53) (-1074) := by
  simp only [Format.targetExponent]
  rfl

/-! ### Shifts -/

section Shift

variable {m n : Nat} {e k : Int} {a : Accuracy}

theorem mantissa_shiftRight (em : ExtendedMantissa) (n : Nat) :
    (em >>> n).mantissa = em.mantissa / 2 ^ n := by
  induction n with
  | zero => simp [HShiftRight.hShiftRight, Nat.repeat]
  | succ n ih =>
      change (em >>> n).mantissa / 2 = _
      rw [ih, Nat.div_div_eq_div_mul, ← Nat.pow_succ]

@[simp]
theorem mantissa_ofMantissaAndAccuracy (m : Nat) (a : Accuracy) :
    (ExtendedMantissa.ofMantissaAndAccuracy m a).mantissa = m := by
  rcases a with _ | _ | _ | _ <;> rfl

theorem roundedMantissa_le (em : ExtendedMantissa) : em.roundedMantissa ≤ em.mantissa + 1 := by
  rcases em with ⟨m, _ | _, _ | _⟩ <;>
    simp only [ExtendedMantissa.roundedMantissa, ExtendedMantissa.accuracy,
      Accuracy.roundToNearestEven] <;> omega

theorem totalExponent_le_iff (hm : m ≠ 0) : totalExponent m e ≤ n + e ↔ m < 2 ^ n := by
  rw [← Nat.log2_lt hm, totalExponent]
  omega

/-- Bits that are cut off do not make a number larger. -/
theorem totalExponent_div_le (h : m / 2 ^ n ≠ 0) :
    totalExponent (m / 2 ^ n) (e + n) ≤ totalExponent m e := by
  have hm : m < 2 ^ (m.log2 + 1) := Nat.lt_log2_self
  have hn : n ≤ m.log2 := by
    by_contra hlt
    exact h (Nat.div_eq_of_lt (hm.trans_le (Nat.pow_le_pow_right (by decide) (by omega))))
  have hlt : m / 2 ^ n < 2 ^ (m.log2 + 1 - n) := by
    rw [Nat.div_lt_iff_lt_mul (Nat.two_pow_pos n), ← Nat.pow_add]
    exact hm.trans_le (Nat.pow_le_pow_right (by decide) (by omega))
  have := (Nat.log2_lt h).mpr hlt
  simp only [totalExponent]
  omega

/-- A step up gains at most one place. -/
theorem log2_le_of_le_succ {r : Nat} (hm : m ≠ 0) (h : r ≤ m + 1) : r.log2 ≤ m.log2 + 1 := by
  have hlow : 2 ^ m.log2 ≤ m := Nat.log2_self_le hm
  have hhigh : m < 2 ^ (m.log2 + 1) := Nat.lt_log2_self
  rcases eq_or_ne r 0 with rfl | hr
  · simp
  · refine Nat.le_of_lt_succ ((Nat.log2_lt hr).mpr ?_)
    have := Nat.two_pow_pos m.log2
    simp only [Nat.pow_succ] at *
    omega

/-- The number a shift leaves, rounded, gains at most one place. -/
theorem totalExponent_rounded_le (h : totalExponent m e ≤ k) (hk : -1074 ≤ k)
    (hnot : (shiftToTargetExponent .binary64 m e a).1.roundedMantissa ≠ 0) :
    totalExponent (shiftToTargetExponent .binary64 m e a).1.roundedMantissa
      (shiftToTargetExponent .binary64 m e a).2 ≤ k + 1 := by
  have hle := roundedMantissa_le (shiftToTargetExponent .binary64 m e a).1
  simp only [shiftToTargetExponent, shiftToExponent, targetExponent_eq, mantissa_shiftRight,
    mantissa_ofMantissaAndAccuracy] at hle hnot ⊢
  generalize hn : (max (totalExponent m e - 53) (-1074) - e).toNat = n at *
  generalize ExtendedMantissa.roundedMantissa _ = r at *
  by_cases hzero : m / 2 ^ n = 0
  · obtain rfl : r = 1 := by omega
    have hone : Nat.log2 1 = 0 := by decide
    have hcut : m = 0 ∨ 0 < n := by
      by_contra hneg
      obtain ⟨hm, rfl⟩ : m ≠ 0 ∧ n = 0 := by omega
      exact hm (by simpa using hzero)
    simp only [totalExponent, hone] at *
    rcases hcut with rfl | hpos
    · simp only [Nat.log2_zero] at *
      omega
    · omega
  · have hdiv := totalExponent_div_le (e := e) hzero
    have hlog := log2_le_of_le_succ hzero hle
    simp only [totalExponent] at *
    omega

/-- Rounding adds at most one place. -/
theorem within_roundWithAccuracy (h : totalExponent m e ≤ k) (hk : -1074 ≤ k) :
    Within (k + 1) (roundWithAccuracy .binary64 .positive m e a) := by
  have hrounded := totalExponent_rounded_le (a := a) h hk
  unfold roundWithAccuracy
  generalize shiftToTargetExponent .binary64 m e a = first at *
  obtain ⟨em, e₁⟩ := first
  simp only [shiftToTargetExponent, shiftToExponent, mantissa_shiftRight,
    mantissa_ofMantissaAndAccuracy] at *
  split
  · exact .zero _
  · rename_i hne
    refine .finite _ ((totalExponent_div_le hne).trans (hrounded fun hzero => hne ?_))
    rw [hzero, Nat.zero_div]

/-- Zeros at the end of a mantissa make up for a lower exponent. -/
theorem totalExponent_mul_two_pow (hm : m ≠ 0) :
    totalExponent (m * 2 ^ n) (e - n) = totalExponent m e := by
  have hlog : (m * 2 ^ n).log2 = m.log2 + n := by
    rw [Nat.log2_eq_iff (Nat.mul_ne_zero hm (Nat.two_pow_pos n).ne')]
    have hlow := Nat.mul_le_mul_right (2 ^ n) (Nat.log2_self_le hm)
    have hhigh := Nat.mul_lt_mul_of_pos_right (Nat.lt_log2_self (n := m)) (Nat.two_pow_pos n)
    rw [← Nat.pow_add] at hlow hhigh
    exact ⟨hlow, by rwa [show m.log2 + n + 1 = m.log2 + 1 + n by omega]⟩
  rw [totalExponent, totalExponent, hlog]
  omega

theorem within_round (h : totalExponent m e ≤ k) (hk : -1074 ≤ k) (hm : m ≠ 0) :
    Within (k + 1) (UnpackedFloat.round .binary64 .positive m e) := by
  simp only [UnpackedFloat.round, decreaseExponent]
  refine within_roundWithAccuracy ?_ hk
  rw [Nat.shiftLeft_eq, totalExponent_mul_two_pow hm]
  exact h

/-- Zeros are cut off without a trace. -/
theorem shiftRight_of_dvd (h : 2 ^ n ∣ m) :
    (⟨m, false, false⟩ : ExtendedMantissa) >>> n = ⟨m / 2 ^ n, false, false⟩ := by
  induction n with
  | zero => simp [HShiftRight.hShiftRight, Nat.repeat]
  | succ n ih =>
      obtain ⟨c, rfl⟩ := h
      have hhalf : 2 ^ (n + 1) * c / 2 ^ n = 2 * c := by
        rw [Nat.pow_succ, Nat.mul_assoc, Nat.mul_div_cancel_left _ (Nat.two_pow_pos n)]
      change ExtendedMantissa.shiftRightOne
        ((⟨2 ^ (n + 1) * c, false, false⟩ : ExtendedMantissa) >>> n) = _
      rw [ih ⟨2 * c, by rw [Nat.pow_succ, Nat.mul_assoc]⟩, hhalf,
        Nat.mul_div_cancel_left _ (Nat.two_pow_pos (n + 1))]
      simp [ExtendedMantissa.shiftRightOne]

/-- A number of 53 places is not rounded. -/
theorem within_roundWithAccuracy_exact (hm : m ≠ 0) (hlt : m < 2 ^ 53) (he : -1074 ≤ e) :
    Within (totalExponent m e)
      (roundWithAccuracy .binary64 .positive (m * 2 ^ n) (e - n) .exact) := by
  have hplaces : totalExponent m e ≤ (53 : Nat) + e := (totalExponent_le_iff hm).mpr hlt
  obtain ⟨i, hi, hin⟩ : ∃ i : Nat,
      (max (totalExponent (m * 2 ^ n) (e - n) - 53) (-1074) - (e - n)).toNat = i ∧ i ≤ n := by
    refine ⟨_, rfl, ?_⟩
    rw [totalExponent_mul_two_pow hm]
    omega
  have hquot : m * 2 ^ n / 2 ^ i = m * 2 ^ (n - i) := by
    rw [Nat.mul_div_assoc _ (Nat.pow_dvd_pow 2 hin), Nat.pow_div hin (by decide)]
  have hfirst : shiftToTargetExponent .binary64 (m * 2 ^ n) (e - n) .exact =
      (⟨m * 2 ^ (n - i), false, false⟩, e - (n - i : Nat)) := by
    simp only [shiftToTargetExponent, shiftToExponent, targetExponent_eq, hi,
      ExtendedMantissa.ofMantissaAndAccuracy]
    rw [shiftRight_of_dvd ((Nat.pow_dvd_pow 2 hin).mul_left m), hquot,
      show e - (n : Int) + i = e - (n - i : Nat) by omega]
  simp only [roundWithAccuracy, hfirst, ExtendedMantissa.roundedMantissa,
    ExtendedMantissa.accuracy, Accuracy.roundToNearestEven]
  simp only [shiftToTargetExponent, shiftToExponent, mantissa_shiftRight,
    mantissa_ofMantissaAndAccuracy]
  split
  · exact .zero _
  · next hne =>
    refine .finite _ ((totalExponent_div_le hne).trans ?_)
    rw [totalExponent_mul_two_pow hm]

end Shift

/-! ### Packing -/

theorem unpackSign_packComponents {spec : Format} (s : Sign) (e : BitVec spec.exponentBits)
    (m : BitVec spec.mantissaBitsWithoutImplicit) :
    Sign.ofBitVec (unpackSign (packComponents spec s e m)) = s := by
  have hsign : unpackSign (packComponents spec s e m) = s.toBitVec := by
    ext i hi
    obtain rfl : i = 0 := by omega
    simp only [unpackSign, packComponents, BitVec.getElem_cast, BitVec.extractLsb]
    rw [BitVec.getElem_extractLsb', BitVec.getLsbD_append, BitVec.getLsbD_append]
    simp
  rw [hsign]
  cases s <;> rfl

/-- The leading digit of a mantissa that is not stored. -/
theorem toNat_one_append (m : BitVec 52) : (1#1 ++ m).toNat = 2 ^ 52 + m.toNat := by
  rw [BitVec.toNat_append, ← Nat.shiftLeft_add_eq_or_of_lt m.isLt]
  rfl

/-- The fields of a finite float give its size. -/
theorem within_packComponents {k : Int} {s : Sign} {e : BitVec 11} {m : BitVec 52}
    (hfinite : e ≠ -1#11) (hs : s = .positive ∨ e = 0#11 ∧ m = 0#52) (hlow : -1022 ≤ k)
    (hk : e ≠ 0#11 → (e.toNat : Int) - 1022 ≤ k) :
    Within k (UnpackedFloat.unpack .binary64 (packComponents .binary64 s e m)) := by
  unfold UnpackedFloat.unpack
  simp only [unpackMantissa_packComponents, unpackExponent_packComponents,
    unpackSign_packComponents]
  rw [if_neg hfinite]
  split
  · split
    · exact .zero s
    · next he hm =>
      obtain rfl : s = .positive := hs.resolve_right fun h => hm h.2
      subst he
      have hne : m.toNat ≠ 0 := fun h => hm (BitVec.eq_of_toNat_eq h)
      exact .finite _ (((totalExponent_le_iff hne).mpr m.isLt).trans hlow)
  · next he =>
    obtain rfl : s = .positive := hs.resolve_right fun h => he h.1
    have hne : (1#1 ++ m).toNat ≠ 0 := by
      rw [toNat_one_append]
      omega
    refine .finite _ (((totalExponent_le_iff hne).mpr (1#1 ++ m).isLt).trans ?_)
    have := hk he
    change (53 : Int) + ((e.toNat : Int) - (1023 + 52)) ≤ k
    omega

/-- A number is stored as it is, or as infinity if it is too large. -/
theorem within_or_infinity {k : Int} {u : UnpackedFloat} (h : Within k u) (hlow : -1022 ≤ k) :
    Within k (Float.Model.pack u).unpack ∨
      972 < k ∧ (Float.Model.pack u).unpack = .infinity .positive := by
  cases h with
  | zero s =>
      exact .inl (within_packComponents (by decide) (.inr ⟨rfl, rfl⟩) hlow fun h => absurd rfl h)
  | @finite m e hm h =>
      have hbiased : (e + (Format.binary64.exponentBias : Int) + (52 : Nat)).toNat
          = (e + 1075).toNat := by
        change (e + 1023 + 52).toNat = _
        congr 1
        omega
      simp only [totalExponent] at h
      simp only [Float.Model.unpack, Float.Model.pack, UnpackedFloat.pack, hbiased]
      split
      · next hlarge =>
        change 2048 ≤ _ at hlarge
        exact .inr ⟨by omega, rfl⟩
      · next hsmall =>
        change ¬ 2048 ≤ _ at hsmall
        refine .inl ?_
        split
        · next hbits =>
          change m.log2 + 1 = 53 at hbits
          have hfield : (BitVec.ofNat 11 (e + 1075).toNat).toNat = (e + 1075).toNat := by
            rw [BitVec.toNat_ofNat, Nat.mod_eq_of_lt (by omega)]
          refine within_packComponents (fun hone => ?_) (.inl rfl) hlow fun hne => ?_
          · rw [hone] at hfield
            change 2047 = _ at hfield
            omega
          · have hpos : (e + 1075).toNat ≠ 0 := fun hzero =>
              hne (BitVec.eq_of_toNat_eq (by rw [hfield, hzero]; rfl))
            rw [hfield]
            omega
        · exact within_packComponents (by decide) (.inl rfl) hlow fun h => absurd rfl h

theorem within_pack {k : Int} {u : UnpackedFloat} (h : Within k u) (hlow : -1022 ≤ k)
    (hhigh : k ≤ 972) : Within k (Float.Model.pack u).unpack :=
  (within_or_infinity h hlow).resolve_right fun h => by omega

/-! ### Arithmetic -/

section Arithmetic

variable {k : Int} {u v : UnpackedFloat}

theorem totalExponent_decreaseExponent {m : Nat} {e target : Int} (hm : m ≠ 0)
    (htarget : target ≤ e) :
    totalExponent (decreaseExponent m e target).1 target = totalExponent m e := by
  obtain ⟨n, rfl⟩ : ∃ n : Nat, target = e - n := ⟨(e - target).toNat, by omega⟩
  rw [decreaseExponent, Nat.shiftLeft_eq, show (e - (e - (n : Int))).toNat = n by omega]
  exact totalExponent_mul_two_pow hm

theorem totalExponent_add {m m' : Nat} {e : Int} (hm : m ≠ 0) (h : totalExponent m e ≤ k)
    (h' : totalExponent m' e ≤ k) : totalExponent (m + m') e ≤ k + 1 := by
  obtain ⟨n, rfl⟩ : ∃ n : Nat, k = n + e := ⟨(k - e).toNat, by
    simp only [totalExponent] at h
    omega⟩
  have hlt := (totalExponent_le_iff hm).mp h
  have hlt' : m' < 2 ^ n := by
    rcases eq_or_ne m' 0 with rfl | hm'
    · positivity
    · exact (totalExponent_le_iff hm').mp h'
  have hsum : m + m' < 2 ^ (n + 1) := by
    rw [Nat.pow_succ]
    omega
  have hle := (totalExponent_le_iff (e := e) (by omega : m + m' ≠ 0)).mpr hsum
  omega

theorem within_add (hu : Within k u) (hv : Within k v) (hk : -1075 ≤ k) :
    Within (k + 2) (UnpackedFloat.add .binary64 u v) := by
  cases hu with
  | zero s =>
      cases hv with
      | zero s' =>
          rw [UnpackedFloat.add]
          split <;> exact .zero _
      | finite hm h => exact .finite hm (by omega)
  | @finite m e hm h =>
      cases hv with
      | zero s => exact .finite hm (by omega)
      | @finite m' e' hm' h' =>
          simp only [UnpackedFloat.add, Sign.apply]
          have hleft := totalExponent_decreaseExponent hm.ne' (min_le_left e e')
          have hright := totalExponent_decreaseExponent hm'.ne' (min_le_right e e')
          have hpos : (decreaseExponent m e (min e e')).1 ≠ 0 := by
            rw [decreaseExponent, Nat.shiftLeft_eq]
            positivity
          generalize (decreaseExponent m e (min e e')).1 = n at *
          generalize (decreaseExponent m' e' (min e e')).1 = n' at *
          rw [UnpackedFloat.normalize, ← Int.natCast_add, compare_gt_iff_gt.mpr (by omega)]
          exact (within_round (totalExponent_add hpos (hleft ▸ h) (hright ▸ h')) (by omega)
            (by omega)).mono (by omega)

/-- A sum with zero is not rounded. -/
theorem within_add_zero (hu : Within k u) (s : Sign) :
    Within k (UnpackedFloat.add .binary64 u (.zero s)) := by
  cases hu with
  | zero s' =>
      rw [UnpackedFloat.add]
      split <;> exact .zero _
  | finite hm h => exact .finite hm h

/-- A product with a power of two is no larger than the exponents say. -/
theorem within_mul_two_pow {n : Nat} {e : Int} (hu : Within k u) (hk : -1074 ≤ k + e + n) (hn) :
    Within (k + e + n + 1) (UnpackedFloat.mul .binary64 u (.finite .positive (2 ^ n) e hn)) := by
  cases hu with
  | zero s => exact .zero _
  | @finite m e' hm h =>
      refine within_roundWithAccuracy ?_ hk
      have := totalExponent_mul_two_pow (n := n) (e := e' + e + n) hm.ne'
      rw [show e' + e + (n : Int) - n = e' + e by omega] at this
      rw [this]
      simp only [totalExponent] at *
      omega

theorem exists_within_mul {m' : Nat} {e' : Int} (hu : Within k u) (hm') :
    ∃ l, Within l (UnpackedFloat.mul .binary64 u (.finite .positive m' e' hm')) := by
  cases hu with
  | zero s => exact ⟨0, .zero _⟩
  | @finite m e hm h =>
      exact ⟨_, within_roundWithAccuracy (le_max_left _ (-1074)) (le_max_right _ _)⟩

/-- A quotient is no larger than if the divisor were its lowest place. -/
theorem within_div {m' : Nat} {e' : Int} (hm') (hu : Within k u) (hk : -1074 ≤ k - e') :
    Within (k - e' + 1) (UnpackedFloat.div .binary64 u (.finite .positive m' e' hm')) := by
  cases hu with
  | zero s => exact .zero _
  | @finite m e hm h =>
      simp only [UnpackedFloat.div, divCore]
      refine within_roundWithAccuracy ?_ hk
      generalize htarget : min (e - e') _ = target
      have hle : target ≤ e - e' := htarget ▸ min_le_left _ _
      obtain ⟨n, rfl⟩ : ∃ n : Nat, target = e - e' - n := ⟨(e - e' - target).toNat, by omega⟩
      rw [Nat.shiftLeft_eq, show (e - e' - (e - e' - (n : Int))).toNat = n by omega]
      have hwhole := totalExponent_mul_two_pow (n := n) (e := e - e') hm.ne'
      have hlog : (m * 2 ^ n / m').log2 ≤ (m * 2 ^ n).log2 := by
        rw [Nat.log2_eq_log_two, Nat.log2_eq_log_two]
        exact Nat.log_mono_right (Nat.div_le_self _ _)
      simp only [totalExponent] at *
      omega

end Arithmetic

/-! ### Floats -/

section Floats

variable {k : Int} {x y : Float}

/-- A float that is zero, or positive and below `2 ^ k`. -/
def Below (k : Int) (x : Float) : Prop := Within k x.toModel.unpack

theorem below_add (hx : Below k x) (hy : Below k y) (hlow : 0 ≤ k) (hhigh : k ≤ 970) :
    Below (k + 2) (x + y) :=
  within_pack (within_add hx hy (by omega)) (by omega) (by omega)

theorem below_div_second (hx : Below k x) (hlow : 0 ≤ k) (hhigh : k ≤ 900) :
    Below (k + 24) (x / 1000000000.0) := by
  have hunpack : (1000000000.0 : Float).toModel.unpack =
      .finite .positive 8388608000000000 (-23) (by decide) := by rfl
  have hdiv : Within (k - -23 + 1) (UnpackedFloat.div .binary64 x.toModel.unpack
      (.finite .positive 8388608000000000 (-23) (by decide))) := within_div _ hx (by omega)
  rw [← hunpack] at hdiv
  exact within_pack (hdiv.mono (by omega)) (by omega) (by omega)

theorem within_ofNat {m n : Nat} (h : m < 2 ^ n) :
    Within (n + 1) (UnpackedFloat.ofNat .binary64 m) := by
  rw [UnpackedFloat.ofNat, UnpackedFloat.ofInt, UnpackedFloat.normalize]
  rcases Nat.eq_zero_or_pos m with rfl | hpos
  · exact .zero _
  · rw [compare_gt_iff_gt.mpr (by omega)]
    have hle := (totalExponent_le_iff (e := 0) hpos.ne').mpr h
    exact within_round (hle.trans (by omega)) (by omega) hpos.ne'

/-- A natural number that has its place in the mantissa. -/
theorem below_ofScientific {m n : Nat} (hm : m < 2 ^ n) (hn : n ≤ 53) :
    Below (n + 2) (Float.ofScientific m false 0) := by
  have hsmall : m < 2 ^ 53 := hm.trans_le (Nat.pow_le_pow_right (by decide) hn)
  have hone : (Float.ofBits 0x3FF0000000000000).toModel.unpack =
      .finite .positive (2 ^ 52) (-52) (by decide) := by rfl
  have hwhole : Below (n + 1) m.toUInt64.toFloat := by
    refine within_pack (u := .ofNat .binary64 m.toUInt64.toNat) ?_ (by omega) (by omega)
    rw [Nat.toUInt64, UInt64.toNat_ofNat_of_lt' (hsmall.trans (by decide))]
    exact within_ofNat hm
  rw [Float.ofScientific, dif_pos ⟨hsmall, by decide⟩]
  have hmul := within_mul_two_pow (n := 52) (e := -52) hwhole (by omega) (by decide)
  rw [← hone] at hmul
  exact within_pack (hmul.mono (by omega)) (by omega) (by omega)

/-- A larger natural number that a float holds nevertheless. -/
theorem below_ofScientific_exact {m n k : Nat} (hm : m < 2 ^ 53) (hlarge : 2 ^ 53 ≤ m * 2 ^ n)
    (hk : m * 2 ^ n < 2 ^ k) (hhigh : k ≤ 900) :
    Below k (Float.ofScientific (m * 2 ^ n) false 0) := by
  have hne : m ≠ 0 := by
    rintro rfl
    omega
  have hround := within_roundWithAccuracy_exact (n := n + 53) (e := n) hne hm (by omega)
  have hplaces : totalExponent m n ≤ (k : Int) := by
    have := totalExponent_mul_two_pow (n := n) (e := n) hne
    rw [← this, show (n : Int) - n = 0 by omega]
    exact ((totalExponent_le_iff (by omega)).mpr hk).trans (by omega)
  rw [show (n : Int) - (n + 53 : Nat) = -53 + 0 by omega] at hround
  rw [Float.ofScientific, dif_neg (by omega)]
  refine within_pack (u := .ofScientific .binary64 (m * 2 ^ n) 0) ?_ (by omega) (by omega)
  have hlow : ¬ (0 : Int) < -((2 : Int) ^ Format.binary64.exponentBits + (m * 2 ^ n).log2) := by
    change ¬ (0 : Int) < -(2048 + ((m * 2 ^ n).log2 : Int))
    omega
  rw [UnpackedFloat.ofScientific, dif_neg (by omega), if_neg (by decide), if_neg hlow,
    if_pos (by decide), UnpackedFloat.mul]
  have hmantissa : (m * 2 ^ n) <<< Format.binary64.mantissaBits * 10 ^ (0 : Int).toNat =
      m * 2 ^ (n + 53) := by
    rw [Nat.shiftLeft_eq, Int.toNat_zero, Nat.pow_zero, Nat.mul_one, Nat.mul_assoc, ← Nat.pow_add]
    rfl
  rw [hmantissa]
  exact hround.mono hplaces

end Floats

/-! ### Bits -/

section Bits

variable {x : Float} {s : Sign} {m : Nat} {e : Int} {hm : 0 < m}

/-- The digits of a mantissa behind its first one. -/
def mantissaField (x : Float) : BitVec 52 := @unpackMantissa .binary64 x.toBits.toBitVec

/-- The exponent of a float as it is stored. -/
def exponentField (x : Float) : BitVec 11 := @unpackExponent .binary64 x.toBits.toBitVec

theorem toNat_mantissaField (x : Float) :
    (mantissaField x).toNat = x.toBits.toNat % 2 ^ 52 := by
  simp [mantissaField, unpackMantissa]

theorem toNat_exponentField (x : Float) :
    (exponentField x).toNat = x.toBits.toNat / 2 ^ 52 % 2 ^ 11 := by
  simp [exponentField, unpackExponent, Nat.shiftRight_eq_div_pow]

theorem ofBits_eq (x : Float) : Binary.ofBits x.toBits =
    if (exponentField x).toNat = 0 then ⟨(mantissaField x).toNat, -1074, false⟩
    else ⟨2 ^ 52 + (mantissaField x).toNat, (exponentField x).toNat - 1075,
      (mantissaField x).toNat == 0 && (exponentField x).toNat != 1⟩ := by
  rw [toNat_mantissaField, toNat_exponentField]
  rfl

/-- The fields of a float are its mantissa and its exponent. -/
theorem unpack_eq_finite (h : x.toModel.unpack = .finite s m e hm) :
    (Binary.ofBits x.toBits).m = m ∧ (Binary.ofBits x.toBits).e = e ∧
      m < 2 ^ 53 ∧ (-1074 < e → 2 ^ 52 ≤ m) := by
  have hlt := (mantissaField x).isLt
  rw [ofBits_eq]
  change UnpackedFloat.unpack .binary64 x.toBits.toBitVec = _ at h
  unfold UnpackedFloat.unpack at h
  simp only at h
  split at h
  · split at h <;> cases h
  · split at h
    · next hzero =>
      split at h
      · cases h
      · injection h with _ hmantissa hexponent
        have hfield : (exponentField x).toNat = 0 := congrArg BitVec.toNat hzero
        rw [hzero] at hexponent
        change (0 : Int) - 1075 + 1 = e at hexponent
        change (mantissaField x).toNat = m at hmantissa
        rw [if_pos hfield]
        exact ⟨hmantissa, show (-1074 : Int) = e by omega, by omega, by omega⟩
    · next hne =>
      injection h with _ hmantissa hexponent
      have hfield : (exponentField x).toNat ≠ 0 := fun hzero => hne (BitVec.eq_of_toNat_eq hzero)
      change (1#1 ++ mantissaField x).toNat = m at hmantissa
      change ((exponentField x).toNat : Int) - 1075 = e at hexponent
      rw [toNat_one_append] at hmantissa
      rw [if_neg hfield]
      exact ⟨hmantissa, hexponent, by omega, by omega⟩

/-- Only a zero has neither mantissa nor exponent. -/
theorem unpack_eq_zero (h : x.toModel.unpack = .zero s) : (Binary.ofBits x.toBits).m = 0 := by
  rw [ofBits_eq]
  change UnpackedFloat.unpack .binary64 x.toBits.toBitVec = _ at h
  unfold UnpackedFloat.unpack at h
  simp only at h
  split at h
  · split at h <;> cases h
  · split at h
    · next hzero =>
      split at h
      · next hmantissa =>
        have hfield : (exponentField x).toNat = 0 := congrArg BitVec.toNat hzero
        rw [if_pos hfield]
        exact congrArg BitVec.toNat hmantissa
      · cases h
    · cases h

end Bits

/-! ### Signs and comparisons -/

section Order

variable {k : Int} {x : Float}

theorem float_le_iff {x y : Float} : x ≤ y ↔ x.toModel.unpack.le y.toModel.unpack = true :=
  decide_eq_true_iff

theorem float_lt_iff {x y : Float} : x < y ↔ x.toModel.unpack.lt y.toModel.unpack = true :=
  decide_eq_true_iff

theorem unpack_nought : (0.0 : Float).toModel.unpack = .zero .positive := rfl

/-- A float that is a number and not below zero. -/
def Unsigned (x : Float) : Prop :=
  x.toModel.unpack = .infinity .positive ∨ ∃ k, Within k x.toModel.unpack

theorem Below.unsigned (h : Below k x) : Unsigned x := .inr ⟨k, h⟩

theorem Below.isFinite (h : Below k x) : x.isFinite = true := by
  unfold Below at h
  change x.toModel.unpack.isFinite = true
  generalize x.toModel.unpack = u at *
  cases h <;> rfl

theorem Below.nonneg (h : Below k x) : 0.0 ≤ x := by
  unfold Below at h
  rw [float_le_iff, unpack_nought]
  generalize x.toModel.unpack = u at *
  cases h <;> rfl

theorem exists_below (hfinite : x.isFinite = true) (hneg : ¬ x < 0.0) : ∃ k, Below k x := by
  change x.toModel.unpack.isFinite = true at hfinite
  rw [float_lt_iff, unpack_nought] at hneg
  unfold Below
  generalize x.toModel.unpack = u at *
  match u with
  | .zero s => exact ⟨0, .zero s⟩
  | .finite .positive m e hm => exact ⟨_, .finite hm le_rfl⟩
  | .finite .negative m e hm => exact absurd rfl hneg
  | .infinity s => cases hfinite
  | .notANumber => cases hfinite

theorem not_lt_of_nonneg (h : 0.0 ≤ x) : ¬ x < 0.0 := by
  rw [float_le_iff, unpack_nought] at h
  rw [float_lt_iff, unpack_nought]
  generalize x.toModel.unpack = u at *
  match u with
  | .zero _ => exact Bool.false_ne_true
  | .finite .positive .. => exact Bool.false_ne_true
  | .finite .negative .. => cases h
  | .infinity .positive => exact Bool.false_ne_true
  | .infinity .negative => cases h
  | .notANumber => cases h

/-- A product with a positive float is a number that is not below zero. -/
theorem Below.unsigned_mul {y : Float} {m : Nat} {e : Int} {hm : 0 < m} (hx : Below k x)
    (hy : y.toModel.unpack = .finite .positive m e hm) : Unsigned (x * y) := by
  obtain ⟨l, hl⟩ := exists_within_mul hx hm
  rw [← hy] at hl
  exact (within_or_infinity (hl.mono (le_max_left l (-1022))) (le_max_right _ _)).symm.imp And.right
    fun h => ⟨_, h⟩

end Order

end PullFlow.Decimal
