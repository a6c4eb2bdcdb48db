import PullFlow.Duration
import PullFlow.Proofs.Decimal.Magnitude

/-!
Which spans of time can be told. A number of seconds, after its unit, is rounded to a duration if it
is below `2 ^ 64`; nothing else overflows. The seconds of a duration made in that way read back.
-/

namespace PullFlow

open Float.Model Float.Model.UnpackedFloat

namespace Duration

open Decimal

/-- The number of seconds that no duration reaches. -/
def limit : Float := 18446744073709551616.0

theorem unpack_limit : limit.toModel.unpack = .finite .positive (2 ^ 52) 12 (by decide) := rfl

variable {d : Duration} {x : Float}

/-- Durations of fewer seconds than a mantissa counts. -/
theorem below_toSeconds (h : d.nanos < 2 ^ 53 * second) : Below 64 d.toSeconds := by
  have hseconds : d.seconds < 2 ^ 53 := Nat.div_lt_of_lt_mul (by rwa [Nat.mul_comm])
  have hsubsecond : d.subsecond < 2 ^ 30 := (Nat.mod_lt _ (by decide)).trans (by decide)
  have hwhole := below_ofScientific hseconds le_rfl
  have hrest := below_div_second (below_ofScientific hsubsecond (by decide)) (by decide) (by decide)
  exact (below_add (k := 56) (hwhole.mono (by decide)) (hrest.mono (by decide)) (by decide)
    (by decide)).mono (by decide)

/-- Durations of whole seconds that a float holds. -/
theorem below_toSeconds_whole {m n : Nat} (hd : d.nanos = m * 2 ^ n * second) (hm : m < 2 ^ 53)
    (hlt : m * 2 ^ n < wordLimit) : Below 64 d.toSeconds := by
  rcases Nat.lt_or_ge (m * 2 ^ n) (2 ^ 53) with hsmall | hlarge
  · refine below_toSeconds ?_
    rw [hd]
    exact Nat.mul_lt_mul_of_pos_right hsmall (by decide)
  · have hseconds : d.seconds = m * 2 ^ n := by
      rw [seconds, hd, Nat.mul_div_cancel _ (by decide)]
    have hsubsecond : d.subsecond = 0 := by
      rw [subsecond, hd, Nat.mul_mod_left]
    have hnought : (Float.ofScientific 0 false 0 / 1000000000.0).toModel.unpack =
        .zero .positive := rfl
    have hwhole := below_ofScientific_exact (k := 64) hm hlarge hlt (by decide)
    have hsum := within_add_zero hwhole .positive
    rw [← hnought] at hsum
    rw [toSeconds, hseconds, hsubsecond]
    exact within_pack hsum (by decide) (by decide)

/-- A normal float is below the limit by its exponent. -/
theorem lt_limit_iff {m : Nat} {e : Int} {hm : 0 < m}
    (h : x.toModel.unpack = .finite .positive m e hm) (hnormal : -1074 < e → 2 ^ 52 ≤ m) :
    x < limit ↔ e < 12 := by
  rw [float_lt_iff, unpack_limit, h]
  simp only [UnpackedFloat.lt, UnpackedFloat.compare, beq_iff_eq, Option.some.injEq]
  rcases lt_trichotomy e 12 with hlt | rfl | hgt
  · rw [compare_lt_iff_lt.mpr hlt]
    exact ⟨fun _ => hlt, fun _ => rfl⟩
  · rw [compare_eq_iff_eq.mpr rfl]
    refine ⟨fun hcompare => ?_, fun h => absurd h (by decide)⟩
    have hbelow : m < 2 ^ 52 := compare_lt_iff_lt.mp hcompare
    exact absurd (hnormal (by decide)) (by omega)
  · rw [compare_gt_iff_gt.mpr hgt]
    exact ⟨fun h => Ordering.noConfusion h, fun h => absurd h (by omega)⟩

/-! ### Rounding to nanoseconds -/

theorem roundDiv_le (num den : Nat) : roundDiv num den ≤ num / den + 1 := by
  unfold roundDiv
  dsimp only
  split
  · omega
  · split
    · omega
    · split <;> omega

/-- The nanoseconds of `m · 2 ^ e` seconds. -/
def rounded (m : Nat) (e : Int) : Nat :=
  roundDiv ((Ratio.scaled m e).num * second) (Ratio.scaled m e).den

theorem ofSeconds_eq (hfinite : x.isFinite = true) : ofSeconds x =
    let nanos := rounded (Binary.ofBits x.toBits).m (Binary.ofBits x.toBits).e
    if nanos < wordLimit * second then .ok ⟨nanos⟩ else .error .overflow := by
  rw [ofSeconds]
  simp only [hfinite, Bool.not_true, Bool.false_eq_true, if_false]
  rfl

theorem rounded_ofNat (m n : Nat) : rounded m (.ofNat n) = m * 2 ^ n * second := by
  have hscaled : Ratio.scaled m (.ofNat n) = ⟨m * 2 ^ n, 1⟩ := rfl
  rw [rounded, hscaled]
  simp [roundDiv, Nat.mod_one]

/-- With a fraction the seconds are no more than a mantissa counts. -/
theorem rounded_negSucc_lt {m : Nat} (hm : m < 2 ^ 53) (n : Nat) :
    rounded m (.negSucc n) < 2 ^ 53 * second := by
  have hscaled : Ratio.scaled m (.negSucc n) = ⟨m, 2 ^ (n + 1)⟩ := rfl
  rw [rounded, hscaled]
  dsimp only
  have hle := roundDiv_le (m * second) (2 ^ (n + 1))
  have hhalf : m * second / 2 ^ (n + 1) ≤ m * second / 2 :=
    Nat.div_le_div_left (Nat.le_self_pow (by omega) 2) (by decide)
  have hwhole : m * second ≤ 2 ^ 53 * second := Nat.mul_le_mul_right _ hm.le
  have hmany : 4 ≤ 2 ^ 53 * second := by decide
  omega

theorem rounded_zero (e : Int) : rounded 0 e = 0 := by
  cases e with
  | ofNat n => rw [rounded_ofNat, Nat.zero_mul, Nat.zero_mul]
  | negSucc n =>
      have hscaled : Ratio.scaled 0 (.negSucc n) = ⟨0, 2 ^ (n + 1)⟩ := rfl
      rw [rounded, hscaled, Nat.zero_mul]
      simp [roundDiv]

variable {m : Nat} {e : Int}

/-- The exponent alone decides whether the nanoseconds are in range. -/
theorem rounded_lt_iff (hm : m < 2 ^ 53) (hnormal : -1074 < e → 2 ^ 52 ≤ m) :
    rounded m e < wordLimit * second ↔ e < 12 := by
  cases e with
  | ofNat n =>
      rw [rounded_ofNat, Nat.mul_lt_mul_right (by decide)]
      change _ ↔ (n : Int) < 12
      constructor
      · intro hrange
        by_contra hlarge
        have hpow : 2 ^ 12 ≤ 2 ^ n := Nat.pow_le_pow_right (by decide) (by omega)
        have hwhole : 2 ^ 52 ≤ m := hnormal (show -1074 < (n : Int) by omega)
        exact absurd (Nat.mul_le_mul hwhole hpow) (Nat.not_le.mpr hrange)
      · intro hsmall
        calc m * 2 ^ n < 2 ^ 53 * 2 ^ n := Nat.mul_lt_mul_of_pos_right hm (Nat.two_pow_pos n)
          _ ≤ 2 ^ 53 * 2 ^ 11 :=
            Nat.mul_le_mul_left _ (Nat.pow_le_pow_right (by decide) (by omega))
          _ = wordLimit := by decide
  | negSucc n =>
      have hrange : 2 ^ 53 * second < wordLimit * second := by decide
      exact iff_of_true ((rounded_negSucc_lt hm n).trans hrange) (by omega)

/-- Nanoseconds in range turn into seconds below the limit. -/
theorem below_toSeconds_rounded (hm : m < 2 ^ 53) (h : rounded m e < wordLimit * second) :
    Below 64 (toSeconds ⟨rounded m e⟩) := by
  cases e with
  | ofNat n =>
      have hnanos := rounded_ofNat m n
      rw [hnanos] at h
      exact below_toSeconds_whole hnanos hm (Nat.lt_of_mul_lt_mul_right h)
  | negSucc n => exact below_toSeconds (rounded_negSucc_lt hm n)

/-- A number of seconds is told exactly if it is below the limit. -/
theorem ofSeconds_cases (h : Unsigned x) :
    (x < limit ∧ ∃ d, ofSeconds x = .ok d ∧ Below 64 d.toSeconds) ∨
      (¬ x < limit ∧ ofSeconds x = .error .overflow) := by
  obtain hinfinite | ⟨k, hk⟩ := h
  · refine .inr ⟨?_, ?_⟩
    · rw [float_lt_iff, hinfinite, unpack_limit]
      exact Bool.false_ne_true
    · have hnot : x.isFinite = false := congrArg UnpackedFloat.isFinite hinfinite
      rw [ofSeconds, hnot]
      rfl
  · have htold := ofSeconds_eq (Below.isFinite hk)
    generalize hu : x.toModel.unpack = u at hk
    cases hk with
    | zero s =>
        rw [unpack_eq_zero hu, rounded_zero] at htold
        refine .inl ⟨?_, ⟨0⟩, htold.trans (if_pos (by decide)), below_toSeconds (by decide)⟩
        rw [float_lt_iff, hu, unpack_limit]
        rfl
    | @finite m e _ _ =>
        obtain ⟨hbm, hbe, hm, hnormal⟩ := unpack_eq_finite hu
        have hrange := rounded_lt_iff hm hnormal
        rw [hbm, hbe] at htold
        rw [lt_limit_iff hu hnormal, ← hrange]
        by_cases hlt : rounded m e < wordLimit * second
        · exact .inl ⟨hlt, _, htold.trans (if_pos hlt), below_toSeconds_rounded hm hlt⟩
        · exact .inr ⟨hlt, htold.trans (if_neg hlt)⟩

theorem lt_limit_of_below (h : Below 64 x) : x < limit := by
  unfold Below at h
  generalize hu : x.toModel.unpack = u at h
  cases h with
  | zero s =>
      rw [float_lt_iff, hu, unpack_limit]
      rfl
  | @finite m e hm h =>
      obtain ⟨_, _, _, hnormal⟩ := unpack_eq_finite hu
      refine (lt_limit_iff hu hnormal).mpr (lt_of_not_ge fun hlarge => ?_)
      have hlog : 52 ≤ m.log2 := (Nat.le_log2 hm.ne').mpr (hnormal (by omega))
      simp only [totalExponent] at h
      omega

/-! ### What texts and values spell -/

/-- The number of seconds a text spells, if it is one and not negative. -/
def spelled? (s : String) : Option Float :=
  let (number, scale) := cutUnit (Text.trim s)
  ((Decimal.float? (Text.trim number)).filter fun x => x.isFinite && !(x < 0.0)).map (· * scale)

/-- The number of seconds a value spells, if it is one and not negative. -/
def seconds? : Value → Option Float
  | .number n => some n.toFloat |>.filter fun x => x.isFinite && 0.0 ≤ x
  | .text s => spelled? s
  | _ => none

/-- A value that spells more seconds than a duration can be told. -/
def TooLong (v : Value) : Prop := ∃ x ∈ seconds? v, ¬ x < limit

instance (v : Value) : Decidable (TooLong v) :=
  inferInstanceAs (Decidable (∃ x ∈ seconds? v, ¬ x < limit))

theorem parse_eq (s : String) : parse s = match spelled? s with
    | some x => ofSeconds x
    | none => .error (.configuration (.durationText (Text.trim s))) := by
  unfold parse spelled?
  dsimp only
  cases Decimal.float? (Text.trim (cutUnit (Text.trim s)).1) with
  | none => rfl
  | some x =>
      rw [Option.filter_some]
      dsimp only
      split
      · rw [Option.map_some]
      · rw [Option.map_none]

/-- Every unit is a positive number of seconds. -/
theorem unpack_cutUnit (s : String) : ∃ m e hm,
    (cutUnit s).2.toModel.unpack = .finite .positive m e hm := by
  have hunits : ∀ u ∈ ("", 1.0) :: units, ∃ m e hm,
      u.2.toModel.unpack = .finite .positive m e hm := by
    simp only [units, List.forall_mem_cons]
    refine ⟨?_, ?_, ?_, ?_, ?_, ?_, List.forall_mem_nil _⟩
    · exact ⟨2 ^ 52, -52, by decide, rfl⟩
    · exact ⟨4611686018427388, -62, by decide, rfl⟩
    · exact ⟨2 ^ 52, -52, by decide, rfl⟩
    · exact ⟨8444249301319680, -47, by decide, rfl⟩
    · exact ⟨7916483719987200, -41, by decide, rfl⟩
    · exact ⟨5937362789990400, -36, by decide, rfl⟩
  rw [cutUnit]
  cases hcut : units.findSome? _ with
  | none => exact hunits ("", 1.0) List.mem_cons_self
  | some found =>
      obtain ⟨u, hu, hfound⟩ := List.exists_of_findSome?_eq_some hcut
      obtain ⟨cs, _, rfl⟩ := Option.map_eq_some_iff.mp hfound
      exact hunits u (List.mem_cons_of_mem _ hu)

theorem unsigned_of_spelled? {s : String} (h : spelled? s = some x) : Unsigned x := by
  simp only [spelled?] at h
  obtain ⟨n, hn, rfl⟩ := Option.map_eq_some_iff.mp h
  obtain ⟨hfinite, hneg⟩ := (Bool.and_eq_true _ _).mp (Option.filter_eq_some_iff.mp hn).2
  obtain ⟨k, hk⟩ := exists_below hfinite (by simpa using hneg)
  obtain ⟨m, e, hm, hunit⟩ := unpack_cutUnit (Text.trim s)
  exact hk.unsigned_mul hunit

theorem unsigned_of_seconds? {v : Value} (h : seconds? v = some x) : Unsigned x := by
  cases v with
  | number n =>
      rw [seconds?] at h
      obtain ⟨hx, haccepted⟩ := Option.filter_eq_some_iff.mp h
      obtain ⟨hfinite, hnonneg⟩ := (Bool.and_eq_true _ _).mp haccepted
      obtain ⟨k, hk⟩ := exists_below hfinite (not_lt_of_nonneg (of_decide_eq_true hnonneg))
      exact hk.unsigned
  | text s =>
      rw [seconds?] at h
      exact unsigned_of_spelled? h
  | null | bool _ | list _ | object _ => simp [seconds?] at h

theorem ofValue_cases (v : Value) :
    (∃ x, seconds? v = some x ∧ ofValue v = ofSeconds x) ∨
      (seconds? v = none ∧ ∃ m, ofValue v = .error (.configuration m)) := by
  cases v with
  | number n =>
      rw [seconds?, Option.filter_some]
      unfold ofValue
      dsimp only
      split
      · exact .inl ⟨_, rfl, rfl⟩
      · exact .inr ⟨rfl, _, rfl⟩
  | text s =>
      rw [seconds?, ofValue, parse_eq]
      cases spelled? s with
      | some x => exact .inl ⟨x, rfl, rfl⟩
      | none => exact .inr ⟨rfl, _, rfl⟩
  | null | bool _ | list _ | object _ => exact .inr ⟨rfl, _, rfl⟩

/-- A value is a duration that can be told again, or rejected, or too long. -/
theorem ofValue_result (v : Value) :
    (¬ TooLong v ∧ ∃ d, ofValue v = .ok d ∧ Below 64 d.toSeconds) ∨
      (¬ TooLong v ∧ ∃ m, ofValue v = .error (.configuration m)) ∨
      (TooLong v ∧ ofValue v = .error .overflow) := by
  rcases ofValue_cases v with ⟨x, hx, hv⟩ | ⟨hnone, hrejected⟩
  · rw [hv]
    rcases ofSeconds_cases (unsigned_of_seconds? hx) with ⟨hlt, htold⟩ | ⟨hnot, hover⟩
    · refine .inl ⟨?_, htold⟩
      rintro ⟨y, hy, hlong⟩
      obtain rfl : x = y := Option.some.inj (hx.symm.trans hy)
      exact hlong hlt
    · exact .inr (.inr ⟨⟨x, hx, hnot⟩, hover⟩)
  · refine .inr (.inl ⟨?_, hrejected⟩)
    rintro ⟨y, hy, -⟩
    rw [hnone] at hy
    cases hy

theorem ofValue_eq_overflow_iff {v : Value} : ofValue v = .error .overflow ↔ TooLong v := by
  rcases ofValue_result v with ⟨hshort, d, hd, _⟩ | ⟨hshort, m, hm⟩ | ⟨hlong, hover⟩
  · simp [hd, hshort]
  · simp [hm, hshort]
  · simp [hover, hlong]

theorem parse_eq_overflow_iff {s : String} : parse s = .error .overflow ↔ TooLong (.text s) :=
  ofValue_eq_overflow_iff (v := .text s)

/-- A duration, or an error of configuration. -/
def Answered (r : Except Error Duration) : Prop :=
  (∃ d, r = .ok d) ∨ ∃ m, r = .error (.configuration m)

theorem ofValue_answered {v : Value} (h : ¬ TooLong v) : Answered (ofValue v) := by
  rcases ofValue_result v with ⟨_, d, hd, _⟩ | ⟨_, m, hm⟩ | ⟨hlong, _⟩
  · exact .inl ⟨d, hd⟩
  · exact .inr ⟨m, hm⟩
  · exact absurd hlong h

/-- The seconds of a duration read back. -/
theorem ofValue_float_of_below (h : Below 64 x) : ∃ d, ofValue (.float x) = .ok d := by
  have hvalue : ofValue (.float x) = ofSeconds x := by
    simp [Value.float, ofValue, Number.toFloat, h.isFinite, h.nonneg]
  rcases ofSeconds_cases h.unsigned with ⟨_, d, hd, _⟩ | ⟨hnot, _⟩
  · exact ⟨d, hvalue.trans hd⟩
  · exact absurd (lt_limit_of_below h) hnot

end Duration
end PullFlow
