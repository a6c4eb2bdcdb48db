import PullFlow.Operator.ListFunction
import PullFlow.Proofs.Assembly
import PullFlow.Proofs.Decimal.Nearest
import PullFlow.Proofs.Getters
import PullFlow.Proofs.Json.Tokens

/-!
What becomes of integers where an integer of 64 bits is asked for: by the operators for integers,
in a list and as an argument of a parameter. A number of JSON or a text that spells an integer gives
that integer if it fits. One that does not fit goes through its float and gives the nearest integer
that fits, except that a parameter refuses the text of such an integer.
-/

namespace PullFlow

namespace Decimal

open Float.Model Float.Model.UnpackedFloat

/-- The word of 64 bits with sign that is nearest to an integer. -/
def clamp64 (n : Int) : Int := max (-signedLimit) (min n (signedLimit - 1))

theorem clamp64_eq_iff {n : Int} : clamp64 n = n ↔ fitsSigned n = true := by
  rw [fitsSigned_iff, clamp64]
  have hlimit : signedLimit = 9223372036854775808 := rfl
  omega

/-! ### Cutting the float of a large integer -/

section Truncate

variable {x : Float} {r n : Int}

/-- The rank of the first float beyond the words of 64 bits with sign. -/
def limitRank : Int := 64 * 2 ^ 52

theorem rank_limit : rank signedLimit = limitRank := by decide +kernel

theorem rank_le_topGrade (n : Int) : rank n ≤ topGrade := by
  unfold rank
  split <;> omega

theorem limitRank_le_rank (h : (signedLimit : Int) ≤ n) : limitRank ≤ rank n :=
  rank_limit ▸ rank_mono h

theorem rank_le_limitRank (h : n < -(signedLimit : Int)) : rank n ≤ -limitRank := by
  have hlow : rank (-(signedLimit : Int)) = -limitRank := by decide +kernel
  exact hlow ▸ rank_mono h.le

/-- The whole part of a float that has no places behind the point. -/
theorem magnitudeOf_eq {s : Sign} {m : Nat} {k : Nat} {hm : 0 < m}
    (h : x.toModel.unpack = .finite s m k hm) : magnitudeOf x = ⟨m * 2 ^ k, 1⟩ := by
  obtain ⟨hmantissa, hexponent, -, -⟩ := unpack_eq_finite h
  rw [magnitudeOf, hmantissa, hexponent]
  rfl

/-- A float as large as the words of 64 bits are is cut to the last of them on its side. -/
theorem truncate64_of_limit (h : Ranked r x.toModel.unpack) (hlarge : limitRank ≤ r.natAbs) :
    truncate64 x = if r < 0 then -(signedLimit : Int) else signedLimit - 1 := by
  have hnan : x.isNaN = false := by
    change x.toModel.unpack.isNaN = false
    generalize x.toModel.unpack = u at h
    cases h <;> rfl
  have hbeyond : (x.isInf || decide (signedLimit ≤ (magnitudeOf x).num / (magnitudeOf x).den)) =
      true := by
    change (x.toModel.unpack.isInf || _) = true
    cases hu : x.toModel.unpack with
    | infinity s => rfl
    | notANumber => cases hu ▸ h
    | zero s =>
        cases hu ▸ h
        exact absurd hlarge (by decide)
    | finite s m e hm =>
        obtain ⟨hfirst, he⟩ : 2 ^ 52 ≤ m ∧ 11 ≤ e := by
          cases hu ▸ h with
          | finite s hfirst hlast he hsmall =>
              refine ⟨hfirst, ?_⟩
              unfold limitRank at hlarge
              cases s <;> simp only [Sign.apply] at hlarge <;> omega
        obtain ⟨k, rfl⟩ : ∃ k : Nat, e = k := ⟨e.toNat, by omega⟩
        rw [magnitudeOf_eq hu, Nat.div_one, Bool.or_eq_true, decide_eq_true_iff]
        refine .inr ?_
        calc signedLimit = 2 ^ 52 * 2 ^ 11 := by decide
          _ ≤ m * 2 ^ k := Nat.mul_le_mul hfirst (Nat.pow_le_pow_right (by decide) (by omega))
  have hsign : x < 0.0 ↔ r < 0 := by
    rw [float_lt_iff, unpack_nought, UnpackedFloat.lt, h.compare_eq (.zero .positive),
      ← compare_lt_iff_lt]
    simp
  rw [truncate64, hnan, if_neg Bool.false_ne_true]
  simp only [hbeyond, if_true, hsign]

/-- An integer beyond the words of 64 bits becomes the last of them through its float. -/
theorem truncate64_toFloat (h : fitsSigned n = false) (hx : Ranked r x.toModel.unpack)
    (hlarge : signedLimit ≤ n → limitRank ≤ r) (hsmall : n < -signedLimit → r ≤ -limitRank) :
    truncate64 x = clamp64 n := by
  rw [← Bool.not_eq_true, fitsSigned_iff, not_and_or, not_le, not_lt] at h
  have hlimit : signedLimit = 9223372036854775808 := rfl
  have hrank : limitRank = 64 * 2 ^ 52 := rfl
  unfold clamp64
  rcases h with h | h
  · have hr := hsmall h
    rw [truncate64_of_limit hx (by omega), if_pos (by omega)]
    omega
  · have hr := hlarge h
    rw [truncate64_of_limit hx (by omega), if_neg (by omega)]
    omega

theorem truncate64_int (h : fitsSigned n = false) :
    truncate64 (Number.int n).toFloat = clamp64 n :=
  truncate64_toFloat h (ranked_toFloat n) limitRank_le_rank rank_le_limitRank

/-- The float of a number of JSON that is no word of 64 bits with sign is whole. -/
theorem isWhole_int (h : fitsSigned n = false) (hfits : (Number.int n).Fits) :
    isWhole (Number.int n).toFloat = true := by
  have hlarge : (signedLimit : Int) ≤ n := by
    rw [← Bool.not_eq_true, fitsSigned_iff] at h
    obtain ⟨hlow, -⟩ := hfits
    omega
  have hlow := limitRank_le_rank hlarge
  have hhigh : rank n ≤ 65 * 2 ^ 52 :=
    (rank_mono hfits.2.le).trans (by decide +kernel)
  have hranked := ranked_toFloat n
  have hrank : limitRank = 64 * 2 ^ 52 := rfl
  have htop : topGrade = 1025 * 2 ^ 52 := rfl
  generalize rank n = r at *
  generalize hu : (Number.int n).toFloat.toModel.unpack = u at hranked
  cases hranked with
  | zero s => omega
  | infinity s => cases s <;> simp only [Sign.apply] at * <;> omega
  | @finite s m e hm hfirst hlast he hsmall =>
      obtain ⟨k, rfl⟩ : ∃ k : Nat, e = k := by
        refine ⟨e.toNat, ?_⟩
        cases s <;> simp only [Sign.apply] at hlow <;> omega
      have hfinite : (Number.int n).toFloat.isFinite = true := by
        change (Number.int n).toFloat.toModel.unpack.isFinite = true
        rw [hu]
        rfl
      rw [isWhole, hfinite, magnitudeOf_eq hu, Nat.mod_one]
      rfl

end Truncate

/-! ### Texts of integers -/

/-- Decimal digits, at least one. -/
def Numeral (cs : List Char) : Prop := cs ≠ [] ∧ ∀ c ∈ cs, c.isDigit = true

/-- A sign in front of digits, with whether it is a minus. -/
inductive LeadingSign : List Char → Bool → Prop
  | none : LeadingSign [] false
  | plus : LeadingSign ['+'] false
  | minus : LeadingSign ['-'] true

/-- The text of an integer: digits behind a sign that may be left out. Blanks around it do not
count. -/
def Spells (s : String) (n : Int) : Prop :=
  ∃ sign negative digits, LeadingSign sign negative ∧ Numeral digits ∧
    (Text.trim s).toList = sign ++ digits ∧
    n = if negative then -(Nat.ofDigitChars 10 digits 0 : Int) else Nat.ofDigitChars 10 digits 0

section Spelling

variable {s : String} {n : Int} {digits sign : List Char} {negative : Bool}

theorem digitsFrom?_eq (hdigits : ∀ c ∈ digits, c.isDigit = true) (m : Nat) :
    digitsFrom? m digits = some (Nat.ofDigitChars 10 digits m) := by
  induction digits generalizing m with
  | nil => rw [Nat.ofDigitChars_nil, digitsFrom?]
  | cons c rest ih =>
      rw [digitsFrom?, if_pos (hdigits c List.mem_cons_self), Nat.ofDigitChars_cons,
        ih (fun c hc => hdigits c (List.mem_cons_of_mem _ hc)), Nat.mul_comm]

theorem digits?_eq (h : Numeral digits) : digits? digits = some (Nat.ofDigitChars 10 digits 0) := by
  rw [digits?, if_neg (by simpa using h.1), digitsFrom?_eq h.2]

/-- A digit is no sign. -/
theorem signed_append (hsign : LeadingSign sign negative) (h : Numeral digits) :
    signed (sign ++ digits) = (negative, digits) := by
  cases hsign with
  | plus | minus => rfl
  | none =>
      obtain ⟨c, rest, rfl⟩ := List.exists_cons_of_ne_nil h.1
      have hc := h.2 c List.mem_cons_self
      have hminus : c ≠ '-' := by rintro rfl; cases hc
      have hplus : c ≠ '+' := by rintro rfl; cases hc
      rw [List.nil_append, signed]
      · exact fun _ hcs => hminus (List.cons.inj hcs).1
      · exact fun _ hcs => hplus (List.cons.inj hcs).1

theorem integer?_of_spells (h : Spells s n) : integer? (Text.trim s) = some n := by
  obtain ⟨sign, negative, digits, hsign, hdigits, htext, rfl⟩ := h
  rw [integer?, htext, signed_append hsign hdigits]
  simp only [digits?_eq hdigits]
  rfl

theorem toLower_of_isDigit {c : Char} (h : c.isDigit = true) : c.toLower = c := by
  rw [Char.isDigit, Bool.and_eq_true, decide_eq_true_iff, decide_eq_true_iff] at h
  rw [Char.toLower, dif_neg]
  exact fun hupper => absurd (UInt32.le_trans hupper.1 h.2) (by decide)

/-- Digits spell no word. -/
theorem word_ne (letters : List Char) (h : Numeral digits)
    (hletters : letters.any Char.isDigit = false) :
    String.ofList (digits.map Char.toLower) ≠ String.ofList letters := by
  obtain ⟨c, rest, rfl⟩ := List.exists_cons_of_ne_nil h.1
  have hc := h.2 c List.mem_cons_self
  intro heq
  rw [String.ofList_inj] at heq
  subst heq
  rw [List.map_cons, List.any_cons, toLower_of_isDigit hc, hc] at hletters
  cases hletters

theorem decimal?_eq (h : Numeral digits) :
    decimal? digits = some (nearest (Nat.ofDigitChars 10 digits 0) 0) := by
  have htake : digits.takeWhile Char.isDigit = digits := List.takeWhile_eq_self_iff.mpr h.2
  have hdrop : digits.dropWhile Char.isDigit = [] := List.dropWhile_eq_nil_iff.mpr h.2
  simp [decimal?, htake, hdrop, digits?_eq h, exponent?]

/-- The float of digits is the one of their number, or infinite if they are too many. -/
theorem ranked_nearest {m : Nat} (h : m ≠ 0) :
    ∃ r, Ranked r (nearest m 0).toModel.unpack ∧ rank m ≤ r := by
  unfold nearest
  rw [if_neg h]
  dsimp only
  rw [if_neg (by rw [Int.ofNat_eq_natCast]; omega)]
  split
  · exact ⟨topGrade, .infinity .positive, rank_le_topGrade _⟩
  · exact ⟨rank m, ranked_toFloat m, le_rfl⟩

/-- The float that the text of an integer spells is cut like the float of the integer. -/
theorem float?_of_spells (h : Spells s n) (hlarge : fitsSigned n = false) :
    ∃ x, float? (Text.trim s) = some x ∧ truncate64 x = clamp64 n := by
  obtain ⟨sign, negative, digits, hsign, hdigits, htext, rfl⟩ := h
  have hne : Nat.ofDigitChars 10 digits 0 ≠ 0 := by
    intro hzero
    rw [hzero] at hlarge
    cases negative <;> cases hlarge
  obtain ⟨r, hranked, hr⟩ := ranked_nearest hne
  refine ⟨if negative then -(nearest (Nat.ofDigitChars 10 digits 0) 0)
    else nearest (Nat.ofDigitChars 10 digits 0) 0, ?_, ?_⟩
  · have hinf : String.ofList (digits.map Char.toLower) ≠ "inf" :=
      word_ne ['i', 'n', 'f'] hdigits (by decide)
    have hinfinity : String.ofList (digits.map Char.toLower) ≠ "infinity" :=
      word_ne ['i', 'n', 'f', 'i', 'n', 'i', 't', 'y'] hdigits (by decide)
    have hnan : String.ofList (digits.map Char.toLower) ≠ "nan" :=
      word_ne ['n', 'a', 'n'] hdigits (by decide)
    rw [float?, htext, signed_append hsign hdigits]
    simp [hinf, hinfinity, hnan, decimal?_eq hdigits]
  · have hlimit : (0 : Int) < signedLimit := by decide
    cases negative with
    | false =>
        refine truncate64_toFloat hlarge hranked (fun h => (limitRank_le_rank h).trans hr) ?_
        intro h
        simp only [Bool.false_eq_true, if_false] at h
        omega
    | true =>
        have hneg := hranked.neg
        rw [← hranked.unpack_neg] at hneg
        refine truncate64_toFloat hlarge hneg (fun h => ?_) fun h => ?_
        · simp only [if_true] at h
          omega
        · simp only [if_true] at h
          have := (@limitRank_le_rank (Nat.ofDigitChars 10 digits 0) (by omega)).trans hr
          omega

/-- Text without blanks stays as it is. -/
theorem toList_trim {s : String} (h : ∀ c ∈ s.toList, Text.isBlank c = false) :
    (Text.trim s).toList = s.toList := by
  have hdrop : s.toList.dropWhile Text.isBlank = s.toList := by
    rw [List.dropWhile_eq_self_iff]
    exact fun _ => by rw [h _ (List.getElem_mem _)]; exact Bool.false_ne_true
  have hback : s.toList.reverse.dropWhile Text.isBlank = s.toList.reverse := by
    rw [List.dropWhile_eq_self_iff]
    exact fun _ => by
      rw [h _ (List.mem_reverse.mp (List.getElem_mem _))]
      exact Bool.false_ne_true
  rw [Text.trim, String.toList_ofList, hdrop, Text.trimEnd, hback, List.reverse_reverse]

theorem isBlank_of_isDigit {c : Char} (h : c.isDigit = true) : Text.isBlank c = false := by
  rw [Char.isDigit, Bool.and_eq_true, decide_eq_true_iff, decide_eq_true_iff] at h
  have hlow : 48 ≤ c.toNat := UInt32.le_iff_toNat_le.mp h.1
  have hhigh : c.toNat ≤ 57 := UInt32.le_iff_toNat_le.mp h.2
  simp only [Text.isBlank]
  grind

/-- The decimal text of an integer spells it. -/
theorem spells_toString (n : Int) : Spells (toString n) n := by
  have htext : (toString n).toList =
      (if 0 ≤ n then [] else ['-']) ++ Nat.toDigits 10 n.natAbs := by
    rw [Int.toString_eq_repr, Int.repr_eq_if]
    split
    · rw [Nat.toList_repr, show n.toNat = n.natAbs by omega]
      rfl
    · rw [String.toList_append, Nat.toList_repr, show (-n).toNat = n.natAbs by omega]
      rfl
  have hdigits : ∀ c ∈ Nat.toDigits 10 n.natAbs, c.isDigit = true := fun c hc =>
    Nat.isDigit_of_mem_toDigits (by decide) (by decide) hc
  refine ⟨if 0 ≤ n then [] else ['-'], decide (n < 0), Nat.toDigits 10 n.natAbs, ?_,
    ⟨Nat.toDigits_ne_nil, hdigits⟩, ?_, ?_⟩
  · by_cases hn : 0 ≤ n
    · rw [if_pos hn, decide_eq_false (by omega)]
      exact .none
    · rw [if_neg hn, decide_eq_true (by omega)]
      exact .minus
  · rw [← htext]
    refine toList_trim fun c hc => ?_
    rw [htext, List.mem_append] at hc
    rcases hc with hc | hc
    · split at hc
      · cases hc
      · rw [List.mem_singleton.mp hc]
        decide
    · exact isBlank_of_isDigit (hdigits c hc)
  · rw [Nat.ofDigitChars_ten_toDigits]
    split
    · next h => simp at h; omega
    · next h => simp at h; omega

end Spelling

end Decimal

open Decimal

variable {v : Value} {n : Int} {component : String} {spec : ParamSpec} {s : String}

/-- A value that stands for an integer: a number of JSON or a text that spells it. -/
inductive Denotes : Value → Int → Prop
  | number {n : Int} : (Number.int n).Fits → Denotes (.int n) n
  | text {s : String} {n : Int} : Spells s n → Denotes (.text s) n

theorem integerOf?_int : Operator.integerOf? (.int n) = some (clamp64 n) := by
  change Operator.integerOf? (.number (.int n)) = _
  rw [Operator.integerOf?, Number.toInt64?]
  cases h : fitsSigned n with
  | true => simp [clamp64_eq_iff.mpr h]
  | false => simp [truncate64_int h]

theorem integerOf?_text (h : Spells s n) : Operator.integerOf? (.text s) = some (clamp64 n) := by
  simp only [Operator.integerOf?, integer64?, integer?_of_spells h, Option.filter_some]
  cases hfits : fitsSigned n with
  | true => simp [clamp64_eq_iff.mpr hfits]
  | false =>
      obtain ⟨x, hx, htruncated⟩ := float?_of_spells h hfits
      simp [hx, htruncated]

/-- An operator's integer of a value that stands for one. -/
theorem toInteger_of_denotes (h : Denotes v n) : Operator.toInteger v = .ok (.int (clamp64 n)) := by
  cases h with
  | number _ => rw [Operator.toInteger, integerOf?_int]
  | text hs => rw [Operator.toInteger, integerOf?_text hs]

namespace ParamKind

theorem coerce_int_number (hkind : spec.kind = .int) (hfits : (Number.int n).Fits) :
    coerce component spec (.int n) = .ok (.int (clamp64 n)) := by
  have hinteger : integerOf? (.int n) = some (clamp64 n) := by
    change integerOf? (.number (.int n)) = _
    rw [integerOf?, Number.toInt64?]
    cases h : fitsSigned n with
    | true => simp [clamp64_eq_iff.mpr h]
    | false => simp [truncate64_int h, isWhole_int h hfits]
  have hgiven : (Value.int n).isNull = false := rfl
  unfold coerce
  dsimp only
  rw [hgiven, hkind, hinteger]
  rfl

theorem coerce_int_text (hkind : spec.kind = .int) (h : Spells s n) :
    coerce component spec (.text s) = if fitsSigned n then .ok (.int n)
      else .error (.configuration (.wrongParameter component spec.name "Int" (.text s))) := by
  have hinteger : integerOf? (.text s) = if fitsSigned n then some n else none := by
    rw [integerOf?, integer64?, integer?_of_spells h]
    rw [Option.filter_some]
  rw [coerce, hkind, hinteger]
  cases fitsSigned n <;> rfl

end ParamKind

theorem fitsSigned_clamp64 (n : Int) : fitsSigned (clamp64 n) = true := by
  have hlimit : signedLimit = 9223372036854775808 := rfl
  rw [fitsSigned_iff, clamp64]
  omega

/-- A parameter for integers that is given a value standing for an integer. -/
theorem coerce_of_denotes (hkind : spec.kind = .int) (h : Denotes v n) :
    ParamKind.coerce component spec v =
      if v.toText?.isSome ∧ fitsSigned n = false then
        .error (.configuration (.wrongParameter component spec.name "Int" v))
      else .ok (.int (clamp64 n)) := by
  cases h with
  | number hfits =>
      rw [ParamKind.coerce_int_number hkind hfits]
      simp [Value.toText?, Value.int]
  | text hs =>
      rw [ParamKind.coerce_int_text hkind hs]
      cases hfits : fitsSigned n with
      | true => simp [clamp64_eq_iff.mpr hfits]
      | false => simp [Value.toText?]

/-- A value that stands for an integer becomes the nearest word of 64 bits with sign, through an
operator, in a list and as a parameter, and so that very integer if it is such a word. Only a
parameter refuses a text of any other integer. -/
theorem integers_clamped (h : Denotes v n) :
    (clamp64 n = n ↔ fitsSigned n = true) ∧
    Operator.toInteger v = .ok (.int (clamp64 n)) ∧
    (∀ items w, Operator.ListFunction.ints.applyTo (.list items) = .ok w →
      ∃ results, w = .list results ∧ results.length = items.length ∧
        ∀ i : Nat, items[i]? = some v → results[i]? = some (.int (clamp64 n))) ∧
    ∀ (s : Schema) component args named spec, s.Supplied args named spec v → spec.kind = .int →
      ParamKind.coerce component spec v =
        (if v.toText?.isSome ∧ fitsSigned n = false then
          .error (.configuration (.wrongParameter component spec.name "Int" v))
        else .ok (.int (clamp64 n))) ∧
      ∀ p, s.bind component args named = .ok p →
        p.int spec.name = .ok (clamp64 n) ∧ (v.toText?.isSome → fitsSigned n = true) := by
  refine ⟨clamp64_eq_iff, toInteger_of_denotes h, fun items w hw => ?_,
    fun s component args named spec hsupplied hkind =>
      ⟨coerce_of_denotes hkind h, fun p hbind => ?_⟩⟩
  · obtain ⟨results, hresults, rfl⟩ := map_eq_ok.mp hw
    obtain ⟨hlength, hall⟩ := List.forall₂_iff_get.mp (mapM_eq_ok.mp hresults)
    refine ⟨results, rfl, hlength.symm, fun i hi => ?_⟩
    obtain ⟨hlt, hitem⟩ := List.getElem?_eq_some_iff.mp hi
    have hresult := hall i hlt (hlength ▸ hlt)
    rw [List.get_eq_getElem, hitem, toInteger_of_denotes h] at hresult
    rw [List.getElem?_eq_getElem (hlength ▸ hlt), Except.ok.inj hresult]
    rfl
  · obtain ⟨w, hcoerce, hget⟩ := hsupplied.coerced hbind
    rw [coerce_of_denotes hkind h] at hcoerce
    split at hcoerce
    · cases hcoerce
    · next hnot =>
      cases hcoerce
      have hset : p.get? spec.name = some (.int (clamp64 n)) := by
        rw [Params.get?, hget]
        rfl
      have htold : (Value.int (clamp64 n)).toInt64? = some (clamp64 n) :=
        if_pos (fitsSigned_clamp64 n)
      refine ⟨?_, fun htext => ?_⟩
      · simp [Params.int, Params.require, hset, htold, bind, Except.bind]
        rfl
      · rw [← Bool.not_eq_false]
        exact fun hfits => hnot ⟨htext, hfits⟩

/-- A negative number in a text, between blanks, as the only parameter. -/
theorem text_clamped :
    let s := Schema.empty.required "x" .int
    let p : Params := ⟨[("x", .int (-42))], []⟩
    Denotes (.text " -042 ") (-42) ∧ Operator.toInteger (.text " -042 ") = .ok (.int (-42)) ∧
      s.bind "c" [.text " -042 "] [] = .ok p ∧ p.int "x" = .ok (-42) := by
  have hspells : Spells " -042 " (-42) :=
    ⟨['-'], true, ['0', '4', '2'], .minus, ⟨by simp, by simp⟩, by decide, by decide⟩
  obtain ⟨-, hoperator, -, hparameter⟩ := integers_clamped (.text hspells)
  have hsupplied : (Schema.empty.required "x" .int).Supplied [.text " -042 "] []
      ⟨"x", .int, none⟩ (.text " -042 ") :=
    ⟨[], [], rfl, by simp, by simp, rfl, rfl⟩
  have hbind : (Schema.empty.required "x" .int).bind "c" [.text " -042 "] [] =
      .ok ⟨[("x", .int (-42))], []⟩ := by rfl
  exact ⟨.text hspells, hoperator, hbind, ((hparameter _ "c" _ _ _ hsupplied rfl).2 _ hbind).1⟩

/-- The first integer beyond the words of 64 bits with sign becomes another one. -/
theorem first_large_changed :
    Denotes (.int 9223372036854775808) 9223372036854775808 ∧
      Denotes (.text "9223372036854775808") 9223372036854775808 ∧
      Operator.toInteger (.int 9223372036854775808) = .ok (.int 9223372036854775807) ∧
      Operator.ListFunction.ints.applyTo (.list [.text "9223372036854775808"]) =
        .ok (.list [.int 9223372036854775807]) ∧
      ParamKind.coerce "c" ⟨"x", .int, none⟩ (.int 9223372036854775808) =
        .ok (.int 9223372036854775807) := by
  have hnumber : Denotes (.int 9223372036854775808) 9223372036854775808 :=
    .number ⟨by decide, by decide⟩
  have htext : Denotes (.text "9223372036854775808") 9223372036854775808 :=
    .text (spells_toString 9223372036854775808)
  refine ⟨hnumber, htext, toInteger_of_denotes hnumber, ?_, coerce_of_denotes rfl hnumber⟩
  have := toInteger_of_denotes htext
  simp [Operator.ListFunction.applyTo, Operator.ListFunction.apply, this]
  rfl

end PullFlow
