import PullFlow.Proofs.Json.Reading
import PullFlow.Value.Render
import Mathlib.Data.List.TakeWhile

/-!
The tokens of JSON text read back. A number ends where no digit, point or exponent mark follows, and
what is read of it does not depend on the text behind it. The decimal digits of an integer that fits
a word of 64 bits give that integer, and the escapes of a text give its characters.
-/

namespace PullFlow

/-- Whether a number is one that a text can hold: an integer has to be a word of 64 bits. -/
def Number.Fits : Number → Prop
  | .int n => -(Decimal.signedLimit : Int) ≤ n ∧ n < Decimal.wordLimit
  | .float _ => True

namespace Json

open Cursor

variable {cur cur' : Cursor} {tail : List Char}

/-! Numbers in front of other text. -/

/-- A text that no number goes on in. -/
def EndsNumber (cs : List Char) : Prop :=
  ∀ c rest, cs = c :: rest → c.isDigit = false ∧ c ≠ '.' ∧ c ≠ 'e' ∧ c ≠ 'E'

theorem takeWhile_append_of_ends (cs : List Char) (h : EndsNumber tail) :
    (cs ++ tail).takeWhile Char.isDigit = cs.takeWhile Char.isDigit := by
  have htail : tail.takeWhile Char.isDigit = [] := by
    cases tail with
    | nil => rfl
    | cons c rest => exact List.takeWhile_cons_of_neg (by simp [(h c rest rfl).1])
  rw [List.takeWhile_append, htail, List.append_nil]
  split
  · next hall => exact (List.takeWhile_prefix _).eq_of_length hall |>.symm
  · rfl

section Append

variable {begin : Cursor} {negative down : Bool} {n dropped : Nat} {e : Int} {x : Number}

theorem leadingDigits_append (h : EndsNumber tail) (hbegin : begin.rest = cur.rest ++ tail) :
    (leadingDigits begin).1 = (leadingDigits cur).1 ∧
      (leadingDigits begin).2.rest = (leadingDigits cur).2.rest ++ tail := by
  have hdigits := takeWhile_append_of_ends cur.rest h
  simp only [leadingDigits, hbegin, hdigits]
  exact ⟨trivial, List.drop_append_of_le_length (List.takeWhile_prefix _).length_le⟩

theorem finishFloat_append {y : Option Float} (h : finishFloat negative cur y = .ok (x, cur'))
    (hbegin : begin.rest = cur.rest ++ tail) :
    ∃ after, finishFloat negative begin y = .ok (x, after) ∧ after.rest = cur'.rest ++ tail := by
  cases y with
  | none => cases h
  | some y =>
      cases h
      exact ⟨begin, rfl, hbegin⟩

theorem readPower_append (ht : EndsNumber tail)
    (h : readPower negative down n e cur = .ok (x, cur'))
    (hbegin : begin.rest = cur.rest ++ tail) :
    ∃ after, readPower negative down n e begin = .ok (x, after) ∧
      after.rest = cur'.rest ++ tail := by
  obtain ⟨hdigits, hafter⟩ := leadingDigits_append ht hbegin
  unfold readPower at h ⊢
  split at h
  · cases h
  · next c rest hrest =>
    rw [hrest, List.cons_append] at hbegin
    simp only [hbegin, hdigits]
    split at h
    · next hc =>
      rw [if_pos hc]
      dsimp only at h ⊢
      split at h
      · next hlarge =>
        rw [if_pos hlarge]
        split at h
        · cases h
        · next hzero =>
          rw [if_neg hzero]
          exact finishFloat_append h hafter
      · next hsmall =>
        rw [if_neg hsmall]
        exact finishFloat_append h hafter
    · cases h

theorem exponentSign_append (hne : cur.rest ≠ []) (hbegin : begin.rest = cur.rest ++ tail) :
    (exponentSign begin).1 = (exponentSign cur).1 ∧
      (exponentSign begin).2.rest = (exponentSign cur).2.rest ++ tail := by
  obtain ⟨c, rest, hrest⟩ := List.exists_cons_of_ne_nil hne
  rw [hrest, List.cons_append] at hbegin
  unfold exponentSign
  rw [hrest, hbegin]
  by_cases hplus : c = '+'
  · subst hplus
    exact ⟨rfl, rfl⟩
  · by_cases hminus : c = '-'
    · subst hminus
      exact ⟨rfl, rfl⟩
    · simp [hplus, hminus, hrest, hbegin]

theorem readExponent_append (ht : EndsNumber tail)
    (h : readExponent negative n e cur = .ok (x, cur')) (hbegin : begin.rest = cur.rest ++ tail) :
    ∃ after, readExponent negative n e begin = .ok (x, after) ∧ after.rest = cur'.rest ++ tail := by
  unfold readExponent at h ⊢
  split at h
  · next c rest hrest =>
    have hhead := hbegin
    rw [hrest, List.cons_append] at hhead
    simp only [hhead]
    split at h
    · next hc =>
      rw [if_pos hc]
      have hne : (cur.past c rest).rest ≠ [] := by
        intro hnil
        have hnil : rest = [] := hnil
        subst hnil
        cases h
      obtain ⟨hdown, hafter⟩ := @exponentSign_append _ tail (begin.past c (rest ++ tail)) hne rfl
      have h : readPower negative (exponentSign (cur.past c rest)).1 n e
          (exponentSign (cur.past c rest)).2 = .ok (x, cur') := h
      rw [← hdown] at h
      exact readPower_append ht h hafter
    · next hc =>
      rw [if_neg hc]
      exact finishFloat_append h hbegin
  · next hrest =>
    have hhead := hbegin
    rw [hrest, List.nil_append] at hhead
    cases htail : tail with
    | nil =>
        rw [htail] at hhead hbegin
        simp only [hhead]
        exact finishFloat_append h hbegin
    | cons c rest =>
        obtain ⟨_, _, he, hE⟩ := ht c rest htail
        rw [htail] at hhead hbegin
        simp only [hhead, he, hE, or_self, if_false]
        exact finishFloat_append h hbegin

theorem readFraction_append (ht : EndsNumber tail)
    (h : readFraction negative n dropped cur = .ok (x, cur'))
    (hbegin : begin.rest = cur.rest ++ tail) :
    ∃ after, readFraction negative n dropped begin = .ok (x, after) ∧
      after.rest = cur'.rest ++ tail := by
  unfold readFraction at h ⊢
  split at h
  · next rest hrest =>
    have hhead := hbegin
    rw [hrest, List.cons_append] at hhead
    obtain ⟨hdigits, hafter⟩ := @leadingDigits_append (cur.past '.' rest) tail
      (begin.past '.' (rest ++ tail)) ht rfl
    simp only [hhead, hdigits]
    dsimp only at h
    split at h
    · split at h <;> cases h
    · next hsome =>
      rw [if_neg hsome]
      exact readExponent_append ht h hafter
  · next hpoint =>
    have hno : ∀ rest, begin.rest ≠ '.' :: rest := by
      intro rest hrest
      rw [hbegin] at hrest
      cases hcur : cur.rest with
      | nil =>
          rw [hcur, List.nil_append] at hrest
          exact (ht _ _ hrest).2.1 rfl
      | cons c more =>
          rw [hcur, List.cons_append] at hrest
          obtain ⟨rfl, _⟩ := List.cons.inj hrest
          exact hpoint more hcur
    split
    · next rest hrest => exact absurd hrest (hno rest)
    · exact readExponent_append ht h hbegin

theorem isWhole_append (ht : EndsNumber tail) (cs : List Char) :
    isWhole (cs ++ tail) = isWhole cs := by
  cases cs with
  | cons c rest => rfl
  | nil =>
      cases htail : tail with
      | nil => rfl
      | cons c rest =>
          obtain ⟨_, hpoint, he, hE⟩ := ht c rest htail
          simp [isWhole, hpoint, he, hE]

theorem readNumber_append (ht : EndsNumber tail) (h : readNumber negative cur = .ok (x, cur'))
    (hbegin : begin.rest = cur.rest ++ tail) :
    ∃ after, readNumber negative begin = .ok (x, after) ∧ after.rest = cur'.rest ++ tail := by
  obtain ⟨hdigits, hafter⟩ := leadingDigits_append ht hbegin
  have hwhole := isWhole_append ht (leadingDigits cur).2.rest
  rw [← hafter] at hwhole
  unfold readNumber at h ⊢
  split at h
  · cases h
  · next c rest hrest =>
    have hhead := hbegin
    rw [hrest, List.cons_append] at hhead
    simp only [hhead, hdigits]
    split at h
    · cases h
    · next hc =>
      rw [if_neg hc]
      dsimp only at h ⊢
      rw [hwhole]
      split at h
      · cases h
      · next hzero =>
        rw [if_neg hzero]
        obtain ⟨hint, h⟩ | ⟨hfloat, h⟩ := ite_eq_iff.mp h
        · rw [if_pos hint]
          obtain ⟨hpositive, ⟨⟩⟩ | ⟨hnegative, h⟩ := ite_eq_iff.mp h
          · rw [if_pos hpositive]
            exact ⟨_, rfl, hafter⟩
          · rw [if_neg hnegative]
            obtain ⟨hlarge, ⟨⟩⟩ | ⟨hsmall, ⟨⟩⟩ := ite_eq_iff.mp h
            · rw [if_pos hlarge]
              exact ⟨_, rfl, hafter⟩
            · rw [if_neg hsmall]
              exact ⟨_, rfl, hafter⟩
        · rw [if_neg hfloat]
          exact readFraction_append ht h hafter

end Append

/-! Integers. -/

section Digits

variable {n : Nat} {ds : List Char}

theorem le_ofDigitChars (n : Nat) (ds : List Char) : n ≤ Nat.ofDigitChars 10 ds n := by
  induction ds generalizing n with
  | nil => exact Nat.le_refl _
  | cons c rest ih =>
      rw [Nat.ofDigitChars_cons]
      have hmore := ih (10 * n + (c.toNat - '0'.toNat))
      omega

/-- Digits whose value fits a word are all part of the significand. -/
theorem significand_of_lt (h : Nat.ofDigitChars 10 ds n < Decimal.wordLimit) :
    significand n ds = (Nat.ofDigitChars 10 ds n, 0) := by
  induction ds generalizing n with
  | nil => rfl
  | cons c rest ih =>
      rw [Nat.ofDigitChars_cons, Nat.mul_comm] at h ⊢
      have hnext := Nat.lt_of_le_of_lt (le_ofDigitChars _ rest) h
      simp only [significand, hnext, if_true]
      exact ih h

theorem significand_lt (h : n < Decimal.wordLimit) : (significand n ds).1 < Decimal.wordLimit := by
  induction ds generalizing n with
  | nil => exact h
  | cons c rest ih =>
      simp only [significand]
      split
      · next hnext => exact ih hnext
      · exact h

/-- No zero stands in front of other digits. -/
theorem eq_zero_of_toDigits {rest : List Char} (h : Nat.toDigits 10 n = '0' :: rest) :
    rest = [] := by
  induction n using Nat.strongRecOn generalizing rest with
  | ind n ih =>
      rw [Nat.toDigits_eq_if (by decide)] at h
      split at h
      · exact (List.cons.inj h).2.symm
      · next hlarge =>
        cases hfront : Nat.toDigits 10 (n / 10) with
        | nil => exact absurd hfront Nat.toDigits_ne_nil
        | cons d front =>
            rw [hfront, List.cons_append] at h
            obtain ⟨rfl, _⟩ := List.cons.inj h
            obtain rfl := ih (n / 10) (by omega) hfront
            have hzero : n / 10 = 0 := by
              rw [← Nat.ofDigitChars_ten_toDigits (n := n / 10), hfront]
              rfl
            omega

theorem leadingDigits_toDigits (hcur : cur.rest = Nat.toDigits 10 n) :
    (leadingDigits cur).1 = Nat.toDigits 10 n ∧ (leadingDigits cur).2.rest = [] := by
  have hall : (Nat.toDigits 10 n).takeWhile Char.isDigit = Nat.toDigits 10 n :=
    List.takeWhile_eq_self_iff.mpr fun c hc =>
      Nat.isDigit_of_mem_toDigits (by decide) (by decide) hc
  simp only [leadingDigits, hcur, hall, List.drop_length, and_self]

/-- The digits of a word are read as a whole number. -/
theorem readNumber_toDigits {negative : Bool} (hcur : cur.rest = Nat.toDigits 10 n)
    (hn : n < Decimal.wordLimit) (hnegative : negative = true → n ≠ 0 ∧ n ≤ Decimal.signedLimit) :
    ∃ after, readNumber negative cur = .ok (.int (if negative then -n else n), after) ∧
      after.rest = [] := by
  obtain ⟨hdigits, hafter⟩ := leadingDigits_toDigits hcur
  have hvalue : significand 0 (Nat.toDigits 10 n) = (n, 0) := by
    rw [significand_of_lt (by rwa [Nat.ofDigitChars_ten_toDigits]), Nat.ofDigitChars_ten_toDigits]
  refine ⟨(leadingDigits cur).2, ?_, hafter⟩
  obtain ⟨c, rest, hrest⟩ := List.exists_cons_of_ne_nil (@Nat.toDigits_ne_nil n 10)
  have hc : c.isDigit = true :=
    Nat.isDigit_of_mem_toDigits (by decide) (by decide) (hrest ▸ List.mem_cons_self)
  have hzero : ¬(c = '0' ∧ 1 < (Nat.toDigits 10 n).length) := by
    rintro ⟨rfl, hlength⟩
    obtain rfl := eq_zero_of_toDigits hrest
    rw [hrest] at hlength
    exact Nat.lt_irrefl 1 hlength
  unfold readNumber
  simp only [hcur.trans hrest, hc, hdigits, hvalue, hafter, hzero]
  cases negative with
  | false => rfl
  | true =>
      obtain ⟨hne, hsigned⟩ := hnegative rfl
      simp [isWhole, hne, Nat.not_lt.mpr hsigned]

end Digits

/-- A number with a fraction or an exponent is a float. -/
theorem fits_of_finishFloat {negative : Bool} {y : Option Float} {x : Number}
    (h : finishFloat negative cur y = .ok (x, cur')) : x.Fits := by
  cases y with
  | none => cases h
  | some y =>
      cases h
      trivial

theorem fits_of_readPower {negative down : Bool} {n : Nat} {e : Int} {x : Number}
    (h : readPower negative down n e cur = .ok (x, cur')) : x.Fits := by
  unfold readPower at h
  split at h
  · cases h
  · split at h
    · dsimp only at h
      split at h
      · split at h
        · cases h
        · exact fits_of_finishFloat h
      · exact fits_of_finishFloat h
    · cases h

theorem fits_of_readExponent {negative : Bool} {n : Nat} {e : Int} {x : Number}
    (h : readExponent negative n e cur = .ok (x, cur')) : x.Fits := by
  unfold readExponent at h
  split at h
  · split at h
    · exact fits_of_readPower h
    · exact fits_of_finishFloat h
  · exact fits_of_finishFloat h

theorem fits_of_readFraction {negative : Bool} {n dropped : Nat} {x : Number}
    (h : readFraction negative n dropped cur = .ok (x, cur')) : x.Fits := by
  unfold readFraction at h
  split at h
  · dsimp only at h
    split at h
    · split at h <;> cases h
    · exact fits_of_readExponent h
  · exact fits_of_readExponent h

/-- The integers that are read fit. -/
theorem fits_of_readNumber {negative : Bool} {x : Number}
    (h : readNumber negative cur = .ok (x, cur')) : x.Fits := by
  unfold readNumber at h
  split at h
  · cases h
  · split at h
    · cases h
    · dsimp only at h
      have hvalue := @significand_lt 0 (leadingDigits cur).1 (by decide)
      split at h
      · cases h
      · obtain ⟨_, h⟩ | ⟨_, h⟩ := ite_eq_iff.mp h
        · obtain ⟨_, ⟨⟩⟩ | ⟨_, h⟩ := ite_eq_iff.mp h
          · exact ⟨by omega, by omega⟩
          · obtain ⟨_, ⟨⟩⟩ | ⟨hsigned, ⟨⟩⟩ := ite_eq_iff.mp h
            · trivial
            · exact ⟨by omega, by omega⟩
        · exact fits_of_readFraction h

/-! Texts. -/

theorem utf8Size_hexDigit : ∀ i < 16, (Value.hexDigit i).utf8Size = 1 := by decide

theorem hexValue?_hexDigit : ∀ i < 16, hexValue? (Value.hexDigit i) = some i := by decide

/-- Four digits are read as their value. -/
theorem readCode_hexDigit {i j k l : Nat} {more : List Char} {place : Place} (hi : i < 16)
    (hj : j < 16) (hk : k < 16) (hl : l < 16) :
    ∃ next, readCode ⟨Value.hexDigit i :: Value.hexDigit j :: Value.hexDigit k ::
      Value.hexDigit l :: more, place⟩ = .ok (((i * 16 + j) * 16 + k) * 16 + l, next) ∧
      next.rest = more := by
  simp [readCode, pastBytes, utf8Size_hexDigit, hexValue?_hexDigit, hi, hj, hk, hl]

/-- A control character is read from its code. -/
theorem readCodePoint_control {k : Nat} {more : List Char} {place : Place} (hk : k < 0x20) :
    ∃ next, readCodePoint ⟨'0' :: '0' :: Value.hexDigit (k / 16) :: Value.hexDigit (k % 16) :: more,
      place⟩ = .ok (Char.ofNat k, next) ∧ next.rest = more := by
  obtain ⟨next, hread, hnext⟩ := @readCode_hexDigit 0 0 (k / 16) (k % 16) more place (by decide)
    (by decide) (by omega) (Nat.mod_lt k (by decide))
  have hvalue : ((0 * 16 + 0) * 16 + k / 16) * 16 + k % 16 = k := by omega
  rw [hvalue] at hread
  refine ⟨next, ?_, hnext⟩
  have hlow : ¬(0xDC00 ≤ k ∧ k ≤ 0xDFFF) := by omega
  have hplain : k < 0xD800 ∨ 0xDBFF < k := by omega
  rw [readCodePoint]
  refine bind_eq_ok.mpr ⟨_, hread, ?_⟩
  simp only [hlow, hplain, if_false, if_true]
  rfl

/-- One character of a text is read from its escape. -/
theorem readTextFrom_escaped {c : Char} {more : List Char} (fuel : Nat) (done : List Char)
    (hcur : cur.rest = Value.escaped c ++ more) :
    ∃ next, readTextFrom (fuel + 1) done cur = readTextFrom fuel (c :: done) next ∧
      next.rest = more := by
  obtain ⟨cs, place⟩ := cur
  obtain rfl : cs = Value.escaped c ++ more := hcur
  have hcode {k : Nat} (hk : c.toNat = k) : c = Char.ofNat k := by rw [← hk, Char.ofNat_toNat]
  unfold Value.escaped
  split
  · next hquote =>
    subst hquote
    exact ⟨_, rfl, rfl⟩
  · next hquote =>
    split
    · next hslash =>
      subst hslash
      exact ⟨_, rfl, rfl⟩
    · next hslash =>
      split
      · next hcontrol =>
        split
        · next hk => exact hcode hk ▸ ⟨⟨more, _⟩, rfl, rfl⟩
        · next hk => exact hcode hk ▸ ⟨⟨more, _⟩, rfl, rfl⟩
        · next hk => exact hcode hk ▸ ⟨⟨more, _⟩, rfl, rfl⟩
        · next hk => exact hcode hk ▸ ⟨⟨more, _⟩, rfl, rfl⟩
        · next hk => exact hcode hk ▸ ⟨⟨more, _⟩, rfl, rfl⟩
        · obtain ⟨next, hread, hnext⟩ := @readCodePoint_control c.toNat more
            ((place.past '\\').past 'u') hcontrol
          rw [Char.ofNat_toNat] at hread
          refine ⟨next, ?_, hnext⟩
          simp only [readTextFrom, readEscape, past, List.cons_append, List.nil_append, hread]
          rfl
      · next hcontrol =>
        simp only [readTextFrom, List.cons_append, List.nil_append, hquote, hslash, hcontrol,
          if_false]
        exact ⟨_, rfl, rfl⟩

theorem readTextFrom_flatMap {cs more : List Char} {fuel : Nat} (done : List Char)
    (hcur : cur.rest = cs.flatMap Value.escaped ++ '"' :: more) (hfuel : cs.length < fuel) :
    ∃ after, readTextFrom fuel done cur = .ok (String.ofList (done.reverse ++ cs), after) ∧
      after.rest = more := by
  induction cs generalizing fuel done cur with
  | nil =>
      obtain ⟨fuel, rfl⟩ := Nat.exists_eq_add_one_of_ne_zero (Nat.ne_of_gt hfuel)
      simp only [List.flatMap_nil, List.nil_append] at hcur
      simp only [readTextFrom, hcur, if_true, List.append_nil]
      exact ⟨_, rfl, rfl⟩
  | cons c rest ih =>
      obtain ⟨fuel, rfl⟩ := Nat.exists_eq_add_one_of_ne_zero (Nat.ne_zero_of_lt hfuel)
      rw [List.flatMap_cons, List.append_assoc] at hcur
      obtain ⟨next, hstep, hnext⟩ := readTextFrom_escaped fuel done hcur
      obtain ⟨after, hread, hafter⟩ := ih (c :: done) hnext (Nat.lt_of_succ_lt_succ hfuel)
      refine ⟨after, ?_, hafter⟩
      rw [hstep, hread, List.reverse_cons, List.append_assoc, List.singleton_append]

theorem escaped_ne_nil (c : Char) : Value.escaped c ≠ [] := by
  unfold Value.escaped
  split_ifs
  · exact List.cons_ne_nil _ _
  · exact List.cons_ne_nil _ _
  · split <;> exact List.cons_ne_nil _ _
  · exact List.cons_ne_nil _ _

theorem length_le_flatMap_escaped (cs : List Char) :
    cs.length ≤ (cs.flatMap Value.escaped).length := by
  induction cs with
  | nil => exact Nat.le_refl _
  | cons c rest ih =>
      have hone : 1 ≤ (Value.escaped c).length := by
        rw [Nat.one_le_iff_ne_zero, ne_eq, List.length_eq_zero_iff]
        exact escaped_ne_nil c
      rw [List.flatMap_cons, List.length_append, List.length_cons]
      omega

/-- A text is read from between its quotes. -/
theorem readText_quoted {s : String} {more : List Char}
    (hcur : cur.rest = s.toList.flatMap Value.escaped ++ '"' :: more) :
    ∃ after, readText cur = .ok (s, after) ∧ after.rest = more := by
  have hfuel : s.toList.length < cur.rest.length + 1 := by
    have hlength := length_le_flatMap_escaped s.toList
    rw [hcur, List.length_append]
    omega
  obtain ⟨after, hread, hafter⟩ := readTextFrom_flatMap [] hcur hfuel
  refine ⟨after, ?_, hafter⟩
  rw [readText, hread, List.reverse_nil, List.nil_append, String.ofList_toList]

end Json
end PullFlow
