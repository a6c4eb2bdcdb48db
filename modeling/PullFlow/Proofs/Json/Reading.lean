import PullFlow.Json.Read
import PullFlow.Proofs.Outcome

/-!
Readings of JSON text without fuel. A reading that comes to an end has consumed text at every step,
so the fuel of its callers was enough, and any other fuel that is enough gives the same end. What is
read at a cursor is then a relation, with one case for each sort of value.
-/

namespace PullFlow

namespace Json

namespace Cursor

/-- How much of the text is left. -/
def left (cur : Cursor) : Nat := cur.rest.length

theorem left_past {cur : Cursor} {c : Char} {rest : List Char} (h : cur.rest = c :: rest) :
    (cur.past c rest).left + 1 = cur.left := by
  rw [left, left, h]
  rfl

theorem left_skipGaps (place : Place) (cs : List Char) : (skipGaps place cs).left ≤ cs.length := by
  induction cs generalizing place with
  | nil => exact Nat.le_refl _
  | cons c rest ih =>
      rw [skipGaps]
      split
      · exact Nat.le_succ_of_le (ih _)
      · exact Nat.le_refl _

theorem left_skip (cur : Cursor) : cur.skip.left ≤ cur.left := left_skipGaps ..

theorem skip_skip (cur : Cursor) : cur.skip.skip = cur.skip := by
  obtain ⟨cs, place⟩ := cur
  rw [skip, skip]
  induction cs generalizing place with
  | nil => rfl
  | cons c rest ih =>
      simp only [skipGaps]
      split
      · exact ih _
      · next hc => simp only [skipGaps, hc, Bool.false_eq_true, if_false]

theorem left_skip_past {cur : Cursor} {c : Char} {rest : List Char}
    (h : cur.skip.rest = c :: rest) :
    (cur.skip.past c rest).left < cur.left := by
  have hpast := left_past h
  have hskip := left_skip cur
  omega

end Cursor

open Cursor

variable {cur cur' : Cursor}

/-! How much a token consumes. -/

theorem left_readWord {letters : List Char} (h : readWord cur letters = .ok cur') :
    cur'.left ≤ cur.left := by
  induction letters generalizing cur with
  | nil =>
      cases h
      exact Nat.le_refl _
  | cons expected letters ih =>
      rw [readWord] at h
      split at h
      · cases h
      · next c rest hrest =>
        split at h
        · have hpast := left_past hrest
          have hmore := ih h
          omega
        · cases h

theorem left_leadingDigits (cur : Cursor) : (leadingDigits cur).2.left ≤ cur.left := by
  rw [leadingDigits, left, left, List.length_drop]
  exact Nat.sub_le ..

theorem left_finishFloat {negative : Bool} {x : Option Float} {n : Number}
    (h : finishFloat negative cur x = .ok (n, cur')) : cur' = cur := by
  cases x with
  | none => cases h
  | some x =>
      cases h
      rfl

theorem left_exponentSign (cur : Cursor) : (exponentSign cur).2.left ≤ cur.left := by
  unfold exponentSign
  split
  · next rest hrest => exact Nat.le_of_succ_le (Nat.le_of_eq (left_past hrest))
  · next rest hrest => exact Nat.le_of_succ_le (Nat.le_of_eq (left_past hrest))
  · exact Nat.le_refl _

theorem left_readPower {negative down : Bool} {n : Nat} {e : Int} {x : Number}
    (h : readPower negative down n e cur = .ok (x, cur')) : cur'.left ≤ cur.left := by
  unfold readPower at h
  split at h
  · cases h
  · split at h
    · have hdigits := left_leadingDigits cur
      dsimp only at h
      split at h
      · split at h
        · cases h
        · rw [left_finishFloat h]
          exact hdigits
      · rw [left_finishFloat h]
        exact hdigits
    · cases h

theorem left_readExponent {negative : Bool} {n : Nat} {e : Int} {x : Number}
    (h : readExponent negative n e cur = .ok (x, cur')) : cur'.left ≤ cur.left := by
  unfold readExponent at h
  split at h
  · next c rest hrest =>
    split at h
    · have hpast := left_past hrest
      have hsign := left_exponentSign (cur.past c rest)
      have hpower : cur'.left ≤ (exponentSign (cur.past c rest)).2.left := left_readPower h
      omega
    · exact Nat.le_of_eq (congrArg left (left_finishFloat h))
  · exact Nat.le_of_eq (congrArg left (left_finishFloat h))

theorem left_readFraction {negative : Bool} {n dropped : Nat} {x : Number}
    (h : readFraction negative n dropped cur = .ok (x, cur')) : cur'.left ≤ cur.left := by
  unfold readFraction at h
  split at h
  · next rest hrest =>
    have hpast := left_past hrest
    have hdigits := left_leadingDigits (cur.past '.' rest)
    dsimp only at h
    split at h
    · split at h <;> cases h
    · have hexponent := left_readExponent h
      omega
  · exact left_readExponent h

theorem left_readNumber {negative : Bool} {x : Number}
    (h : readNumber negative cur = .ok (x, cur')) : cur'.left < cur.left := by
  unfold readNumber at h
  split at h
  · cases h
  · next c rest hrest =>
    split at h
    · cases h
    · next hdigit =>
      have hdigits : (leadingDigits cur).2.left < cur.left := by
        have hc : c.isDigit = true := by simpa using hdigit
        rw [leadingDigits, left, left, hrest, List.takeWhile_cons_of_pos hc, List.length_cons,
          List.length_drop, List.length_cons]
        omega
      dsimp only at h
      split at h
      · cases h
      · obtain ⟨_, h⟩ | ⟨_, h⟩ := ite_eq_iff.mp h
        · obtain ⟨_, ⟨⟩⟩ | ⟨_, h⟩ := ite_eq_iff.mp h
          · exact hdigits
          · obtain ⟨_, ⟨⟩⟩ | ⟨_, ⟨⟩⟩ := ite_eq_iff.mp h <;> exact hdigits
        · exact Nat.lt_of_le_of_lt (left_readFraction h) hdigits

theorem left_readCode {n : Nat} (h : readCode cur = .ok (n, cur')) : cur'.left ≤ cur.left := by
  unfold readCode at h
  split at h
  · cases h
  · split at h
    · cases h
      rw [left, left, List.length_drop]
      exact Nat.sub_le ..
    · cases h

theorem left_passPairMark {wanted : Char} (h : passPairMark wanted cur = .ok cur') :
    cur'.left ≤ cur.left := by
  unfold passPairMark at h
  split at h
  · cases h
  · next c rest hrest =>
    split at h
    · cases h
      have hpast := left_past hrest
      omega
    · cases h

theorem left_readCodePoint {c : Char} (h : readCodePoint cur = .ok (c, cur')) :
    cur'.left ≤ cur.left := by
  unfold readCodePoint at h
  obtain ⟨⟨n, cur₁⟩, hfirst, h⟩ := bind_eq_ok.mp h
  have hcode := left_readCode hfirst
  dsimp only at h
  split at h
  · cases h
  · split at h
    · cases h
      exact hcode
    · obtain ⟨cur₂, hmark, h⟩ := bind_eq_ok.mp h
      obtain ⟨cur₃, hletter, h⟩ := bind_eq_ok.mp h
      obtain ⟨⟨m, cur₄⟩, hsecond, h⟩ := bind_eq_ok.mp h
      have hcode' := left_readCode hsecond
      have hmark := left_passPairMark hmark
      have hletter := left_passPairMark hletter
      split at h
      · cases h
      · obtain rfl : cur₄ = cur' := (Prod.mk.inj (Except.ok.inj h)).2
        omega

theorem left_readEscape {c : Char} (h : readEscape cur = .ok (c, cur')) : cur'.left < cur.left := by
  unfold readEscape at h
  split at h
  · cases h
  · next c rest hrest =>
    have hpast := left_past hrest
    dsimp only at h
    split at h
    case h_9 =>
      have hcode := left_readCodePoint h
      omega
    case h_10 => cases h
    all_goals
      cases h
      omega

theorem left_readTextFrom {fuel : Nat} {done : List Char} {s : String}
    (h : readTextFrom fuel done cur = .ok (s, cur')) : cur'.left < cur.left := by
  induction fuel generalizing done cur with
  | zero => cases h
  | succ fuel ih =>
      rw [readTextFrom] at h
      split at h
      · cases h
      · next c rest hrest =>
        have hpast := left_past hrest
        dsimp only at h
        split at h
        · cases h
          omega
        · split at h
          · split at h
            · next hescape =>
              have hescape := left_readEscape hescape
              have hmore := ih h
              omega
            · cases h
          · split at h
            · cases h
            · have hmore := ih h
              omega

theorem left_readText {s : String} (h : readText cur = .ok (s, cur')) : cur'.left < cur.left :=
  left_readTextFrom h

/-! The marks between items and fields. -/

theorem nextItem?_none {first : Bool} (h : nextItem? first cur = .ok none) :
    ∃ rest, cur.skip.rest = ']' :: rest := by
  unfold nextItem? at h
  dsimp only at h
  split at h
  · cases h
  · next rest hrest => exact ⟨rest, hrest⟩
  · split at h
    · cases h
    · split at h
      · split at h <;> cases h
      · cases h

theorem nextItem?_some {first : Bool} (h : nextItem? first cur = .ok (some cur')) :
    cur'.left ≤ cur.left := by
  have hskip := left_skip cur
  unfold nextItem? at h
  dsimp only at h
  split at h
  · cases h
  · cases h
  · next c rest _ hrest =>
    have hpast := left_past hrest
    have hskip' := left_skip (cur.skip.past c rest)
    split at h
    · cases h
      exact hskip
    · split at h
      · split at h <;> cases h
        omega
      · cases h

theorem nextKey?_none {first : Bool} (h : nextKey? first cur = .ok none) :
    ∃ rest, cur.skip.rest = '\x7d' :: rest := by
  unfold nextKey? at h
  dsimp only at h
  split at h
  · cases h
  · next rest hrest => exact ⟨rest, hrest⟩
  · split at h
    · split at h <;> cases h
    · split at h
      · split at h <;> cases h
      · cases h

theorem nextKey?_some {first : Bool} (h : nextKey? first cur = .ok (some cur')) :
    cur'.left < cur.left := by
  have hskip := left_skip cur
  unfold nextKey? at h
  dsimp only at h
  split at h
  · cases h
  · cases h
  · next c rest _ hrest =>
    have hpast := left_past hrest
    have hskip' := left_skip (cur.skip.past c rest)
    split at h
    · split at h
      · cases h
        omega
      · cases h
    · split at h
      · split at h
        · cases h
        · next rest' hrest' =>
          have hpast' := left_past hrest'
          cases h
          omega
        · cases h
        · cases h
      · cases h

theorem left_readColon (h : readColon cur = .ok cur') : cur'.left < cur.left := by
  unfold readColon at h
  dsimp only at h
  split at h
  · cases h
  · next rest hrest =>
    cases h
    exact left_skip_past hrest
  · cases h

theorem left_step {c : Char} {rest : List Char} (h : cur.skip.rest = c :: rest) :
    cur.skip.step.left < cur.left := by
  rw [Cursor.step, h]
  exact left_skip_past h

/-! One step of a reading. -/

/-- How a value is read at a cursor, when items and fields are read in known ways: one case for each
character that may stand there. -/
inductive ReadBy (items : Nat → Cursor → List Value → Cursor → Prop)
    (fields : Nat → Cursor → List (String × Value) → Cursor → Prop) (depth : Nat) (cur : Cursor) :
    Value → Cursor → Prop
  | null {rest : List Char} {cur' : Cursor} (hat : cur.skip.rest = 'n' :: rest)
      (hword : readWord (cur.skip.past 'n' rest) ['u', 'l', 'l'] = .ok cur') :
      ReadBy items fields depth cur .null cur'
  | yes {rest : List Char} {cur' : Cursor} (hat : cur.skip.rest = 't' :: rest)
      (hword : readWord (cur.skip.past 't' rest) ['r', 'u', 'e'] = .ok cur') :
      ReadBy items fields depth cur (.bool true) cur'
  | no {rest : List Char} {cur' : Cursor} (hat : cur.skip.rest = 'f' :: rest)
      (hword : readWord (cur.skip.past 'f' rest) ['a', 'l', 's', 'e'] = .ok cur') :
      ReadBy items fields depth cur (.bool false) cur'
  | negative {rest : List Char} {n : Number} {cur' : Cursor} (hat : cur.skip.rest = '-' :: rest)
      (hnumber : readNumber true (cur.skip.past '-' rest) = .ok (n, cur')) :
      ReadBy items fields depth cur (.number n) cur'
  | number {c : Char} {rest : List Char} {n : Number} {cur' : Cursor}
      (hat : cur.skip.rest = c :: rest) (hdigit : c.isDigit = true)
      (hnumber : readNumber false cur.skip = .ok (n, cur')) :
      ReadBy items fields depth cur (.number n) cur'
  | text {rest : List Char} {s : String} {cur' : Cursor} (hat : cur.skip.rest = '"' :: rest)
      (htext : readText (cur.skip.past '"' rest) = .ok (s, cur')) :
      ReadBy items fields depth cur (.text s) cur'
  | list {rest : List Char} {vs : List Value} {cur' : Cursor} (hat : cur.skip.rest = '[' :: rest)
      (hdepth : 1 < depth) (hitems : items (depth - 1) (cur.skip.past '[' rest) vs cur') :
      ReadBy items fields depth cur (.list vs) cur'
  | object {rest : List Char} {fs : List (String × Value)} {cur' : Cursor}
      (hat : cur.skip.rest = '\x7b' :: rest) (hdepth : 1 < depth)
      (hfields : fields (depth - 1) (cur.skip.past '\x7b' rest) fs cur') :
      ReadBy items fields depth cur (.object fs) cur'

section Steps

variable {fuel depth : Nat} {first : Bool} {v : Value} {vs : List Value}
  {fs : List (String × Value)} {items items' : Nat → Cursor → List Value → Cursor → Prop}
  {fields fields' : Nat → Cursor → List (String × Value) → Cursor → Prop}

/-- Other ways to read items and fields will do if they do behind the cursor. -/
theorem ReadBy.mono (h : ReadBy items fields depth cur v cur')
    (hitems : ∀ d c vs c', c.left < cur.left → items d c vs c' → items' d c vs c')
    (hfields : ∀ d c fs c', c.left < cur.left → fields d c fs c' → fields' d c fs c') :
    ReadBy items' fields' depth cur v cur' := by
  cases h with
  | null hat hword => exact .null hat hword
  | yes hat hword => exact .yes hat hword
  | no hat hword => exact .no hat hword
  | negative hat hnumber => exact .negative hat hnumber
  | number hat hdigit hnumber => exact .number hat hdigit hnumber
  | text hat htext => exact .text hat htext
  | list hat hdepth h => exact .list hat hdepth (hitems _ _ _ _ (left_skip_past hat) h)
  | object hat hdepth h => exact .object hat hdepth (hfields _ _ _ _ (left_skip_past hat) h)

/-- A value consumes text if its items and fields do. -/
theorem ReadBy.left (h : ReadBy items fields depth cur v cur')
    (hitems : ∀ d c vs c', items d c vs c' → c'.left ≤ c.left)
    (hfields : ∀ d c fs c', fields d c fs c' → c'.left ≤ c.left) : cur'.left < cur.left := by
  cases h with
  | null hat hword | yes hat hword | no hat hword =>
      exact Nat.lt_of_le_of_lt (left_readWord hword) (left_skip_past hat)
  | negative hat hnumber => exact Nat.lt_trans (left_readNumber hnumber) (left_skip_past hat)
  | number hat hdigit hnumber => exact Nat.lt_of_lt_of_le (left_readNumber hnumber) (left_skip cur)
  | text hat htext => exact Nat.lt_trans (left_readText htext) (left_skip_past hat)
  | list hat hdepth h => exact Nat.lt_of_le_of_lt (hitems _ _ _ _ h) (left_skip_past hat)
  | object hat hdepth h => exact Nat.lt_of_le_of_lt (hfields _ _ _ _ h) (left_skip_past hat)

theorem enter_eq_ok {d : Nat} : enter depth cur = .ok d ↔ 1 < depth ∧ d = depth - 1 := by
  unfold enter
  split
  · exact ⟨fun h => (nomatch h), fun h => by omega⟩
  · next hdepth =>
    constructor
    · intro h
      cases h
      exact ⟨by omega, rfl⟩
    · rintro ⟨_, rfl⟩
      rfl

theorem readValue_succ : readValue (fuel + 1) depth cur = .ok (v, cur') ↔
    ReadBy (fun d c vs c' => readItems fuel d true c = .ok (vs, c'))
      (fun d c fs c' => readFields fuel d true c = .ok (fs, c')) depth cur v cur' := by
  rw [readValue]
  dsimp only
  constructor
  · intro h
    split at h
    · cases h
    · next c rest hat =>
      split at h
      · next hc =>
        obtain ⟨_, hword, ⟨⟩⟩ := bind_eq_ok.mp h
        exact .null (hc ▸ hat) (hc ▸ hword)
      · split at h
        · next hc =>
          obtain ⟨_, hword, ⟨⟩⟩ := bind_eq_ok.mp h
          exact .yes (hc ▸ hat) (hc ▸ hword)
        · split at h
          · next hc =>
            obtain ⟨_, hword, ⟨⟩⟩ := bind_eq_ok.mp h
            exact .no (hc ▸ hat) (hc ▸ hword)
          · split at h
            · next hc =>
              obtain ⟨_, hnumber, ⟨⟩⟩ := bind_eq_ok.mp h
              exact .negative (hc ▸ hat) (hc ▸ hnumber)
            · split at h
              · next hdigit =>
                obtain ⟨_, hnumber, ⟨⟩⟩ := bind_eq_ok.mp h
                exact .number hat hdigit hnumber
              · split at h
                · next hc =>
                  obtain ⟨_, htext, ⟨⟩⟩ := bind_eq_ok.mp h
                  exact .text (hc ▸ hat) (hc ▸ htext)
                · split at h
                  · next hc =>
                    obtain ⟨_, henter, h⟩ := bind_eq_ok.mp h
                    obtain ⟨_, hitems, ⟨⟩⟩ := bind_eq_ok.mp h
                    obtain ⟨hdepth, rfl⟩ := enter_eq_ok.mp henter
                    exact .list (hc ▸ hat) hdepth (hc ▸ hitems)
                  · split at h
                    · next hc =>
                      obtain ⟨_, henter, h⟩ := bind_eq_ok.mp h
                      obtain ⟨_, hfields, ⟨⟩⟩ := bind_eq_ok.mp h
                      obtain ⟨hdepth, rfl⟩ := enter_eq_ok.mp henter
                      exact .object (hc ▸ hat) hdepth (hc ▸ hfields)
                    · cases h
  · intro h
    cases h with
    | null hat hword => simp [hat, hword, bind, Except.bind, pure, Except.pure]
    | yes hat hword => simp [hat, hword, bind, Except.bind, pure, Except.pure]
    | no hat hword => simp [hat, hword, bind, Except.bind, pure, Except.pure]
    | negative hat hnumber => simp [hat, hnumber, bind, Except.bind, pure, Except.pure]
    | @number c rest n cur' hat hdigit hnumber =>
        have hother (x : Char) (hx : x.isDigit = false) : c ≠ x := by
          rintro rfl
          exact absurd hdigit (by simp [hx])
        have hn := hother 'n' (by decide)
        have ht := hother 't' (by decide)
        have hf := hother 'f' (by decide)
        have hminus := hother '-' (by decide)
        simp [hat, hn, ht, hf, hminus, hdigit, hnumber, bind, Except.bind, pure, Except.pure]
    | text hat htext => simp [hat, htext, bind, Except.bind, pure, Except.pure]
    | list hat hdepth hitems =>
        simp [hat, enter_eq_ok.mpr ⟨hdepth, rfl⟩, hitems, bind, Except.bind, pure, Except.pure]
    | object hat hdepth hfields =>
        simp [hat, enter_eq_ok.mpr ⟨hdepth, rfl⟩, hfields, bind, Except.bind, pure, Except.pure]

theorem readItems_succ : readItems (fuel + 1) depth first cur = .ok (vs, cur') ↔
    (nextItem? first cur = .ok none ∧ vs = [] ∧ cur' = cur.skip.step) ∨
      ∃ begin v after rest, nextItem? first cur = .ok (some begin) ∧
        readValue fuel depth begin = .ok (v, after) ∧
        readItems fuel depth false after = .ok (rest, cur') ∧ vs = v :: rest := by
  rw [readItems]
  cases hnext : nextItem? first cur with
  | error e => simp [bind, Except.bind]
  | ok found =>
      cases found with
      | none => simp [bind, Except.bind, pure, Except.pure, eq_comm]
      | some begin =>
          constructor
          · intro h
            obtain ⟨_, ⟨⟩, h⟩ := bind_eq_ok.mp h
            obtain ⟨⟨v, after⟩, hvalue, h⟩ := bind_eq_ok.mp h
            obtain ⟨⟨rest, _⟩, hrest, ⟨⟩⟩ := bind_eq_ok.mp h
            exact .inr ⟨begin, v, after, rest, rfl, hvalue, hrest, rfl⟩
          · rintro (⟨⟨⟩, _⟩ | ⟨_, v, after, rest, ⟨⟩, hvalue, hrest, rfl⟩)
            simp [hvalue, hrest, bind, Except.bind, pure, Except.pure]

theorem readFields_succ : readFields (fuel + 1) depth first cur = .ok (fs, cur') ↔
    (nextKey? first cur = .ok none ∧ fs = [] ∧ cur' = cur.skip.step) ∨
      ∃ begin key colon value v after rest, nextKey? first cur = .ok (some begin) ∧
        readText begin = .ok (key, colon) ∧ readColon colon = .ok value ∧
        readValue fuel depth value = .ok (v, after) ∧
        readFields fuel depth false after = .ok (rest, cur') ∧ fs = (key, v) :: rest := by
  rw [readFields]
  cases hnext : nextKey? first cur with
  | error e => simp [bind, Except.bind]
  | ok found =>
      cases found with
      | none => simp [bind, Except.bind, pure, Except.pure, eq_comm]
      | some begin =>
          constructor
          · intro h
            obtain ⟨_, ⟨⟩, h⟩ := bind_eq_ok.mp h
            obtain ⟨⟨key, colon⟩, hkey, h⟩ := bind_eq_ok.mp h
            obtain ⟨value, hcolon, h⟩ := bind_eq_ok.mp h
            obtain ⟨⟨v, after⟩, hvalue, h⟩ := bind_eq_ok.mp h
            obtain ⟨⟨rest, _⟩, hrest, ⟨⟩⟩ := bind_eq_ok.mp h
            exact .inr ⟨begin, key, colon, value, v, after, rest, rfl, hkey, hcolon, hvalue,
              hrest, rfl⟩
          · rintro (⟨⟨⟩, _⟩ |
              ⟨_, key, colon, value, v, after, rest, ⟨⟩, hkey, hcolon, hvalue, hrest, rfl⟩)
            simp [hkey, hcolon, hvalue, hrest, bind, Except.bind, pure, Except.pure]

end Steps

/-! Readings that come to an end. -/

/-- A reading that comes to an end has consumed text. -/
theorem left_of_read (fuel : Nat) :
    (∀ {depth cur v cur'}, readValue fuel depth cur = .ok (v, cur') → cur'.left < cur.left) ∧
    (∀ {depth first cur vs cur'}, readItems fuel depth first cur = .ok (vs, cur') →
      cur'.left < cur.left) ∧
    ∀ {depth first cur fs cur'}, readFields fuel depth first cur = .ok (fs, cur') →
      cur'.left < cur.left := by
  induction fuel with
  | zero => exact ⟨fun h => (nomatch h), fun h => (nomatch h), fun h => (nomatch h)⟩
  | succ fuel ih =>
      obtain ⟨hvalue, hitems, hfields⟩ := ih
      refine ⟨fun h => ?_, fun h => ?_, fun h => ?_⟩
      · exact (readValue_succ.mp h).left (fun _ _ _ _ h => Nat.le_of_lt (hitems h)) fun _ _ _ _ h =>
          Nat.le_of_lt (hfields h)
      · obtain ⟨hnone, _, rfl⟩ | ⟨begin, v, after, rest, hnext, hv, hrest, _⟩ := readItems_succ.mp h
        · obtain ⟨_, hat⟩ := nextItem?_none hnone
          exact left_step hat
        · have hbegin := nextItem?_some hnext
          have hafter := hvalue hv
          have hmore := hitems hrest
          omega
      · obtain ⟨hnone, _, rfl⟩ | ⟨begin, key, colon, value, v, after, rest, hnext, hkey, hcolon, hv,
          hrest, _⟩ := readFields_succ.mp h
        · obtain ⟨_, hat⟩ := nextKey?_none hnone
          exact left_step hat
        · have hbegin := nextKey?_some hnext
          have htext := left_readText hkey
          have hvalue' := left_readColon hcolon
          have hafter := hvalue hv
          have hmore := hfields hrest
          omega

/-- A reading that comes to an end does so with any fuel that covers the text. -/
theorem read_of_read (fuel : Nat) :
    (∀ {depth cur v cur'}, readValue fuel depth cur = .ok (v, cur') →
      ∀ fuel', 2 * cur.left + 1 ≤ fuel' → readValue fuel' depth cur = .ok (v, cur')) ∧
    (∀ {depth first cur vs cur'}, readItems fuel depth first cur = .ok (vs, cur') →
      ∀ fuel', 2 * cur.left + 2 ≤ fuel' → readItems fuel' depth first cur = .ok (vs, cur')) ∧
    ∀ {depth first cur fs cur'}, readFields fuel depth first cur = .ok (fs, cur') →
      ∀ fuel', 2 * cur.left + 2 ≤ fuel' → readFields fuel' depth first cur = .ok (fs, cur') := by
  induction fuel with
  | zero => exact ⟨fun h => (nomatch h), fun h => (nomatch h), fun h => (nomatch h)⟩
  | succ fuel ih =>
      obtain ⟨hvalue, hitems, hfields⟩ := ih
      refine ⟨?_, ?_, ?_⟩
      · rintro depth cur v cur' h (_ | fuel') hfuel
        · omega
        · refine readValue_succ.mpr ((readValue_succ.mp h).mono ?_ ?_)
          · exact fun d c vs c' hless h => hitems h fuel' (by omega)
          · exact fun d c fs c' hless h => hfields h fuel' (by omega)
      · rintro depth first cur vs cur' h (_ | fuel') hfuel
        · omega
        · refine readItems_succ.mpr ((readItems_succ.mp h).imp id ?_)
          rintro ⟨begin, v, after, rest, hnext, hv, hrest, rfl⟩
          have hbegin := nextItem?_some hnext
          have hafter := (left_of_read fuel).1 hv
          exact ⟨begin, v, after, rest, hnext, hvalue hv fuel' (by omega),
            hitems hrest fuel' (by omega), rfl⟩
      · rintro depth first cur fs cur' h (_ | fuel') hfuel
        · omega
        · refine readFields_succ.mpr ((readFields_succ.mp h).imp id ?_)
          rintro ⟨begin, key, colon, value, v, after, rest, hnext, hkey, hcolon, hv, hrest, rfl⟩
          have hbegin := nextKey?_some hnext
          have htext := left_readText hkey
          have hcolon' := left_readColon hcolon
          have hafter := (left_of_read fuel).1 hv
          exact ⟨begin, key, colon, value, v, after, rest, hnext, hkey, hcolon,
            hvalue hv fuel' (by omega), hfields hrest fuel' (by omega), rfl⟩

/-- A value is read at a cursor up to another one. -/
def Reads (depth : Nat) (cur : Cursor) (v : Value) (cur' : Cursor) : Prop :=
  ∃ fuel, readValue fuel depth cur = .ok (v, cur')

/-- Items are read up to behind the end of their list. -/
def ReadsItems (depth : Nat) (first : Bool) (cur : Cursor) (vs : List Value) (cur' : Cursor) :
    Prop :=
  ∃ fuel, readItems fuel depth first cur = .ok (vs, cur')

/-- Fields are read up to behind the end of their object. -/
def ReadsFields (depth : Nat) (first : Bool) (cur : Cursor) (fs : List (String × Value))
    (cur' : Cursor) : Prop :=
  ∃ fuel, readFields fuel depth first cur = .ok (fs, cur')

section Reads

variable {fuel depth : Nat} {first : Bool} {v : Value} {vs : List Value}
  {fs : List (String × Value)}

theorem reads_iff_fuel (hfuel : 2 * cur.left + 1 ≤ fuel) :
    Reads depth cur v cur' ↔ readValue fuel depth cur = .ok (v, cur') :=
  ⟨fun ⟨k, h⟩ => (read_of_read k).1 h fuel hfuel, fun h => ⟨fuel, h⟩⟩

theorem readsItems_iff_fuel (hfuel : 2 * cur.left + 2 ≤ fuel) :
    ReadsItems depth first cur vs cur' ↔ readItems fuel depth first cur = .ok (vs, cur') :=
  ⟨fun ⟨k, h⟩ => (read_of_read k).2.1 h fuel hfuel, fun h => ⟨fuel, h⟩⟩

theorem readsFields_iff_fuel (hfuel : 2 * cur.left + 2 ≤ fuel) :
    ReadsFields depth first cur fs cur' ↔ readFields fuel depth first cur = .ok (fs, cur') :=
  ⟨fun ⟨k, h⟩ => (read_of_read k).2.2 h fuel hfuel, fun h => ⟨fuel, h⟩⟩

theorem Reads.left (h : Reads depth cur v cur') : cur'.left < cur.left :=
  h.elim fun fuel h => (left_of_read fuel).1 h

theorem ReadsItems.left (h : ReadsItems depth first cur vs cur') : cur'.left < cur.left :=
  h.elim fun fuel h => (left_of_read fuel).2.1 h

theorem ReadsFields.left (h : ReadsFields depth first cur fs cur') : cur'.left < cur.left :=
  h.elim fun fuel h => (left_of_read fuel).2.2 h

/-- Blanks in front of a value do not matter. -/
theorem reads_skip : Reads depth cur.skip v cur' ↔ Reads depth cur v cur' := by
  have hskip (fuel : Nat) :
      readValue (fuel + 1) depth cur.skip = readValue (fuel + 1) depth cur := by
    simp only [readValue, skip_skip]
  constructor
  · rintro ⟨_ | fuel, h⟩
    · cases h
    · exact ⟨fuel + 1, (hskip fuel).symm.trans h⟩
  · rintro ⟨_ | fuel, h⟩
    · cases h
    · exact ⟨fuel + 1, (hskip fuel).trans h⟩

/-- A value is read by what stands at the cursor. -/
theorem reads_iff : Reads depth cur v cur' ↔
    ReadBy (fun d c vs c' => ReadsItems d true c vs c')
      (fun d c fs c' => ReadsFields d true c fs c')
      depth cur v cur' := by
  constructor
  · intro h
    rw [reads_iff_fuel (Nat.le_refl (2 * cur.left + 1)), readValue_succ] at h
    exact h.mono (fun _ _ _ _ _ h => ⟨_, h⟩) fun _ _ _ _ _ h => ⟨_, h⟩
  · intro h
    refine ⟨2 * cur.left + 1, readValue_succ.mpr (h.mono ?_ ?_)⟩
    · exact fun d c vs c' hless h => (readsItems_iff_fuel (by omega)).mp h
    · exact fun d c fs c' hless h => (readsFields_iff_fuel (by omega)).mp h

theorem readsItems_iff : ReadsItems depth first cur vs cur' ↔
    (nextItem? first cur = .ok none ∧ vs = [] ∧ cur' = cur.skip.step) ∨
      ∃ begin v after rest, nextItem? first cur = .ok (some begin) ∧ Reads depth begin v after ∧
        ReadsItems depth false after rest cur' ∧ vs = v :: rest := by
  constructor
  · intro h
    rw [readsItems_iff_fuel (Nat.le_refl (2 * cur.left + 1 + 1)), readItems_succ] at h
    refine h.imp id ?_
    rintro ⟨begin, v, after, rest, hnext, hv, hrest, rfl⟩
    exact ⟨begin, v, after, rest, hnext, ⟨_, hv⟩, ⟨_, hrest⟩, rfl⟩
  · intro h
    refine ⟨2 * cur.left + 1 + 1, readItems_succ.mpr (h.imp id ?_)⟩
    rintro ⟨begin, v, after, rest, hnext, hv, hrest, rfl⟩
    have hbegin := nextItem?_some hnext
    have hafter := hv.left
    exact ⟨begin, v, after, rest, hnext, (reads_iff_fuel (by omega)).mp hv,
      (readsItems_iff_fuel (by omega)).mp hrest, rfl⟩

theorem readsFields_iff : ReadsFields depth first cur fs cur' ↔
    (nextKey? first cur = .ok none ∧ fs = [] ∧ cur' = cur.skip.step) ∨
      ∃ begin key colon value v after rest, nextKey? first cur = .ok (some begin) ∧
        readText begin = .ok (key, colon) ∧ readColon colon = .ok value ∧
        Reads depth value v after ∧
        ReadsFields depth false after rest cur' ∧ fs = (key, v) :: rest := by
  constructor
  · intro h
    rw [readsFields_iff_fuel (Nat.le_refl (2 * cur.left + 1 + 1)), readFields_succ] at h
    refine h.imp id ?_
    rintro ⟨begin, key, colon, value, v, after, rest, hnext, hkey, hcolon, hv, hrest, rfl⟩
    exact ⟨begin, key, colon, value, v, after, rest, hnext, hkey, hcolon, ⟨_, hv⟩, ⟨_, hrest⟩, rfl⟩
  · intro h
    refine ⟨2 * cur.left + 1 + 1, readFields_succ.mpr (h.imp id ?_)⟩
    rintro ⟨begin, key, colon, value, v, after, rest, hnext, hkey, hcolon, hv, hrest, rfl⟩
    have hbegin := nextKey?_some hnext
    have htext := left_readText hkey
    have hcolon' := left_readColon hcolon
    have hafter := hv.left
    exact ⟨begin, key, colon, value, v, after, rest, hnext, hkey, hcolon,
      (reads_iff_fuel (by omega)).mp hv, (readsFields_iff_fuel (by omega)).mp hrest, rfl⟩

end Reads

end Json
end PullFlow
