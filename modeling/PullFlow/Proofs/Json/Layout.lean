import PullFlow.Proofs.Json.Tokens

/-!
A value that is written as text is read back from it, be it written compactly or with blanks between
its marks. It must not nest too deep, and each of its numbers must be read back on its own: integers
that fit a word of 64 bits are, and so are all texts.
-/

namespace PullFlow

/-! What of a value decides whether its text is read back. -/

namespace Value

mutual

/-- The numbers in a value. -/
def numbers : Value → List Number
  | .number n => [n]
  | .list items => numbersOfItems items
  | .object fields => numbersOfFields fields
  | _ => []

def numbersOfItems : List Value → List Number
  | [] => []
  | v :: rest => numbers v ++ numbersOfItems rest

def numbersOfFields : List (String × Value) → List Number
  | [] => []
  | (_, v) :: rest => numbers v ++ numbersOfFields rest

end

mutual

/-- Lists and objects nest less than `depth` deep. -/
def Nests : Nat → Value → Prop
  | depth, .list items => 1 < depth ∧ ItemsNest (depth - 1) items
  | depth, .object fields => 1 < depth ∧ FieldsNest (depth - 1) fields
  | _, _ => True

def ItemsNest : Nat → List Value → Prop
  | _, [] => True
  | depth, v :: rest => Nests depth v ∧ ItemsNest depth rest

def FieldsNest : Nat → List (String × Value) → Prop
  | _, [] => True
  | depth, (_, v) :: rest => Nests depth v ∧ FieldsNest depth rest

end

/-- A value nests less than `depth` deep and its numbers are of one sort. -/
def Fits (good : Number → Prop) (depth : Nat) (v : Value) : Prop :=
  v.Nests depth ∧ ∀ n ∈ v.numbers, good n

section Fits

variable {good : Number → Prop} {depth : Nat} {items : List Value} {fields : List (String × Value)}

theorem itemsNest_iff : ItemsNest depth items ↔ ∀ v ∈ items, v.Nests depth := by
  induction items with
  | nil => simp [ItemsNest]
  | cons v rest ih => simp [ItemsNest, ih]

theorem fieldsNest_iff : FieldsNest depth fields ↔ ∀ f ∈ fields, f.2.Nests depth := by
  induction fields with
  | nil => simp [FieldsNest]
  | cons f rest ih => simp [FieldsNest, ih]

theorem numbersOfItems_eq (items : List Value) : numbersOfItems items = items.flatMap numbers := by
  induction items with
  | nil => rfl
  | cons v rest ih => simp [numbersOfItems, ih]

theorem numbersOfFields_eq (fields : List (String × Value)) :
    numbersOfFields fields = fields.flatMap fun f => f.2.numbers := by
  induction fields with
  | nil => rfl
  | cons f rest ih => simp [numbersOfFields, ih]

theorem fits_null : Value.null.Fits good depth := ⟨trivial, fun _ h => (nomatch h)⟩

theorem fits_bool (b : Bool) : (Value.bool b).Fits good depth := ⟨trivial, fun _ h => (nomatch h)⟩

theorem fits_text (s : String) : (Value.text s).Fits good depth := ⟨trivial, fun _ h => (nomatch h)⟩

theorem fits_number {n : Number} : (Value.number n).Fits good depth ↔ good n := by
  simp [Fits, Nests, numbers]

theorem fits_list : (Value.list items).Fits good depth ↔
    1 < depth ∧ ∀ v ∈ items, v.Fits good (depth - 1) := by
  simp only [Fits, Nests, numbers, itemsNest_iff, numbersOfItems_eq, List.mem_flatMap]
  constructor
  · rintro ⟨⟨hdepth, hnests⟩, hgood⟩
    exact ⟨hdepth, fun v hv => ⟨hnests v hv, fun n hn => hgood n ⟨v, hv, hn⟩⟩⟩
  · rintro ⟨hdepth, hitems⟩
    exact ⟨⟨hdepth, fun v hv => (hitems v hv).1⟩, fun n ⟨v, hv, hn⟩ => (hitems v hv).2 n hn⟩

theorem fits_object : (Value.object fields).Fits good depth ↔
    1 < depth ∧ ∀ f ∈ fields, f.2.Fits good (depth - 1) := by
  simp only [Fits, Nests, numbers, fieldsNest_iff, numbersOfFields_eq, List.mem_flatMap]
  constructor
  · rintro ⟨⟨hdepth, hnests⟩, hgood⟩
    exact ⟨hdepth, fun f hf => ⟨hnests f hf, fun n hn => hgood n ⟨f, hf, hn⟩⟩⟩
  · rintro ⟨hdepth, hfields⟩
    exact ⟨⟨hdepth, fun f hf => (hfields f hf).1⟩, fun n ⟨f, hf, hn⟩ => (hfields f hf).2 n hn⟩

end Fits

end Value

/-- A number is read back from its text. -/
def Number.Survives (n : Number) : Prop := Json.parse n.text = .ok (.number n)

namespace Json

open Cursor Value

variable {cur cur' : Cursor} {cs tail : List Char} {depth : Nat} {v : Value}

/-! Blanks. -/

/-- A text that is nothing but blanks. -/
def Blank (cs : List Char) : Prop := ∀ c ∈ cs, isGap c = true

theorem blank_nil : Blank [] := fun _ h => (nomatch h)

theorem Cursor.rest_skip (cur : Cursor) : cur.skip.rest = cur.rest.dropWhile isGap := by
  obtain ⟨cs, place⟩ := cur
  rw [Cursor.skip]
  dsimp only
  induction cs generalizing place with
  | nil => rfl
  | cons c rest ih =>
      rw [skipGaps, List.dropWhile_cons]
      split
      · exact ih _
      · rfl

/-- A cursor stands before a text, blanks left aside. -/
def Cursor.Before (cur : Cursor) (cs : List Char) : Prop := cur.skip.rest = cs.dropWhile isGap

theorem Cursor.before_of_rest (h : cur.rest = cs) : cur.Before cs := by
  rw [Before, rest_skip, h]

theorem Cursor.Before.skipped (h : cur.Before cs) : cur.skip.Before cs := by
  rwa [Before, skip_skip]

theorem Cursor.Before.blank {gap : List Char} (h : cur.Before (gap ++ cs)) (hgap : Blank gap) :
    cur.Before cs := by
  rw [Before, h, List.dropWhile_append_of_pos hgap]

/-- Skipping comes to the next character that is no blank. -/
theorem Cursor.Before.skip {c : Char} {rest : List Char} (h : cur.Before (c :: rest))
    (hc : isGap c = false) : cur.skip.rest = c :: rest := by
  rw [h, List.dropWhile_cons_of_neg (by simp [hc])]

/-! Whole texts. -/

theorem readEnd_eq_ok : readEnd cur = .ok () ↔ cur.skip.rest = [] := by
  rw [readEnd]
  split
  · next hrest => simp [hrest]
  · next hrest => simpa [refuse] using hrest

/-- A text is a value if the value is read from it and nothing but blanks follows. -/
theorem parseRaw_eq_ok {s : String} : parseRaw s = .ok v ↔
    ∃ cur, Reads depthLimit (ofText s) v cur ∧ cur.skip.rest = [] := by
  have hfuel : 2 * (ofText s).left + 1 ≤ fuelFor s := by
    rw [fuelFor, ← String.length_toList]
    exact Nat.le_succ _
  have hresult (r : Except Stop Value) : r.mapError Stop.misread = .ok v ↔ r = .ok v := by
    cases r <;> simp [Except.mapError]
  rw [parseRaw, hresult, bind_eq_ok]
  constructor
  · rintro ⟨⟨v', cur⟩, hread, hrest⟩
    obtain ⟨_, hend, hv⟩ := bind_eq_ok.mp hrest
    obtain rfl : v' = v := Except.ok.inj hv
    exact ⟨cur, ⟨_, hread⟩, readEnd_eq_ok.mp hend⟩
  · rintro ⟨cur, hread, hend⟩
    exact ⟨_, (reads_iff_fuel hfuel).mp hread, bind_eq_ok.mpr ⟨(), readEnd_eq_ok.mpr hend, rfl⟩⟩

/-! Numbers. -/

theorem parse_number {s : String} {n : Number} : parse s = .ok (.number n) ↔
    parseRaw s = .ok (.number n) := by
  rw [parse]
  constructor
  · intro h
    cases hraw : parseRaw s with
    | error e => simp [hraw, Except.map] at h
    | ok v =>
        rw [hraw] at h
        have htidy : v.tidy = .number n := Except.ok.inj h
        cases v with
        | number m => exact congrArg _ htidy
        | null | bool _ | text _ | list _ | object _ => simp [tidy] at htidy
  · intro h
    rw [h]
    rfl

/-- A number that is read back on its own is read back in front of other text. -/
theorem reads_number {n : Number} (h : n.Survives) (ht : EndsNumber tail)
    (hcur : cur.Before (n.text.toList ++ tail)) :
    ∃ after, Reads depth cur (.number n) after ∧ after.Before tail := by
  obtain ⟨stop, hread, hend⟩ := parseRaw_eq_ok.mp (parse_number.mp h)
  -- What is read is behind the blanks of the number's text, so its beginning is the cursor's.
  have hbegin {c : Char} {rest : List Char} (hat : (ofText n.text).skip.rest = c :: rest) :
      cur.skip.rest = c :: rest ++ tail := by
    rw [rest_skip] at hat
    have hat : n.text.toList.dropWhile isGap = c :: rest := hat
    rw [hcur, List.dropWhile_append, hat]
    rfl
  have hafter {after : Cursor} (hrest : after.rest = stop.rest ++ tail) : after.Before tail := by
    rw [rest_skip, List.dropWhile_eq_nil_iff] at hend
    exact (before_of_rest hrest).blank hend
  cases reads_iff.mp hread with
  | negative hat hnumber =>
      obtain ⟨after, hnumber, hrest⟩ :=
        @readNumber_append _ _ tail (cur.skip.past '-' (_ ++ tail)) _ _ ht hnumber rfl
      exact ⟨after, reads_iff.mpr (.negative (hbegin hat) hnumber), hafter hrest⟩
  | number hat hdigit hnumber =>
      obtain ⟨after, hnumber, hrest⟩ :=
        readNumber_append ht hnumber ((hbegin hat).trans (congrArg (· ++ tail) hat.symm))
      exact ⟨after, reads_iff.mpr (.number (hbegin hat) hdigit hnumber), hafter hrest⟩

theorem isGap_of_isDigit {c : Char} (h : c.isDigit = true) : isGap c = false := by
  rw [Bool.eq_false_iff]
  intro hgap
  simp only [isGap, Bool.or_eq_true, decide_eq_true_eq] at hgap
  obtain ((rfl | rfl) | rfl) | rfl := hgap <;> exact absurd h (by decide)

/-- The integers that fit are read back. -/
theorem survives_int {n : Int} (h : (Number.int n).Fits) : (Number.int n).Survives := by
  obtain ⟨hlow, hhigh⟩ := h
  have htext : (Number.int n).text.toList =
      if 0 ≤ n then Nat.toDigits 10 n.toNat else '-' :: Nat.toDigits 10 (-n).toNat := by
    rw [Number.text, Int.toString_eq_repr, Int.repr_eq_if]
    split
    · exact Nat.toList_repr
    · rw [String.toList_append, Nat.toList_repr]
      rfl
  refine parse_number.mpr (parseRaw_eq_ok.mpr ?_)
  by_cases hn : 0 ≤ n
  · rw [if_pos hn] at htext
    obtain ⟨c, rest, hdigits⟩ := List.exists_cons_of_ne_nil (@Nat.toDigits_ne_nil n.toNat 10)
    have hc : c.isDigit = true :=
      Nat.isDigit_of_mem_toDigits (by decide) (by decide) (hdigits ▸ List.mem_cons_self)
    have hat := (@before_of_rest (ofText _) _ (htext.trans hdigits)).skip (isGap_of_isDigit hc)
    obtain ⟨after, hnumber, hafter⟩ :=
      @readNumber_toDigits _ n.toNat false (hat.trans hdigits.symm) (by omega) fun h => (nomatch h)
    rw [if_neg (by simp), Int.toNat_of_nonneg hn] at hnumber
    exact ⟨after, reads_iff.mpr (.number hat hc hnumber), by rw [rest_skip, hafter]; rfl⟩
  · rw [if_neg hn] at htext
    have hat := (@before_of_rest (ofText _) _ htext).skip (by decide)
    have hword : Decimal.signedLimit < Decimal.wordLimit := by decide
    obtain ⟨after, hnumber, hafter⟩ :=
      @readNumber_toDigits ((ofText _).skip.past '-' _) (-n).toNat true
      rfl (by omega) fun _ => ⟨by omega, by omega⟩
    rw [if_pos rfl, Int.toNat_of_nonneg (by omega), Int.neg_neg] at hnumber
    exact ⟨after, reads_iff.mpr (.negative hat hnumber), by rw [rest_skip, hafter]; rfl⟩

/-! What a reading has read. -/

/-- Items and fields nest one deeper than their list or object, and its numbers are theirs. -/
theorem fits_of_readBy {items : Nat → Cursor → List Value → Cursor → Prop}
    {fields : Nat → Cursor → List (String × Value) → Cursor → Prop}
    (hitems : ∀ {d c vs c'}, items d c vs c' → ∀ v ∈ vs, v.Fits Number.Fits d)
    (hfields : ∀ {d c fs c'}, fields d c fs c' → ∀ f ∈ fs, f.2.Fits Number.Fits d)
    (h : ReadBy items fields depth cur v cur') : v.Fits Number.Fits depth := by
  cases h with
  | null hat hword => exact fits_null
  | yes hat hword => exact fits_bool true
  | no hat hword => exact fits_bool false
  | negative hat hnumber => exact fits_number.mpr (fits_of_readNumber hnumber)
  | number hat hdigit hnumber => exact fits_number.mpr (fits_of_readNumber hnumber)
  | text hat htext => exact fits_text _
  | list hat hdepth h => exact fits_list.mpr ⟨hdepth, hitems h⟩
  | object hat hdepth h => exact fits_object.mpr ⟨hdepth, hfields h⟩

theorem fits_of_read (fuel : Nat) :
    (∀ {depth cur v cur'}, readValue fuel depth cur = .ok (v, cur') → v.Fits Number.Fits depth) ∧
    (∀ {depth first cur vs cur'}, readItems fuel depth first cur = .ok (vs, cur') →
      ∀ v ∈ vs, v.Fits Number.Fits depth) ∧
    ∀ {depth first cur fs cur'}, readFields fuel depth first cur = .ok (fs, cur') →
      ∀ f ∈ fs, f.2.Fits Number.Fits depth := by
  induction fuel with
  | zero => exact ⟨fun h => (nomatch h), fun h => (nomatch h), fun h => (nomatch h)⟩
  | succ fuel ih =>
      obtain ⟨hvalue, hitems, hfields⟩ := ih
      have hdeeper {depth cur v cur'} (h : readValue (fuel + 1) depth cur = .ok (v, cur')) :=
        fits_of_readBy hitems hfields (readValue_succ.mp h)
      refine ⟨hdeeper, fun h => ?_, fun h => ?_⟩
      · obtain ⟨_, rfl, _⟩ | ⟨_, v, _, rest, _, hv, hrest, rfl⟩ := readItems_succ.mp h
        · exact fun _ h => (nomatch h)
        · exact List.forall_mem_cons.mpr ⟨hvalue hv, hitems hrest⟩
      · obtain ⟨_, rfl, _⟩ | ⟨_, key, _, _, v, _, rest, _, _, _, hv, hrest, rfl⟩ :=
          readFields_succ.mp h
        · exact fun _ h => (nomatch h)
        · exact List.forall_mem_cons.mpr ⟨hvalue hv, hfields hrest⟩

/-- A value that a text holds nests no deeper than texts do, and its integers fit. -/
theorem fits_of_parseRaw {s : String} (h : parseRaw s = .ok v) : v.Fits Number.Fits depthLimit := by
  obtain ⟨cur, ⟨fuel, hread⟩, _⟩ := parseRaw_eq_ok.mp h
  exact (fits_of_read fuel).1 hread

/-! The layouts of a text. -/

theorem Blank.append {gap gap' : List Char} (h : Blank gap) (h' : Blank gap') :
    Blank (gap ++ gap') :=
  fun c hc => (List.mem_append.mp hc).elim (h c) (h' c)

/-- The blanks of a text: in front of what stands at a depth, and behind a colon. -/
structure Layout where
  line : Nat → List Char
  space : List Char
  line_blank : ∀ depth, Blank (line depth)
  space_blank : Blank space

namespace Layout

/-- No blanks at all. -/
def compact : Layout := ⟨fun _ => [], [], fun _ => blank_nil, blank_nil⟩

theorem blank_newline (depth : Nat) : Blank (newline depth) := by
  refine List.forall_mem_cons.mpr ⟨rfl, fun c hc => ?_⟩
  rw [List.eq_of_mem_replicate hc]
  rfl

/-- A line for each item, indented by its depth. -/
def pretty : Layout := ⟨newline, [' '], blank_newline, List.forall_mem_cons.mpr ⟨rfl, blank_nil⟩⟩

/-- The blanks in front of a closing bracket; an empty list or object has none. -/
def close (l : Layout) (depth : Nat) (empty : Bool) : List Char :=
  if empty then [] else l.line depth

theorem blank_close (l : Layout) (depth : Nat) (empty : Bool) : Blank (l.close depth empty) := by
  cases empty with
  | true => exact blank_nil
  | false => exact l.line_blank depth

mutual

/-- The text of a value that stands at a depth, followed by `tail`. -/
def value (l : Layout) (depth : Nat) : Value → List Char → List Char
  | .list items, tail =>
      '[' :: l.items (depth + 1) true items (l.close depth items.isEmpty ++ ']' :: tail)
  | .object fields, tail =>
      '\x7b' :: l.fields (depth + 1) true fields (l.close depth fields.isEmpty ++ '\x7d' :: tail)
  | v, tail => compactThen v tail

def items (l : Layout) (depth : Nat) : Bool → List Value → List Char → List Char
  | _, [], tail => tail
  | first, v :: rest, tail =>
      let more := l.line depth ++ l.value depth v (l.items depth false rest tail)
      if first then more else ',' :: more

def fields (l : Layout) (depth : Nat) : Bool → List (String × Value) → List Char → List Char
  | _, [], tail => tail
  | first, (k, v) :: rest, tail =>
      let more := l.line depth ++
        (quoted k ++ ':' :: (l.space ++ l.value depth v (l.fields depth false rest tail)))
      if first then more else ',' :: more

end

mutual

theorem value_compact (depth : Nat) (tail : List Char) :
    ∀ v, compact.value depth v tail = compactThen v tail
  | .list vs => by
      rw [value, compactThen, items_compact (depth + 1) true _ vs]
      cases vs <;> rfl
  | .object fs => by
      rw [value, compactThen, fields_compact (depth + 1) true _ fs]
      cases fs <;> rfl
  | .null | .bool _ | .number _ | .text _ => by rw [value] <;> simp

theorem items_compact (depth : Nat) (first : Bool) (tail : List Char) :
    ∀ vs, compact.items depth first vs tail = compactItems first vs tail
  | [] => by rw [items, compactItems]
  | v :: rest => by
      rw [items, compactItems, items_compact depth false tail rest, value_compact depth _ v]
      rfl

theorem fields_compact (depth : Nat) (first : Bool) (tail : List Char) :
    ∀ fs, compact.fields depth first fs tail = compactFields first fs tail
  | [] => by rw [fields, compactFields]
  | (key, v) :: rest => by
      rw [fields, compactFields, fields_compact depth false tail rest, value_compact depth _ v]
      rfl

end

mutual

theorem value_pretty (depth : Nat) (tail : List Char) :
    ∀ v, pretty.value depth v tail = prettyThen depth v tail
  | .list [] | .object [] => by
      rw [value, prettyThen]
      rfl
  | .list (v :: rest) => by
      rw [value, prettyThen, items_pretty (depth + 1) true _ (v :: rest)]
      rfl
  | .object (f :: rest) => by
      rw [value, prettyThen, fields_pretty (depth + 1) true _ (f :: rest)]
      rfl
  | .null | .bool _ | .number _ | .text _ => by rw [value, prettyThen] <;> simp

theorem items_pretty (depth : Nat) (first : Bool) (tail : List Char) :
    ∀ vs, pretty.items depth first vs tail = prettyItems depth first vs tail
  | [] => by rw [items, prettyItems]
  | v :: rest => by
      rw [items, prettyItems, items_pretty depth false tail rest, value_pretty depth _ v]
      rfl

theorem fields_pretty (depth : Nat) (first : Bool) (tail : List Char) :
    ∀ fs, pretty.fields depth first fs tail = prettyFields depth first fs tail
  | [] => by rw [fields, prettyFields]
  | (key, v) :: rest => by
      rw [fields, prettyFields, fields_pretty depth false tail rest, value_pretty depth _ v]
      rfl

end

/-! What stands behind a value ends its number. -/

theorem endsNumber_blank {gap : List Char} (hgap : Blank gap) (h : EndsNumber cs) :
    EndsNumber (gap ++ cs) := by
  cases gap with
  | nil => exact h
  | cons b rest =>
      intro c more hc
      obtain ⟨rfl, _⟩ := List.cons.inj hc
      have hb := hgap b List.mem_cons_self
      simp only [isGap, Bool.or_eq_true, decide_eq_true_eq] at hb
      obtain ((rfl | rfl) | rfl) | rfl := hb <;> decide

theorem endsNumber_mark {c : Char} (hc : c = ',' ∨ c = ']' ∨ c = '\x7d') (cs : List Char) :
    EndsNumber (c :: cs) := by
  rintro _ _ ⟨⟩
  obtain rfl | rfl | rfl := hc <;> decide

theorem endsNumber_items (l : Layout) (h : EndsNumber tail) (vs : List Value) :
    EndsNumber (l.items depth false vs tail) := by
  cases vs with
  | nil => rwa [items]
  | cons v rest =>
      rw [items]
      exact endsNumber_mark (.inl rfl) _

theorem endsNumber_fields (l : Layout) (h : EndsNumber tail) (fs : List (String × Value)) :
    EndsNumber (l.fields depth false fs tail) := by
  cases fs with
  | nil => rwa [fields]
  | cons f rest =>
      rw [fields]
      exact endsNumber_mark (.inl rfl) _

/-! Reading a layout. -/

theorem readWord_append {letters : List Char} (h : cur.rest = letters ++ tail) :
    ∃ after, readWord cur letters = .ok after ∧ after.rest = tail := by
  induction letters generalizing cur with
  | nil => exact ⟨cur, rfl, h⟩
  | cons c letters ih =>
      obtain ⟨after, hword, hafter⟩ := @ih (cur.past c (letters ++ tail)) rfl
      rw [List.cons_append] at h
      exact ⟨after, by simpa only [readWord, h, if_true] using hword, hafter⟩

/-- A text between quotes is read from its quote on. -/
theorem readText_append {s : String} (h : cur.Before (quoted s ++ tail)) :
    ∃ rest after, cur.skip.rest = '"' :: rest ∧ readText (cur.skip.past '"' rest) = .ok (s, after) ∧
      after.rest = tail := by
  rw [quoted, List.append_assoc] at h
  obtain ⟨after, hread, hafter⟩ := @readText_quoted (cur.skip.past '"' _) s tail rfl
  exact ⟨_, after, h.skip (by decide), hread, hafter⟩

/-- No value begins with the end of a list. -/
theorem head_of_reads (h : Reads depth cur v cur') :
    ∃ c rest, cur.skip.rest = c :: rest ∧ c ≠ ']' := by
  cases reads_iff.mp h with
  | null hat | yes hat | no hat | negative hat | text hat | list hat | object hat =>
      exact ⟨_, _, hat, by decide⟩
  | @number c rest _ _ hat hdigit =>
      refine ⟨c, rest, hat, ?_⟩
      rintro rfl
      exact absurd hdigit (by decide)

theorem nextItem?_first (h : Reads depth cur.skip v cur') :
    nextItem? true cur = .ok (some cur.skip) := by
  obtain ⟨c, rest, hat, hc⟩ := head_of_reads h
  rw [skip_skip] at hat
  simp [nextItem?, hat]

theorem nextItem?_comma {rest : List Char} (hcomma : cur.skip.rest = ',' :: rest)
    (h : Reads depth (cur.skip.past ',' rest).skip v cur') :
    nextItem? false cur = .ok (some (cur.skip.past ',' rest).skip) := by
  obtain ⟨c, rest, hat, hc⟩ := head_of_reads h
  rw [skip_skip] at hat
  simp [nextItem?, hcomma, hat, hc]

theorem readColon_of_rest {rest : List Char} (h : cur.rest = ':' :: rest) :
    readColon cur = .ok (cur.skip.past ':' rest) := by
  simp only [readColon, (before_of_rest h).skip (by decide)]

theorem step_of_mark {c : Char} {rest : List Char} (h : cur.skip.rest = c :: rest) :
    cur.skip.step.rest = rest := by
  rw [Cursor.step, h]
  rfl

mutual

/-- A value is read from its text and nothing behind it is. -/
theorem reads_value (l : Layout) {n : Nat} : ∀ (v : Value) {depth : Nat} {tail : List Char}
    {cur : Cursor}, v.Fits Number.Survives n → EndsNumber tail →
    cur.Before (l.value depth v tail) → ∃ after, Reads n cur v after ∧ after.Before tail
  | .null, _, tail, cur, _, _, hcur => by
      have hat := hcur.skip (by decide)
      obtain ⟨after, hword, hafter⟩ :=
        @readWord_append (cur.skip.past 'n' _) tail ['u', 'l', 'l'] rfl
      exact ⟨after, reads_iff.mpr (.null hat hword), before_of_rest hafter⟩
  | .bool true, _, tail, cur, _, _, hcur => by
      have hat := hcur.skip (by decide)
      obtain ⟨after, hword, hafter⟩ :=
        @readWord_append (cur.skip.past 't' _) tail ['r', 'u', 'e'] rfl
      exact ⟨after, reads_iff.mpr (.yes hat hword), before_of_rest hafter⟩
  | .bool false, _, tail, cur, _, _, hcur => by
      have hat := hcur.skip (by decide)
      obtain ⟨after, hword, hafter⟩ :=
        @readWord_append (cur.skip.past 'f' _) tail ['a', 'l', 's', 'e'] rfl
      exact ⟨after, reads_iff.mpr (.no hat hword), before_of_rest hafter⟩
  | .number x, _, _, _, hfits, htail, hcur => reads_number (fits_number.mp hfits) htail hcur
  | .text s, _, _, _, _, _, hcur => by
      obtain ⟨rest, after, hat, htext, hafter⟩ := readText_append hcur
      exact ⟨after, reads_iff.mpr (.text hat htext), before_of_rest hafter⟩
  | .list vs, depth, tail, cur, hfits, _, hcur => by
      obtain ⟨hdepth, hvs⟩ := fits_list.mp hfits
      rw [value] at hcur
      obtain ⟨after, hitems, hafter⟩ :=
        reads_items l vs hvs (l.blank_close depth vs.isEmpty)
          (@before_of_rest (cur.skip.past '[' _) _ rfl)
      have hlist := reads_iff.mpr (.list (hcur.skip (by decide)) hdepth hitems)
      exact ⟨after, hlist, before_of_rest hafter⟩
  | .object fs, depth, tail, cur, hfits, _, hcur => by
      obtain ⟨hdepth, hfs⟩ := fits_object.mp hfits
      rw [value] at hcur
      obtain ⟨after, hfields, hafter⟩ :=
        reads_fields l fs hfs (l.blank_close depth fs.isEmpty)
          (@before_of_rest (cur.skip.past '\x7b' _) _ rfl)
      exact ⟨after, reads_iff.mpr (.object (hcur.skip (by decide)) hdepth hfields),
        before_of_rest hafter⟩

theorem reads_items (l : Layout) {n : Nat} : ∀ (vs : List Value) {depth : Nat} {first : Bool}
    {gap tail : List Char} {cur : Cursor}, (∀ v ∈ vs, v.Fits Number.Survives n) → Blank gap →
    cur.Before (l.items depth first vs (gap ++ ']' :: tail)) →
    ∃ after, ReadsItems n first cur vs after ∧ after.rest = tail
  | [], _, first, _, tail, cur, _, hgap, hcur => by
      rw [items] at hcur
      have hat := (hcur.blank hgap).skip (by decide)
      have hnext : nextItem? first cur = .ok none := by simp [nextItem?, hat]
      exact ⟨_, readsItems_iff.mpr (.inl ⟨hnext, rfl, rfl⟩), step_of_mark hat⟩
  | v :: rest, depth, first, gap, tail, cur, hfits, hgap, hcur => by
      obtain ⟨hv, hrest⟩ := List.forall_mem_cons.mp hfits
      have htail : EndsNumber (l.items depth false rest (gap ++ ']' :: tail)) :=
        l.endsNumber_items (endsNumber_blank hgap (endsNumber_mark (.inr (.inl rfl)) _)) rest
      -- An item is read alike whether or not a comma stands in front of it.
      have hitem {start : Cursor} (hnext : ∀ {after}, Reads n start.skip v after →
            nextItem? first cur = .ok (some start.skip))
          (hstart : start.Before
            (l.value depth v (l.items depth false rest (gap ++ ']' :: tail)))) :
          ∃ after, ReadsItems n first cur (v :: rest) after ∧ after.rest = tail := by
        obtain ⟨after, hvalue, hafter⟩ := reads_value l v hv htail hstart.skipped
        obtain ⟨last, hitems, hlast⟩ := reads_items l rest hrest hgap hafter
        have hnext := hnext hvalue
        exact ⟨last, readsItems_iff.mpr (.inr ⟨_, v, after, rest, hnext, hvalue, hitems, rfl⟩),
          hlast⟩
      rw [items] at hcur
      cases first with
      | true => exact hitem nextItem?_first (hcur.blank (l.line_blank depth))
      | false =>
          have hcomma := hcur.skip (by decide)
          exact hitem (nextItem?_comma hcomma)
            ((@before_of_rest (cur.skip.past ',' _) _ rfl).blank (l.line_blank depth))

theorem reads_fields (l : Layout) {n : Nat} : ∀ (fs : List (String × Value)) {depth : Nat}
    {first : Bool} {gap tail : List Char} {cur : Cursor}, (∀ f ∈ fs, f.2.Fits Number.Survives n) →
    Blank gap → cur.Before (l.fields depth first fs (gap ++ '\x7d' :: tail)) →
    ∃ after, ReadsFields n first cur fs after ∧ after.rest = tail
  | [], _, first, _, tail, cur, _, hgap, hcur => by
      rw [fields] at hcur
      have hat := (hcur.blank hgap).skip (by decide)
      have hnext : nextKey? first cur = .ok none := by simp [nextKey?, hat]
      exact ⟨_, readsFields_iff.mpr (.inl ⟨hnext, rfl, rfl⟩), step_of_mark hat⟩
  | (key, v) :: rest, depth, first, gap, tail, cur, hfits, hgap, hcur => by
      obtain ⟨hv, hrest⟩ := List.forall_mem_cons.mp hfits
      have htail : EndsNumber (l.fields depth false rest (gap ++ '\x7d' :: tail)) :=
        l.endsNumber_fields (endsNumber_blank hgap (endsNumber_mark (.inr (.inr rfl)) _)) rest
      -- A field is read alike whether or not a comma stands in front of it.
      have hfield {start : Cursor} (hnext : ∀ rest, start.skip.rest = '"' :: rest →
            nextKey? first cur = .ok (some (start.skip.past '"' rest)))
          (hstart : start.Before (quoted key ++ ':' :: (l.space ++
            l.value depth v (l.fields depth false rest (gap ++ '\x7d' :: tail))))) :
          ∃ after, ReadsFields n first cur ((key, v) :: rest) after ∧ after.rest = tail := by
        obtain ⟨more, colon, hquote, hkey, hcolon⟩ := readText_append hstart
        have hreadColon := readColon_of_rest hcolon
        obtain ⟨after, hvalue, hafter⟩ := reads_value l v hv htail
          ((@before_of_rest (colon.skip.past ':' _) _ rfl).blank l.space_blank)
        obtain ⟨last, hfields, hlast⟩ := reads_fields l rest hrest hgap hafter
        exact ⟨last, readsFields_iff.mpr (.inr ⟨_, key, colon, _, v, after, rest, hnext more hquote,
          hkey, hreadColon, hvalue, hfields, rfl⟩), hlast⟩
      rw [fields] at hcur
      cases first with
      | true =>
          refine hfield (fun more hquote => ?_) (hcur.blank (l.line_blank depth))
          simp [nextKey?, hquote]
      | false =>
          have hcomma := hcur.skip (by decide)
          refine hfield (fun more hquote => ?_)
            ((@before_of_rest (cur.skip.past ',' _) _ rfl).blank (l.line_blank depth))
          simp [nextKey?, hcomma, hquote]

end

end Layout

/-! Texts of values are read back. -/

theorem parseRaw_layout (l : Layout) (h : v.Fits Number.Survives depthLimit) :
    parseRaw (String.ofList (l.value 0 v [])) = .ok v := by
  have hend : EndsNumber [] := fun _ _ h => (nomatch h)
  have hbegin : (ofText (String.ofList (l.value 0 v []))).Before (l.value 0 v []) :=
    before_of_rest String.toList_ofList
  obtain ⟨after, hread, hafter⟩ := l.reads_value v h hend hbegin
  exact parseRaw_eq_ok.mpr ⟨after, hread, hafter⟩

theorem parseRaw_compact (h : v.Fits Number.Survives depthLimit) : parseRaw v.compact = .ok v := by
  rw [Value.compact, ← Layout.value_compact 0]
  exact parseRaw_layout _ h

theorem parseRaw_pretty (h : v.Fits Number.Survives depthLimit) : parseRaw v.pretty = .ok v := by
  rw [Value.pretty, ← Layout.value_pretty]
  exact parseRaw_layout _ h

end Json
end PullFlow
