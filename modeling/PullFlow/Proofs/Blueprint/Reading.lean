import PullFlow.Blueprint.Text
import PullFlow.Proofs.Json.Layout

/-!
A document is read field by field while its text is read. It is the same document as that of the
whole value in the text: each reader gives what a function makes of the value it has read, and fails
where that function gives nothing. So a text holds a document exactly if it holds a value that
describes the document.
-/

namespace PullFlow.Blueprint

open Json Cursor

variable {α σ : Type} {cur cur' : Cursor} {depth : Nat}

/-- A reader gives what a function makes of the value at the cursor. -/
def ReadsAs (depth : Nat) (read : Cursor → Except Stop (α × Cursor)) (f : Value → Option α) :
    Prop :=
  ∀ ⦃cur a cur'⦄, read cur = .ok (a, cur') ↔ ∃ v, Reads depth cur v cur' ∧ f v = some a

/-! Leaving lists and objects. -/

theorem leaving_eq_ok {leave : Cursor → Except Stop Unit × Cursor} {r : Except Stop (α × Cursor)}
    {a : α} : leaving leave r = .ok (a, cur') ↔ ∃ stop, r = .ok (a, stop) ∧
      leave stop = (.ok (), cur') := by
  cases r with
  | error stop => cases stop <;> simp [leaving]
  | ok done =>
      obtain ⟨b, stop⟩ := done
      cases hleave : leave stop with
      | mk result after =>
          constructor
          · intro h
            cases result with
            | error e => simp [leaving, hleave] at h
            | ok u =>
                obtain ⟨rfl, rfl⟩ : b = a ∧ after = cur' := by simpa [leaving, hleave] using h
                exact ⟨stop, rfl, hleave⟩
          · rintro ⟨_, hread, hleft⟩
            cases hread
            rw [leaving, hleft]

theorem nextItem?_eq_none {first : Bool} : nextItem? first cur = .ok none ↔
    ∃ rest, cur.skip.rest = ']' :: rest :=
  ⟨nextItem?_none, fun ⟨_, hat⟩ => by simp [nextItem?, hat]⟩

theorem nextKey?_eq_none {first : Bool} : nextKey? first cur = .ok none ↔
    ∃ rest, cur.skip.rest = '\x7d' :: rest :=
  ⟨nextKey?_none, fun ⟨_, hat⟩ => by simp [nextKey?, hat]⟩

/-- A list is left where it has no other item. -/
theorem leaveList_eq_ok {first : Bool} : leaveList cur = (.ok (), cur') ↔
    nextItem? first cur = .ok none ∧ cur' = cur.skip.step := by
  rw [nextItem?_eq_none, leaveList, Cursor.step]
  dsimp only
  split
  · next hat => simp [hat, refuse]
  · next hat => simp [hat, eq_comm]
  · next rest hat =>
    split <;> simp [hat, refuse]
  · next hend _ =>
    constructor
    · intro h
      simp [refuse] at h
    · rintro ⟨⟨rest, hat⟩, _⟩
      exact (hend rest hat).elim

theorem leaveList_skip : leaveList cur.skip = leaveList cur := by
  simp only [leaveList, skip_skip]

theorem leaveObject_skip : leaveObject cur.skip = leaveObject cur := by
  simp only [leaveObject, skip_skip]

theorem leaveObject_eq_ok {first : Bool} : leaveObject cur = (.ok (), cur') ↔
    nextKey? first cur = .ok none ∧ cur' = cur.skip.step := by
  rw [nextKey?_eq_none, leaveObject, Cursor.step]
  split
  · next hat => simp [hat, refuse]
  · next hat => simp [hat, eq_comm]
  · next hat => simp [hat, refuse]
  · next hend _ =>
    constructor
    · intro h
      simp [refuse] at h
    · rintro ⟨⟨rest, hat⟩, _⟩
      exact (hend rest hat).elim

/-! Names, components and links. -/

theorem wrongSort_ne_ok {expected : String} {a : α} : wrongSort expected cur ≠ .ok a := by
  unfold wrongSort
  split
  · simp [reject]
  · simp [reject]
  · split <;> simp [reject, refuse]

theorem readWord_cons {c : Char} {rest letters : List Char} (hat : cur.rest = c :: rest) :
    readWord cur (c :: letters) = readWord (cur.past c rest) letters := by
  rw [readWord, hat]
  exact if_pos rfl

theorem readsAs_name : ReadsAs depth readName nameOf? := by
  intro cur s cur'
  constructor
  · intro h
    unfold readName at h
    dsimp only at h
    split at h
    · next rest hat =>
      obtain ⟨_, hword, ⟨⟩⟩ := bind_eq_ok.mp h
      rw [readWord_cons hat] at hword
      exact ⟨.null, reads_iff.mpr (.null hat hword), rfl⟩
    · next rest hat =>
      obtain ⟨⟨s, _⟩, htext, ⟨⟩⟩ := bind_eq_ok.mp h
      exact ⟨.text s, reads_iff.mpr (.text hat htext), rfl⟩
    · cases h
    · exact absurd h wrongSort_ne_ok
  · rintro ⟨v, hread, hname⟩
    unfold readName
    cases reads_iff.mp hread with
    | null hat hword =>
        cases hname
        simp [hat, readWord_cons hat, hword, bind, Except.bind, pure, Except.pure]
    | text hat htext =>
        cases hname
        simp [hat, htext, bind, Except.bind, pure, Except.pure]
    | yes | no | negative | number | list | object => cases hname

/-- Null for no component, or the component a value describes. -/
def partOf? : Value → Option (Option Part)
  | .null => some none
  | v => (Part.ofValue? v).map some

theorem partOf?_of_ne_null {v : Value} (h : v ≠ .null) :
    partOf? v = (Part.ofValue? v).map some := by
  cases v with
  | null => exact absurd rfl h
  | _ => rfl

/-- Null and nothing else begins with its first letter. -/
theorem reads_of_n {rest : List Char} {v : Value} (hat : cur.skip.rest = 'n' :: rest) :
    Reads depth cur v cur' ↔ v = .null ∧ readWord cur.skip ['n', 'u', 'l', 'l'] = .ok cur' := by
  rw [readWord_cons hat]
  constructor
  · intro h
    cases reads_iff.mp h with
    | null hat' hword =>
        obtain rfl := (List.cons.inj (hat.symm.trans hat')).2
        exact ⟨rfl, hword⟩
    | yes hat' | no hat' | negative hat' | text hat' | list hat' | object hat' =>
        exact absurd (List.cons.inj (hat.symm.trans hat')).1 (by decide)
    | number hat' hdigit =>
        obtain ⟨rfl, _⟩ := List.cons.inj (hat.symm.trans hat')
        exact absurd hdigit (by decide)
  · rintro ⟨rfl, hword⟩
    exact reads_iff.mpr (.null hat hword)

theorem ne_null_of_reads {v : Value} (hother : ∀ rest, cur.skip.rest ≠ 'n' :: rest)
    (h : Reads depth cur v cur') : v ≠ .null := by
  rintro rfl
  cases reads_iff.mp h with
  | null hat => exact hother _ hat

theorem readsAs_part : ReadsAs depth (readPart depth) partOf? := by
  intro cur part cur'
  unfold readPart
  dsimp only
  split
  · next rest hat =>
    simp only [reads_of_n hat]
    constructor
    · intro h
      obtain ⟨_, hword, ⟨⟩⟩ := bind_eq_ok.mp h
      exact ⟨.null, ⟨rfl, hword⟩, rfl⟩
    · rintro ⟨_, ⟨rfl, hword⟩, ⟨⟩⟩
      simp [hword, bind, Except.bind, pure, Except.pure]
  · next hother =>
    have hfuel : 2 * cur.skip.left + 1 ≤ 2 * cur.skip.rest.length + 2 := Nat.le_succ _
    constructor
    · intro h
      obtain ⟨⟨v, after⟩, hread, h⟩ := bind_eq_ok.mp h
      have hread : Reads depth cur v after := reads_skip.mp ⟨_, hread⟩
      dsimp only at h
      split at h
      · next hpart =>
        cases h
        refine ⟨v, hread, ?_⟩
        rw [partOf?_of_ne_null (ne_null_of_reads hother hread), hpart]
        rfl
      · cases h
    · rintro ⟨v, hread, hpart⟩
      rw [partOf?_of_ne_null (ne_null_of_reads hother hread)] at hpart
      obtain ⟨p, hp, rfl⟩ := Option.map_eq_some_iff.mp hpart
      refine bind_eq_ok.mpr ⟨_, (reads_iff_fuel hfuel).mp (reads_skip.mpr hread), ?_⟩
      simp only [hp]
      rfl

theorem readsAs_link : ReadsAs depth (readLink depth) Link.ofValue? := by
  intro cur link cur'
  have hfuel : 2 * cur.left + 1 ≤ 2 * cur.rest.length + 2 := Nat.le_succ _
  unfold readLink
  constructor
  · intro h
    obtain ⟨⟨v, after⟩, hread, h⟩ := bind_eq_ok.mp h
    dsimp only at h
    split at h
    · next hlink =>
      cases h
      exact ⟨v, ⟨_, hread⟩, hlink⟩
    · cases h
  · rintro ⟨v, hread, hlink⟩
    refine bind_eq_ok.mpr ⟨_, (reads_iff_fuel hfuel).mp hread, ?_⟩
    simp only [hlink]
    rfl

/-! Lists. -/

theorem atValue_eq_ok : atValue cur = .ok cur' ↔ cur' = cur.skip ∧ cur.skip.rest ≠ [] := by
  unfold atValue
  dsimp only
  split
  · next hrest => simp [hrest, refuse]
  · next hrest =>
    constructor
    · rintro ⟨⟩
      exact ⟨rfl, hrest⟩
    · rintro ⟨rfl, _⟩
      rfl

/-- The items of a list, as what a function makes of them. -/
def listOf? (f : Value → Option α) : Value → Option (List α)
  | .list items => items.mapM f
  | _ => none

theorem readEach_iff {item : Cursor → Except Stop (α × Cursor)} {f : Value → Option α}
    (hitem : ReadsAs depth item f) {fuel : Nat} {first : Bool} {items : List α}
    (hfuel : cur.left < fuel) :
    (∃ stop, readEach item fuel first cur = .ok (items, stop) ∧ leaveList stop = (.ok (), cur')) ↔
      ∃ vs, ReadsItems depth first cur vs cur' ∧ vs.mapM f = some items := by
  induction fuel generalizing cur first items with
  | zero => exact absurd hfuel (Nat.not_lt_zero _)
  | succ fuel ih =>
      constructor
      · rintro ⟨stop, h, hleave⟩
        rw [readEach] at h
        obtain ⟨next, hnext, h⟩ := bind_eq_ok.mp h
        cases next with
        | none =>
            cases h
            rw [leaveList_skip, @leaveList_eq_ok _ _ first] at hleave
            exact ⟨[], readsItems_iff.mpr (.inl ⟨hnext, rfl, hleave.2⟩), rfl⟩
        | some begin =>
            obtain ⟨⟨a, after⟩, ha, h⟩ := bind_eq_ok.mp h
            obtain ⟨⟨rest, _⟩, hrest, ⟨⟩⟩ := bind_eq_ok.mp h
            obtain ⟨v, hv, hf⟩ := hitem.mp ha
            have hbegin := nextItem?_some hnext
            have hafter := hv.left
            obtain ⟨vs, hvs, hmap⟩ := (ih (by omega)).mp ⟨_, hrest, hleave⟩
            exact ⟨v :: vs, readsItems_iff.mpr (.inr ⟨begin, v, after, vs, hnext, hv, hvs, rfl⟩), by
              simp [hf, hmap]⟩
      · rintro ⟨vs, hread, hmap⟩
        rw [readEach]
        obtain ⟨hnext, rfl, hstop⟩ | ⟨begin, v, after, rest, hnext, hv, hrest, rfl⟩ :=
          readsItems_iff.mp hread
        · cases hmap
          refine ⟨cur.skip, ?_, by rw [leaveList_skip]; exact leaveList_eq_ok.mpr ⟨hnext, hstop⟩⟩
          simp [hnext, bind, Except.bind, pure, Except.pure]
        · obtain ⟨a, ha, more, hmore, rfl⟩ : ∃ a, f v = some a ∧ ∃ more, rest.mapM f = some more ∧
              a :: more = items := by simpa [Option.bind_eq_some_iff] using hmap
          have hbegin := nextItem?_some hnext
          have hafter := hv.left
          obtain ⟨stop, hrest, hleave⟩ := (ih (by omega)).mpr ⟨rest, hrest, hmore⟩
          refine ⟨stop, ?_, hleave⟩
          simp [hnext, hitem.mpr ⟨v, hv, ha⟩, hrest, bind, Except.bind, pure, Except.pure]

theorem readsAs_list {item : Nat → Cursor → Except Stop (α × Cursor)} {f : Value → Option α}
    (hitem : ∀ depth, ReadsAs depth (item depth) f) :
    ReadsAs depth (readList depth item) (listOf? f) := by
  intro cur items cur'
  unfold readList
  constructor
  · intro h
    obtain ⟨_, hat, h⟩ := bind_eq_ok.mp h
    obtain rfl := atValue_eq_ok.mp hat |>.1
    split at h
    · next rest hopen =>
      obtain ⟨inner, henter, h⟩ := bind_eq_ok.mp h
      obtain ⟨hdepth, rfl⟩ := enter_eq_ok.mp henter
      have hfuel : (cur.skip.past '[' rest).left < 2 * rest.length + 2 := by
        change rest.length < _
        omega
      obtain ⟨vs, hvs, hmap⟩ := (readEach_iff (hitem _) hfuel).mp (leaving_eq_ok.mp h)
      exact ⟨.list vs, reads_iff.mpr (.list hopen hdepth hvs), hmap⟩
    · exact absurd h wrongSort_ne_ok
  · rintro ⟨v, hread, hmap⟩
    cases reads_iff.mp hread with
    | @list rest vs _ hopen hdepth hvs =>
        have hfuel : (cur.skip.past '[' rest).left < 2 * rest.length + 2 := by
          change rest.length < _
          omega
        refine bind_eq_ok.mpr ⟨cur.skip, atValue_eq_ok.mpr ⟨rfl, by simp [hopen]⟩, ?_⟩
        simp only [hopen]
        refine bind_eq_ok.mpr ⟨_, enter_eq_ok.mpr ⟨hdepth, rfl⟩, ?_⟩
        exact leaving_eq_ok.mpr ((readEach_iff (hitem _) hfuel).mpr ⟨vs, hvs, hmap⟩)
    | null | yes | no | negative | number | text | object => cases hmap

/-- The fields of an object, tidied. -/
def globalsOf? : Value → Option (List (String × Value))
  | .object fields => some (Fields.ofList (fields.map fun f => (f.1, f.2.tidy)))
  | _ => none

theorem readsAs_globals : ReadsAs depth (readGlobals depth) globalsOf? := by
  intro cur globals cur'
  unfold readGlobals
  have hfuel (rest : List Char) : 2 * (cur.skip.past '\x7b' rest).left + 2 ≤ 2 * rest.length + 2 :=
    Nat.le_refl _
  constructor
  · intro h
    obtain ⟨_, hat, h⟩ := bind_eq_ok.mp h
    obtain rfl := atValue_eq_ok.mp hat |>.1
    split at h
    · next rest hopen =>
      obtain ⟨inner, henter, h⟩ := bind_eq_ok.mp h
      obtain ⟨hdepth, rfl⟩ := enter_eq_ok.mp henter
      obtain ⟨⟨fs, _⟩, hfs, ⟨⟩⟩ := bind_eq_ok.mp h
      exact ⟨.object fs, reads_iff.mpr (.object hopen hdepth ⟨_, hfs⟩), rfl⟩
    · exact absurd h wrongSort_ne_ok
  · rintro ⟨v, hread, hglobals⟩
    cases reads_iff.mp hread with
    | @object rest fs _ hopen hdepth hfs =>
        cases hglobals
        refine bind_eq_ok.mpr ⟨cur.skip, atValue_eq_ok.mpr ⟨rfl, by simp [hopen]⟩, ?_⟩
        simp only [hopen]
        refine bind_eq_ok.mpr ⟨_, enter_eq_ok.mpr ⟨hdepth, rfl⟩, ?_⟩
        exact bind_eq_ok.mpr ⟨_, (readsFields_iff_fuel (hfuel rest)).mp hfs, rfl⟩
    | null | yes | no | negative | number | text | list => cases hglobals

/-! Structures. -/

/-- What the fields of a structure mean. -/
abbrev Meaning (σ : Type) := String → σ → Value → Option σ

/-- A field that is known and was not given before is taken. -/
def RecordShape.take? (shape : RecordShape σ) (meaning : Meaning σ) (done : σ)
    (f : String × Value) :
    Option σ :=
  if f.1 ∈ shape.fields ∧ shape.seen f.1 done = false then meaning f.1 done f.2 else none

/-- What an object of fields or a list of fields in their order is as a structure. -/
def RecordShape.ofValue? (shape : RecordShape σ) (meaning : Meaning σ) (blank : σ)
    (ofObject ofList : σ → Option α) : Value → Option α
  | .object fields => (fields.foldlM (shape.take? meaning) blank).bind ofObject
  | .list items =>
      if items.length ≤ shape.fields.length then
        ((shape.fields.zip items).foldlM (fun done f => meaning f.1 done f.2) blank).bind ofList
      else none
  | _ => none

/-- The readers of the fields give what the fields mean. -/
def RecordShape.Means (shape : RecordShape σ) (meaning : Meaning σ) : Prop :=
  ∀ {key}, key ∈ shape.fields → ∀ depth done,
    ReadsAs depth (shape.read depth key done) (meaning key done)

section Record

variable {shape : RecordShape σ} {meaning : Meaning σ} {first : Bool} {done last : σ}

theorem RecordShape.admit_eq_ok {key : String} : shape.admit key done cur = .ok () ↔
    key ∈ shape.fields ∧ shape.seen key done = false := by
  unfold RecordShape.admit
  split
  · next hknown => simp at hknown; simp [hknown]
  · next hknown =>
    split
    · next hseen => simp [hseen]
    · next hseen => simp at hknown hseen; simp [hknown, hseen]

theorem RecordShape.take?_eq_some {f : String × Value} : shape.take? meaning done f = some last ↔
    f.1 ∈ shape.fields ∧ shape.seen f.1 done = false ∧ meaning f.1 done f.2 = some last := by
  simp [RecordShape.take?, and_assoc]

theorem RecordShape.readFields_iff (hmeans : shape.Means meaning) {fuel : Nat}
    (hfuel : cur.left < fuel) :
    (∃ stop, shape.readFields depth fuel first done cur = .ok (last, stop) ∧
      leaveObject stop = (.ok (), cur')) ↔
      ∃ fs, ReadsFields depth first cur fs cur' ∧
        fs.foldlM (shape.take? meaning) done = some last := by
  induction fuel generalizing cur first done with
  | zero => exact absurd hfuel (Nat.not_lt_zero _)
  | succ fuel ih =>
      constructor
      · rintro ⟨stop, h, hleave⟩
        rw [RecordShape.readFields] at h
        obtain ⟨next, hnext, h⟩ := bind_eq_ok.mp h
        cases next with
        | none =>
            cases h
            rw [leaveObject_skip, @leaveObject_eq_ok _ _ first] at hleave
            exact ⟨[], readsFields_iff.mpr (.inl ⟨hnext, rfl, hleave.2⟩), rfl⟩
        | some begin =>
            obtain ⟨⟨key, colon⟩, hkey, h⟩ := bind_eq_ok.mp h
            obtain ⟨_, hadmit, h⟩ := bind_eq_ok.mp h
            obtain ⟨value, hcolon, h⟩ := bind_eq_ok.mp h
            obtain ⟨⟨done', after⟩, hfield, h⟩ := bind_eq_ok.mp h
            obtain ⟨hknown, hseen⟩ := RecordShape.admit_eq_ok.mp hadmit
            obtain ⟨v, hv, hmeaning⟩ := (hmeans hknown depth done).mp hfield
            have hbegin := nextKey?_some hnext
            have htext := left_readText hkey
            have hvalue := left_readColon hcolon
            have hafter := hv.left
            obtain ⟨fs, hfs, hfold⟩ := (ih (by omega)).mp ⟨stop, h, hleave⟩
            refine ⟨(key, v) :: fs, readsFields_iff.mpr (.inr ⟨begin, key, colon, value, v, after,
              fs, hnext, hkey, hcolon, hv, hfs, rfl⟩), ?_⟩
            rw [List.foldlM_cons, shape.take?_eq_some.mpr ⟨hknown, hseen, hmeaning⟩]
            exact hfold
      · rintro ⟨fs, hread, hfold⟩
        rw [RecordShape.readFields]
        obtain ⟨hnext, rfl, hstop⟩ | ⟨begin, key, colon, value, v, after, rest, hnext, hkey, hcolon,
          hv, hrest, rfl⟩ := readsFields_iff.mp hread
        · cases hfold
          have hleave := leaveObject_eq_ok.mpr ⟨hnext, hstop⟩
          refine ⟨cur.skip, ?_, by rwa [leaveObject_skip]⟩
          simp [hnext, bind, Except.bind, pure, Except.pure]
        · rw [List.foldlM_cons] at hfold
          obtain ⟨done', htake, hfold⟩ := Option.bind_eq_some_iff.mp hfold
          obtain ⟨hknown, hseen, hmeaning⟩ := shape.take?_eq_some.mp htake
          have hbegin := nextKey?_some hnext
          have htext := left_readText hkey
          have hvalue := left_readColon hcolon
          have hafter := hv.left
          obtain ⟨stop, hrest, hleave⟩ := (ih (by omega)).mpr ⟨rest, hrest, hfold⟩
          have hfield := (hmeans hknown depth done).mpr ⟨v, hv, hmeaning⟩
          have hadmit : shape.admit key done colon = .ok () :=
            RecordShape.admit_eq_ok.mpr ⟨hknown, hseen⟩
          refine ⟨stop, ?_, hleave⟩
          simp [hnext, hkey, hadmit, hcolon, hfield, hrest, bind, Except.bind]

theorem RecordShape.readInOrder_iff (hmeans : shape.Means meaning) {keys : List String}
    (hkeys : ∀ key ∈ keys, key ∈ shape.fields) :
    (∃ stop, shape.readInOrder depth keys first done cur = .ok (last, stop) ∧
      leaveList stop = (.ok (), cur')) ↔
      ∃ vs, ReadsItems depth first cur vs cur' ∧ vs.length ≤ keys.length ∧
        (keys.zip vs).foldlM (fun done f => meaning f.1 done f.2) done = some last := by
  induction keys generalizing cur first done with
  | nil =>
      simp only [RecordShape.readInOrder]
      constructor
      · rintro ⟨_, ⟨⟩, hleave⟩
        obtain ⟨hnext, hstop⟩ := (@leaveList_eq_ok _ _ first).mp hleave
        exact ⟨[], readsItems_iff.mpr (.inl ⟨hnext, rfl, hstop⟩), Nat.le_refl _, rfl⟩
      · rintro ⟨vs, hread, hlength, hfold⟩
        cases hfold
        obtain ⟨hnext, rfl, hstop⟩ | ⟨_, v, _, rest, _, _, _, rfl⟩ := readsItems_iff.mp hread
        · exact ⟨cur, rfl, leaveList_eq_ok.mpr ⟨hnext, hstop⟩⟩
        · exact absurd hlength (Nat.not_succ_le_zero _)
  | cons key keys ih =>
      obtain ⟨hkey, hkeys⟩ := List.forall_mem_cons.mp hkeys
      constructor
      · rintro ⟨stop, h, hleave⟩
        rw [RecordShape.readInOrder] at h
        obtain ⟨next, hnext, h⟩ := bind_eq_ok.mp h
        cases next with
        | none =>
            cases h
            rw [leaveList_skip, @leaveList_eq_ok _ _ first] at hleave
            exact ⟨[], readsItems_iff.mpr (.inl ⟨hnext, rfl, hleave.2⟩), Nat.zero_le _, rfl⟩
        | some begin =>
            obtain ⟨⟨done', after⟩, hfield, h⟩ := bind_eq_ok.mp h
            obtain ⟨v, hv, hmeaning⟩ := (hmeans hkey depth done).mp hfield
            obtain ⟨vs, hvs, hlength, hfold⟩ := (ih hkeys).mp ⟨stop, h, hleave⟩
            refine ⟨v :: vs, readsItems_iff.mpr (.inr ⟨begin, v, after, vs, hnext, hv, hvs, rfl⟩),
              Nat.succ_le_succ hlength, ?_⟩
            rw [List.zip_cons_cons, List.foldlM_cons, hmeaning]
            exact hfold
      · rintro ⟨vs, hread, hlength, hfold⟩
        rw [RecordShape.readInOrder]
        obtain ⟨hnext, rfl, hstop⟩ | ⟨begin, v, after, rest, hnext, hv, hrest, rfl⟩ :=
          readsItems_iff.mp hread
        · cases hfold
          refine ⟨cur.skip, ?_, by rw [leaveList_skip]; exact leaveList_eq_ok.mpr ⟨hnext, hstop⟩⟩
          simp [hnext, bind, Except.bind, pure, Except.pure]
        · rw [List.zip_cons_cons, List.foldlM_cons] at hfold
          obtain ⟨done', hmeaning, hfold⟩ := Option.bind_eq_some_iff.mp hfold
          obtain ⟨stop, hrest, hleave⟩ :=
            (ih hkeys).mpr ⟨rest, hrest, Nat.le_of_succ_le_succ hlength, hfold⟩
          refine ⟨stop, ?_, hleave⟩
          simp [hnext, (hmeans hkey depth done).mpr ⟨v, hv, hmeaning⟩, hrest, bind, Except.bind]

/-- A structure is finished by what its fields were found to be. -/
theorem finish_eq_ok {finish : σ → Except Fault α} {r : Except Stop (σ × Cursor)} {a : α} :
    (do
      let (done, cur) ← r
      match finish done with
      | .ok a => return (a, cur)
      | .error fault => throw (Stop.floating fault cur)) = Except.ok (a, cur') ↔
      ∃ done, r = .ok (done, cur') ∧ (finish done).toOption = some a := by
  cases r with
  | error stop => simp [bind, Except.bind]
  | ok found =>
      obtain ⟨done, cur⟩ := found
      simp only [bind, Except.bind, Except.ok.injEq, Prod.mk.injEq]
      constructor
      · intro h
        split at h
        · next hfinish =>
          cases h
          exact ⟨done, ⟨rfl, rfl⟩, by rw [hfinish]; rfl⟩
        · cases h
      · rintro ⟨_, ⟨rfl, rfl⟩, hfinish⟩
        cases hdone : finish done with
        | error fault => simp [hdone, Except.toOption] at hfinish
        | ok b =>
            obtain rfl : b = a := by simpa [hdone, Except.toOption] using hfinish
            rfl

theorem RecordShape.readsAs_whole (hmeans : shape.Means meaning) {blank : σ}
    {ofObject ofList : σ → Except Fault α} :
    ReadsAs depth (shape.readWhole blank ofObject ofList depth)
      (shape.ofValue? meaning blank (ofObject · |>.toOption) (ofList · |>.toOption)) := by
  intro cur a cur'
  unfold RecordShape.readWhole
  constructor
  · intro h
    obtain ⟨_, hat, h⟩ := bind_eq_ok.mp h
    obtain rfl := atValue_eq_ok.mp hat |>.1
    dsimp only at h
    split at h
    · next rest hopen =>
      obtain ⟨inner, henter, h⟩ := bind_eq_ok.mp h
      obtain ⟨hdepth, rfl⟩ := enter_eq_ok.mp henter
      obtain ⟨stop, hread, hleave⟩ := leaving_eq_ok.mp h
      obtain ⟨done, hread, hfinish⟩ := finish_eq_ok.mp hread
      have hfuel : (cur.skip.past '\x7b' rest).left < 2 * rest.length + 2 := by
        change rest.length < _
        omega
      obtain ⟨fs, hfs, hfold⟩ := (RecordShape.readFields_iff hmeans hfuel).mp ⟨stop, hread, hleave⟩
      refine ⟨.object fs, reads_iff.mpr (.object hopen hdepth hfs), ?_⟩
      rw [RecordShape.ofValue?, hfold]
      exact hfinish
    · next rest hopen =>
      obtain ⟨inner, henter, h⟩ := bind_eq_ok.mp h
      obtain ⟨hdepth, rfl⟩ := enter_eq_ok.mp henter
      obtain ⟨stop, hread, hleave⟩ := leaving_eq_ok.mp h
      obtain ⟨done, hread, hfinish⟩ := finish_eq_ok.mp hread
      obtain ⟨vs, hvs, hlength, hfold⟩ :=
        (RecordShape.readInOrder_iff hmeans fun _ h => h).mp ⟨stop, hread, hleave⟩
      refine ⟨.list vs, reads_iff.mpr (.list hopen hdepth hvs), ?_⟩
      rw [RecordShape.ofValue?, if_pos hlength, hfold]
      exact hfinish
    · exact absurd h wrongSort_ne_ok
  · rintro ⟨v, hread, hvalue⟩
    have hat {c : Char} {rest : List Char} (hopen : cur.skip.rest = c :: rest) :
        atValue cur = .ok cur.skip := atValue_eq_ok.mpr ⟨rfl, by simp [hopen]⟩
    cases reads_iff.mp hread with
    | @object rest fs _ hopen hdepth hfs =>
        obtain ⟨done, hfold, hfinish⟩ := Option.bind_eq_some_iff.mp hvalue
        have hfuel : (cur.skip.past '\x7b' rest).left < 2 * rest.length + 2 := by
          change rest.length < _
          omega
        obtain ⟨stop, hfields, hleave⟩ :=
          (RecordShape.readFields_iff hmeans hfuel).mpr ⟨fs, hfs, hfold⟩
        refine bind_eq_ok.mpr ⟨cur.skip, hat hopen, ?_⟩
        simp only [hopen]
        refine bind_eq_ok.mpr ⟨_, enter_eq_ok.mpr ⟨hdepth, rfl⟩,
          leaving_eq_ok.mpr ⟨stop, ?_, hleave⟩⟩
        exact finish_eq_ok.mpr ⟨done, hfields, hfinish⟩
    | @list rest vs _ hopen hdepth hvs =>
        rw [RecordShape.ofValue?] at hvalue
        split at hvalue
        · next hlength =>
          obtain ⟨done, hfold, hfinish⟩ := Option.bind_eq_some_iff.mp hvalue
          obtain ⟨stop, hitems, hleave⟩ :=
            (RecordShape.readInOrder_iff hmeans fun _ h => h).mpr ⟨vs, hvs, hlength, hfold⟩
          refine bind_eq_ok.mpr ⟨cur.skip, hat hopen, ?_⟩
          simp only [hopen]
          refine bind_eq_ok.mpr ⟨_, enter_eq_ok.mpr ⟨hdepth, rfl⟩,
          leaving_eq_ok.mpr ⟨stop, ?_, hleave⟩⟩
          exact finish_eq_ok.mpr ⟨done, hitems, hfinish⟩
        · cases hvalue
    | null | yes | no | negative | number | text => cases hvalue

end Record

/-! Flows and documents. -/

/-- What the fields of a flow mean. -/
def FlowFields.meaning : Meaning FlowFields := fun key f v =>
  if key = "name" then (nameOf? v).map fun s => { f with name := some s }
  else if key = "source" then (partOf? v).map fun p => { f with source := some p }
  else if key = "operators" then
    (listOf? Link.ofValue? v).map fun links => { f with operators := some links }
  else if key = "sink" then (partOf? v).map fun p => { f with sink := some p }
  else (partOf? v).map fun p => { f with monitor := some p }

/-- The flow a value describes. -/
def Flow.ofValue? : Value → Option Flow :=
  flowShape.ofValue? FlowFields.meaning {} (fun f => some f.flow) fun f => some f.flow

/-- What the fields of a document mean. -/
def DocumentFields.meaning : Meaning DocumentFields := fun key d v =>
  if key = "flows" then (listOf? Flow.ofValue? v).map fun flows => { d with flows := some flows }
  else (globalsOf? v).map fun globals => { d with globals := some globals }

/-- The document of the fields read, if its flows are there. -/
def DocumentFields.document? (d : DocumentFields) : Option Document :=
  d.flows.map fun flows => ⟨flows, d.globals.getD []⟩

/-- The document a value describes. -/
def Document.ofValue? : Value → Option Document :=
  documentShape.ofValue? DocumentFields.meaning {} DocumentFields.document? DocumentFields.document?

theorem readsAs_map {β : Type} {read : Cursor → Except Stop (α × Cursor)} {f : Value → Option α}
    (h : ReadsAs depth read f) (g : α → β) :
    ReadsAs depth (fun cur => do
      let (a, cur) ← read cur
      return (g a, cur)) fun v => (f v).map g := by
  intro cur b cur'
  constructor
  · intro hread
    obtain ⟨⟨a, after⟩, ha, ⟨⟩⟩ := bind_eq_ok.mp hread
    obtain ⟨v, hv, hf⟩ := h.mp ha
    exact ⟨v, hv, congrArg (Option.map g) hf⟩
  · rintro ⟨v, hv, hf⟩
    obtain ⟨a, ha, rfl⟩ := Option.map_eq_some_iff.mp hf
    exact bind_eq_ok.mpr ⟨(a, cur'), h.mpr ⟨v, hv, ha⟩, rfl⟩

theorem means_flowShape : flowShape.Means FlowFields.meaning := by
  intro key hkey depth f
  have hkey : key = "name" ∨ key = "source" ∨ key = "operators" ∨ key = "sink" ∨
      key = "monitor" := by
    simpa [flowShape] using hkey
  obtain rfl | rfl | rfl | rfl | rfl := hkey
  · exact readsAs_map readsAs_name fun s => { f with name := some s }
  · exact readsAs_map readsAs_part fun p => { f with source := some p }
  · exact readsAs_map (readsAs_list fun _ => readsAs_link)
      fun links => { f with operators := some links }
  · exact readsAs_map readsAs_part fun p => { f with sink := some p }
  · exact readsAs_map readsAs_part fun p => { f with monitor := some p }

theorem readsAs_flow : ReadsAs depth (readFlow depth) Flow.ofValue? :=
  RecordShape.readsAs_whole means_flowShape

theorem means_documentShape : documentShape.Means DocumentFields.meaning := by
  intro key hkey depth d
  have hkey : key = "flows" ∨ key = "globals" := by simpa [documentShape] using hkey
  obtain rfl | rfl := hkey
  · exact readsAs_map (readsAs_list fun _ => readsAs_flow)
      fun flows => { d with flows := some flows }
  · exact readsAs_map readsAs_globals fun globals => { d with globals := some globals }

theorem document_toOption (fault : Fault) (d : DocumentFields) :
    (d.document fault).toOption = d.document? := by
  unfold DocumentFields.document DocumentFields.document?
  cases d.flows <;> rfl

theorem readsAs_document : ReadsAs depth (readDocument depth) Document.ofValue? := by
  intro cur d cur'
  refine (RecordShape.readsAs_whole means_documentShape).trans ?_
  simp only [document_toOption]
  rfl

/-- A text holds a document if it holds a value that describes the document. -/
theorem parse_eq_ok {s : String} {d : Document} : parse s = .ok d ↔
    ∃ v, parseRaw s = .ok v ∧ Document.ofValue? v = some d := by
  have hparse : parse s = .ok d ↔ ∃ cur, readDocument depthLimit (ofText s) = .ok (d, cur) ∧
      cur.skip.rest = [] := by
    unfold parse
    dsimp only
    constructor
    · intro h
      split at h
      · next hresult =>
        cases h
        obtain ⟨⟨_, cur⟩, hread, hrest⟩ := bind_eq_ok.mp hresult
        obtain ⟨_, hend, ⟨⟩⟩ := bind_eq_ok.mp hrest
        exact ⟨cur, hread, readEnd_eq_ok.mp hend⟩
      · cases h
    · rintro ⟨cur, hread, hend⟩
      simp [hread, readEnd_eq_ok.mpr hend, bind, Except.bind, pure, Except.pure]
  simp only [hparse, parseRaw_eq_ok]
  constructor
  · rintro ⟨cur, hread, hend⟩
    obtain ⟨v, hv, hvalue⟩ := readsAs_document.mp hread
    exact ⟨v, ⟨cur, hv, hend⟩, hvalue⟩
  · rintro ⟨v, ⟨cur, hv, hend⟩, hvalue⟩
    exact ⟨cur, readsAs_document.mpr ⟨v, hv, hvalue⟩, hend⟩

end PullFlow.Blueprint
