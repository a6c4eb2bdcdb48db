import PullFlow.Proofs.Json.Tidy
import PullFlow.Proofs.PureChains

/-!
The operators that write a payload as JSON text and read it back. Behind each other in a chain they
hand every payload down as it came, as long as its numbers are integers of a word and it nests no
deeper than a text may; null passes through both as it is.
-/

namespace PullFlow

open Operator (Pure)

namespace Value

mutual

/-- Every object in a value has its fields in the order of their keys, each key once. -/
def Ordered : Value → Prop
  | .list items => ItemsOrdered items
  | .object fields => (Fields.keys fields).Pairwise (· < ·) ∧ FieldsOrdered fields
  | _ => True

def ItemsOrdered : List Value → Prop
  | [] => True
  | v :: rest => Ordered v ∧ ItemsOrdered rest

def FieldsOrdered : List (String × Value) → Prop
  | [] => True
  | (_, v) :: rest => Ordered v ∧ FieldsOrdered rest

end

mutual

theorem tidy_of_ordered : ∀ v : Value, v.Ordered → v.tidy = v
  | .list items, h => by rw [tidy, tidyItems_of_ordered items h]
  | .object fields, h => by
      obtain ⟨hkeys, hfields⟩ := h
      rw [tidy, tidyFields_of_ordered fields hfields, Fields.ofList_of_sorted hkeys]
  | .null, _ | .bool _, _ | .number _, _ | .text _, _ => rfl

theorem tidyItems_of_ordered : ∀ items, ItemsOrdered items → tidyItems items = items
  | [], _ => rfl
  | v :: rest, h => by rw [tidyItems, tidy_of_ordered v h.1, tidyItems_of_ordered rest h.2]

theorem tidyFields_of_ordered : ∀ fields, FieldsOrdered fields → tidyFields fields = fields
  | [], _ => rfl
  | (_, v) :: rest, h => by rw [tidyFields, tidy_of_ordered v h.1, tidyFields_of_ordered rest h.2]

end

/-- A payload that a text holds as it is: its numbers are integers of a word, with or without sign,
and it nests less deep than a text may. -/
structure Portable (v : Value) : Prop where
  ordered : v.Ordered
  integers : ∀ n ∈ v.numbers, ∃ i : Int, n = .int i ∧ -2 ^ 63 ≤ i ∧ i < 2 ^ 64
  nests : v.Nests Json.depthLimit

theorem Portable.fits {v : Value} (h : v.Portable) : v.Fits Number.Survives Json.depthLimit := by
  refine ⟨h.nests, fun n hn => ?_⟩
  obtain ⟨i, rfl, hlow, hhigh⟩ := h.integers n hn
  exact Json.survives_int ⟨hlow, hhigh⟩

end Value

/-- A text that is read as a payload, which is in order, gives that payload. -/
theorem Operator.Pure.readJson_of_parseRaw {v : Value} {s : String} (hv : v.Ordered)
    (h : Json.parseRaw s = .ok v) : readJson s = .ok v := by
  rw [readJson, Json.parse, h, Except.map, Value.tidy_of_ordered v hv]

/-- What was written is read back. -/
theorem Operator.Pure.fromJson_toJson {v : Value} (h : v.Portable) (pretty : Bool) :
    ((toJson pretty).apply v).bind fromJson.apply = .ok v := by
  have hread : readJson (if pretty then v.pretty else v.compact) = .ok v := by
    cases pretty with
    | true => exact readJson_of_parseRaw h.ordered (Json.parseRaw_pretty h.fits)
    | false => exact readJson_of_parseRaw h.ordered (Json.parseRaw_compact h.fits)
  cases v with
  | null => rfl
  | bool _ | number _ | text _ | list _ | object _ => exact hread

namespace Chain

theorem through_toJson_fromJson {v : Value} (h : v.Portable) (pretty : Bool)
    (writer reader : String) :
    through [(writer, .toJson pretty), (reader, .fromJson)] (.ok v) = .ok v := by
  have hpayload := Pure.fromJson_toJson h pretty
  simp only [through, List.foldl_cons, List.foldl_nil]
  cases hw : (Pure.toJson pretty).apply v with
  | error e =>
      rw [hw] at hpayload
      cases hpayload
  | ok w =>
      rw [hw] at hpayload
      have hread : Pure.fromJson.apply w = .ok v := hpayload
      simp only [labelled, Except.bind, Except.mapError, hw, hread]

/-- A payload that a text can hold is what reading makes of writing it, compactly or not. In a
chain with the two operators it comes through as it is, whatever else the source gives, and every
read ends. -/
theorem written_and_read_back {source : Source} {writer reader : Operator} {pretty : Bool}
    {given results : List Outcome} {c : Chain} (hwriter : writer.body = .apply (.toJson pretty))
    (hreader : reader.body = .apply .fromJson)
    (hreads : Reads (make source [writer, reader]).link given results c) :
    (∀ v : Value, v.Portable →
      ((Pure.toJson pretty).apply v).bind Pure.fromJson.apply = .ok v) ∧
      results.length = given.length ∧
      (∀ (n : ℕ) (v : Value), v.Portable → given[n]? = some (.ok v) → results[n]? = some (.ok v)) ∧
      ∀ beats, ¬ Endless c beats := by
  have happlies : List.Forall₂ Applies [(writer.kind, .toJson pretty), (reader.kind, .fromJson)]
      [writer, reader] := .cons ⟨rfl, hwriter⟩ (.cons ⟨rfl, hreader⟩ .nil)
  obtain ⟨_, _, hresults⟩ := hreads.piped happlies
  refine ⟨fun v hv => Pure.fromJson_toJson hv pretty, ?_, fun n v hv hn => ?_,
    fun beats => hreads.not_endless happlies⟩
  · rw [hresults, List.length_map]
  · rw [hresults, List.getElem?_map, hn, Option.map_some, through_toJson_fromJson hv]

/-- A payload with a key, an escape and a negative integer. -/
def noted : Value := .object [("a", .list [.text "\"", .number (.int (-1))])]

theorem portable_noted : noted.Portable where
  ordered := by simp [noted, Value.Ordered, Value.FieldsOrdered, Value.ItemsOrdered, Fields.keys]
  integers := by
    intro n hn
    obtain rfl : n = .int (-1) := by
      simpa [noted, Value.numbers, Value.numbersOfFields, Value.numbersOfItems] using hn
    exact ⟨-1, rfl, by decide, by decide⟩
  nests := by simp [noted, Value.Nests, Value.FieldsNest, Value.ItemsNest, Json.depthLimit]

/-- One payload, written and read back. -/
def echoing (v : Value) (pretty : Bool) : Chain :=
  (make (.make "const" (.constant v) ⟨[], []⟩)
    [.make "tojson" (.apply (.toJson pretty)) ⟨[], []⟩,
      .make "fromjson" (.apply .fromJson) ⟨[], []⟩]).link

theorem noted_comes_through :
    noted.Portable ∧ ∃ c, Reads (echoing noted true) [.ok noted] [.ok noted] c := by
  let beats := beatAt (echoing noted true) (.ok .null)
  have hreading : Reading (echoing noted true) (logOf beats 5) (beats 5).before (beats 5).point :=
    reading_beatAt rfl (by decide +kernel)
  obtain ⟨out, hdone⟩ : ∃ out, (beats 5).move = .done out := ⟨_, rfl⟩
  have hreads : Reads (echoing noted true) [.ok noted] [out] (beats 5).after :=
    Reads.none.read hreading hdone
  have hback : some out = some (.ok noted) :=
    (written_and_read_back rfl rfl hreads).2.2.1 0 noted portable_noted rfl
  rw [Option.some.inj hback] at hreads
  exact ⟨portable_noted, _, hreads⟩

end Chain
end PullFlow
