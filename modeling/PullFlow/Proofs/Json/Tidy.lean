import PullFlow.Proofs.Fields
import PullFlow.Proofs.Json.Layout

/-!
Tidy values: tidying a value twice changes nothing more, and a tidied value nests no deeper and has
no other numbers than the value had. Where no object repeats a key, nothing gets lost.
-/

namespace PullFlow

namespace Value

variable {good : Number → Prop} {depth : Nat}

theorem tidyItems_eq (items : List Value) : tidyItems items = items.map tidy := by
  induction items with
  | nil => rfl
  | cons v rest ih => rw [tidyItems, ih, List.map_cons]

theorem tidyFields_eq (fields : List (String × Value)) :
    tidyFields fields = fields.map fun f => (f.1, f.2.tidy) := by
  induction fields with
  | nil => rfl
  | cons f rest ih => rw [tidyFields, ih, List.map_cons]

mutual

theorem tidy_tidy : ∀ v : Value, v.tidy.tidy = v.tidy
  | .list items => by rw [tidy, tidy, tidyItems_tidyItems items]
  | .object fields => by
      have hsorted := Fields.sorted_ofList (tidyFields fields)
      rw [tidy, tidy, tidyFields_eq (Fields.ofList _), ← Fields.ofList_map, ← tidyFields_eq,
        tidyFields_tidyFields fields, Fields.ofList_of_sorted hsorted]
  | .null | .bool _ | .number _ | .text _ => rfl

theorem tidyItems_tidyItems : ∀ items, tidyItems (tidyItems items) = tidyItems items
  | [] => rfl
  | v :: rest => by rw [tidyItems, tidyItems, tidy_tidy v, tidyItems_tidyItems rest]

theorem tidyFields_tidyFields : ∀ fields, tidyFields (tidyFields fields) = tidyFields fields
  | [] => rfl
  | (key, v) :: rest => by rw [tidyFields, tidyFields, tidy_tidy v, tidyFields_tidyFields rest]

end

mutual

theorem fits_tidy : ∀ (v : Value) {depth : Nat}, v.Fits good depth → v.tidy.Fits good depth
  | .list items, _, h => by
      obtain ⟨hdepth, hitems⟩ := fits_list.mp h
      exact fits_list.mpr ⟨hdepth, fits_tidyItems items hitems⟩
  | .object fields, _, h => by
      obtain ⟨hdepth, hfields⟩ := fits_object.mp h
      exact fits_object.mpr ⟨hdepth, fun f hf =>
        fits_tidyFields fields hfields f (Fields.mem_ofList hf)⟩
  | .null, _, h | .bool _, _, h | .number _, _, h | .text _, _, h => h

theorem fits_tidyItems : ∀ (items : List Value) {depth : Nat}, (∀ v ∈ items, v.Fits good depth) →
    ∀ v ∈ tidyItems items, v.Fits good depth
  | [], _, _ => fun _ h => (nomatch h)
  | v :: rest, _, h => by
      obtain ⟨hv, hrest⟩ := List.forall_mem_cons.mp h
      exact List.forall_mem_cons.mpr ⟨fits_tidy v hv, fits_tidyItems rest hrest⟩

theorem fits_tidyFields : ∀ (fields : List (String × Value)) {depth : Nat},
    (∀ f ∈ fields, f.2.Fits good depth) → ∀ f ∈ tidyFields fields, f.2.Fits good depth
  | [], _, _ => fun _ h => (nomatch h)
  | (_, v) :: rest, _, h => by
      obtain ⟨hv, hrest⟩ := List.forall_mem_cons.mp h
      exact List.forall_mem_cons.mpr ⟨fits_tidy v hv, fits_tidyFields rest hrest⟩

end

/-! Values without repeated keys. -/

mutual

/-- No object in the value repeats a key. -/
def Distinct : Value → Prop
  | .list items => ItemsDistinct items
  | .object fields => (Fields.keys fields).Nodup ∧ FieldsDistinct fields
  | _ => True

def ItemsDistinct : List Value → Prop
  | [] => True
  | v :: rest => Distinct v ∧ ItemsDistinct rest

def FieldsDistinct : List (String × Value) → Prop
  | [] => True
  | (_, v) :: rest => Distinct v ∧ FieldsDistinct rest

end

theorem distinct_list {items : List Value} :
    (Value.list items).Distinct ↔ ∀ v ∈ items, v.Distinct := by
  rw [Distinct]
  induction items with
  | nil => simp [ItemsDistinct]
  | cons v rest ih => simp [ItemsDistinct, ih]

theorem distinct_object {fields : List (String × Value)} :
    (Value.object fields).Distinct ↔
      (Fields.keys fields).Nodup ∧ ∀ f ∈ fields, f.2.Distinct := by
  have hfields : FieldsDistinct fields ↔ ∀ f ∈ fields, f.2.Distinct := by
    induction fields with
    | nil => simp [FieldsDistinct]
    | cons f rest ih => simp [FieldsDistinct, ih]
  rw [Distinct, hfields]

end Value

/-- If distinct keys are written as a single field, it was the only one. -/
theorem Fields.eq_singleton_of_ofList {α : Type} {fields : List (String × α)} {f : String × α}
    (hkeys : (keys fields).Nodup) (h : ofList fields = [f]) : fields = [f] := by
  have hall : ∀ k ∈ keys fields, k = f.1 := by
    intro k hk
    rw [← mem_keys_ofList, h] at hk
    exact List.mem_singleton.mp hk
  have hmem : f ∈ fields := mem_ofList (h ▸ List.mem_singleton_self f)
  cases fields with
  | nil => cases hmem
  | cons first rest =>
      cases rest with
      | nil => rw [List.mem_singleton.mp hmem]
      | cons second rest =>
          have hfirst := hall first.1 List.mem_cons_self
          have hsecond := hall second.1 (List.mem_cons_of_mem _ List.mem_cons_self)
          have hne := (List.pairwise_cons.mp hkeys).1 second.1 List.mem_cons_self
          exact absurd (hfirst.trans hsecond.symm) hne

end PullFlow
