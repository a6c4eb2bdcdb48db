import PullFlow.Value
import Mathlib.Data.List.Induction
import Mathlib.Data.String.Basic

/-!
Fields as a finite map: what is found under a key after a field was written. Nothing is asked of
the order of the fields.
-/

namespace PullFlow.Fields

variable {α : Type}

@[simp] theorem get?_nil (key : String) : get? key ([] : List (String × α)) = none := rfl

theorem get?_cons (key k : String) (a : α) (rest : List (String × α)) :
    get? key ((k, a) :: rest) = if key = k then some a else get? key rest := by
  rw [get?, List.lookup_cons]
  by_cases h : key = k
  · simp [h]
  · simp [get?, h, beq_false_of_ne h]

theorem get?_put (key name : String) (a : α) (fields : List (String × α)) :
    get? key (put name a fields) = if key = name then some a else get? key fields := by
  induction fields with
  | nil => exact get?_cons key name a []
  | cons field rest ih =>
      obtain ⟨k, b⟩ := field
      simp only [put]
      split
      · exact get?_cons key name a ((k, b) :: rest)
      · split
        · next hk =>
          subst hk
          simp only [get?_cons]
          split <;> rfl
        · next hk =>
          simp only [get?_cons, ih]
          by_cases hkey : key = k
          · subst hkey
            simp [Ne.symm hk]
          · simp [hkey]

theorem mem_of_get? {key : String} {a : α} {fields : List (String × α)}
    (h : get? key fields = some a) : (key, a) ∈ fields := by
  induction fields with
  | nil => cases h
  | cons field rest ih =>
      obtain ⟨k, b⟩ := field
      rw [get?_cons] at h
      split at h
      · next hkey =>
        cases h
        rw [hkey]
        exact List.mem_cons_self
      · exact List.mem_cons_of_mem _ (ih h)

/-- With each key once, every field is found. -/
theorem get?_of_mem {fields : List (String × α)} (h : (keys fields).Nodup) {f : String × α}
    (hf : f ∈ fields) : get? f.1 fields = some f.2 := by
  induction fields with
  | nil => cases hf
  | cons field rest ih =>
      obtain ⟨k, b⟩ := field
      obtain ⟨hk, hrest⟩ := List.nodup_cons.mp h
      rw [get?_cons]
      obtain rfl | hmem := List.mem_cons.mp hf
      · exact if_pos rfl
      · have hkey : f.1 ∈ keys rest := List.mem_map_of_mem hmem
        rw [if_neg (ne_of_mem_of_not_mem hkey hk), ih hrest hmem]

theorem mem_keys_iff {key : String} {fields : List (String × α)} :
    key ∈ keys fields ↔ ∃ a, get? key fields = some a := by
  constructor
  · intro h
    induction fields with
    | nil => cases h
    | cons field rest ih =>
        obtain ⟨k, b⟩ := field
        rw [get?_cons]
        by_cases hkey : key = k
        · exact ⟨b, if_pos hkey⟩
        · rw [if_neg hkey]
          exact ih (List.mem_of_ne_of_mem hkey h)
  · rintro ⟨a, ha⟩
    exact List.mem_map_of_mem (mem_of_get? ha)

theorem get?_eq_none_iff {key : String} {fields : List (String × α)} :
    get? key fields = none ↔ key ∉ keys fields := by
  rw [mem_keys_iff, ← Option.isSome_iff_exists, Bool.not_eq_true, Option.isSome_eq_false_iff,
    Option.isNone_iff_eq_none]

theorem get?_erase (key name : String) (fields : List (String × α)) :
    get? key (erase name fields) = if key = name then none else get? key fields := by
  induction fields with
  | nil => simp [erase]
  | cons f rest ih =>
      obtain ⟨k, b⟩ := f
      by_cases hk : k = name
      · rw [erase, List.filter_cons_of_neg (by simp [hk]), ← erase, ih, get?_cons]
        split
        · rfl
        · next hne => rw [if_neg (hk ▸ hne)]
      · rw [erase, List.filter_cons_of_pos (by simpa using hk), ← erase, get?_cons, get?_cons, ih]
        split
        · next heq => rw [if_neg (heq ▸ hk)]
        · rfl

/-- Of fields written one after the other, the last one of a key is found. -/
theorem get?_foldl_put (key : String) (fields done : List (String × α)) :
    get? key (fields.foldl (fun done field => put field.1 field.2 done) done) =
      (get? key fields.reverse).or (get? key done) := by
  induction fields using List.reverseRecOn with
  | nil => rfl
  | append_singleton fields field ih =>
      obtain ⟨k, a⟩ := field
      rw [List.foldl_append, List.reverse_append]
      simp only [List.foldl_cons, List.foldl_nil, List.reverse_cons, List.reverse_nil,
        List.nil_append, List.cons_append, get?_put, get?_cons, ih]
      split <;> rfl

theorem get?_ofList (key : String) (fields : List (String × α)) :
    get? key (ofList fields) = get? key fields.reverse := by
  rw [ofList, get?_foldl_put, get?_nil, Option.or_none]

theorem get?_ofList_of_last {key : String} {a : α} {fields rest : List (String × α)}
    (h : key ∉ keys rest) : get? key (ofList (fields ++ (key, a) :: rest)) = some a := by
  have hlater : List.lookup key rest.reverse = none := by
    refine get?_eq_none_iff.mpr ?_
    rwa [keys, List.map_reverse, List.mem_reverse]
  rw [get?_ofList, List.reverse_append, List.reverse_cons, List.append_assoc, get?,
    List.lookup_append, hlater]
  exact get?_cons key key a _ |>.trans (if_pos rfl)

theorem mem_of_get?_ofList {key : String} {a : α} {fields : List (String × α)}
    (h : get? key (ofList fields) = some a) : (key, a) ∈ fields := by
  rw [get?_ofList] at h
  exact List.mem_reverse.mp (mem_of_get? h)

theorem mem_keys_ofList {key : String} {fields : List (String × α)} :
    key ∈ keys (ofList fields) ↔ key ∈ keys fields := by
  rw [mem_keys_iff, get?_ofList, ← mem_keys_iff, keys, List.map_reverse, List.mem_reverse, keys]

theorem mem_keys_put {key name : String} {a : α} {fields : List (String × α)} :
    key ∈ keys (put name a fields) ↔ key = name ∨ key ∈ keys fields := by
  rw [mem_keys_iff, mem_keys_iff, get?_put]
  split
  · next hkey => simp [hkey]
  · next hkey => simp [hkey]

/-- Writing a field keeps the order of the keys. -/
theorem sorted_put {fields : List (String × α)} (h : (keys fields).Pairwise (· < ·))
    (name : String) (a : α) : (keys (put name a fields)).Pairwise (· < ·) := by
  induction fields with
  | nil => simp [put, keys]
  | cons field rest ih =>
      obtain ⟨k, b⟩ := field
      obtain ⟨hk, hrest⟩ := List.pairwise_cons.mp h
      simp only [put]
      split
      · next hlt =>
        refine List.pairwise_cons.mpr ⟨fun x hx => ?_, h⟩
        obtain rfl | hx := List.mem_cons.mp hx
        · exact hlt
        · exact lt_trans hlt (hk x hx)
      · next hnlt =>
        split
        · next heq =>
          subst heq
          exact h
        · next hne =>
          refine List.pairwise_cons.mpr ⟨fun x hx => ?_, ih hrest⟩
          obtain rfl | hx := mem_keys_put.mp hx
          · exact lt_of_le_of_ne (not_lt.mp hnlt) (Ne.symm hne)
          · exact hk x hx

/-- Writing what is there already is no change. -/
theorem put_of_get? {key : String} {a : α} {fields : List (String × α)}
    (hsorted : (keys fields).Pairwise (· < ·)) (h : get? key fields = some a) :
    put key a fields = fields := by
  induction fields with
  | nil => cases h
  | cons field rest ih =>
      obtain ⟨k, b⟩ := field
      obtain ⟨hk, hrest⟩ := List.pairwise_cons.mp hsorted
      rw [get?_cons] at h
      split at h
      · next hkey =>
        cases h
        rw [put, if_neg (hkey ▸ lt_irrefl key), if_pos hkey, hkey]
      · next hne =>
        have hlater : k < key := hk key (mem_keys_iff.mpr ⟨a, h⟩)
        rw [put, if_neg (lt_asymm hlater), if_neg hne, ih hrest h]

theorem sorted_ofList (fields : List (String × α)) :
    (keys (ofList fields)).Pairwise (· < ·) := by
  induction fields using List.reverseRecOn with
  | nil => exact .nil
  | append_singleton fields field ih =>
      rw [ofList, List.foldl_append]
      exact sorted_put ih field.1 field.2

theorem nodup_keys_ofList (fields : List (String × α)) : (keys (ofList fields)).Nodup :=
  (sorted_ofList fields).imp ne_of_lt

theorem mem_put {key : String} {a : α} {fields : List (String × α)} {f : String × α}
    (h : f ∈ put key a fields) : f = (key, a) ∨ f ∈ fields := by
  induction fields with
  | nil => exact .inl (List.mem_singleton.mp h)
  | cons field rest ih =>
      obtain ⟨k, b⟩ := field
      rw [put] at h
      split at h
      · exact List.mem_cons.mp h
      · split at h
        · exact (List.mem_cons.mp h).imp id (List.mem_cons_of_mem _)
        · obtain rfl | h := List.mem_cons.mp h
          · exact .inr List.mem_cons_self
          · exact (ih h).imp id (List.mem_cons_of_mem _)

theorem ofList_append_singleton (fields : List (String × α)) (f : String × α) :
    ofList (fields ++ [f]) = put f.1 f.2 (ofList fields) := by
  rw [ofList, List.foldl_append]
  rfl

theorem mem_ofList {fields : List (String × α)} {f : String × α} (h : f ∈ ofList fields) :
    f ∈ fields := by
  induction fields using List.reverseRecOn with
  | nil => exact h
  | append_singleton rest field ih =>
      rw [ofList_append_singleton] at h
      obtain rfl | h := mem_put h
      · exact List.mem_append_right _ (List.mem_singleton_self _)
      · exact List.mem_append_left _ (ih h)

/-- A field behind all others in the order of keys is written at the end. -/
theorem put_of_last {key : String} {a : α} {fields : List (String × α)}
    (h : ∀ k ∈ keys fields, k < key) : put key a fields = fields ++ [(key, a)] := by
  induction fields with
  | nil => rfl
  | cons field rest ih =>
      obtain ⟨k, b⟩ := field
      obtain ⟨hk, hrest⟩ := List.forall_mem_cons.mp h
      rw [put, if_neg (lt_asymm hk), if_neg (ne_of_gt hk), ih hrest]
      rfl

/-- Fields in the order of their keys, each key once, stay as they are. -/
theorem ofList_of_sorted {fields : List (String × α)} (h : (keys fields).Pairwise (· < ·)) :
    ofList fields = fields := by
  induction fields using List.reverseRecOn with
  | nil => rfl
  | append_singleton rest f ih =>
      rw [keys, List.map_append, List.pairwise_append] at h
      obtain ⟨hrest, _, hlast⟩ := h
      rw [ofList_append_singleton, ih hrest,
        put_of_last fun k hk => hlast k hk f.1 (List.mem_singleton_self _)]

theorem put_map {β : Type} (g : α → β) (key : String) (a : α) (fields : List (String × α)) :
    put key (g a) (fields.map fun f => (f.1, g f.2)) =
      (put key a fields).map fun f => (f.1, g f.2) := by
  induction fields with
  | nil => rfl
  | cons field rest ih =>
      obtain ⟨k, b⟩ := field
      simp only [put, List.map_cons, ih]
      split_ifs <;> rfl

theorem ofList_map {β : Type} (g : α → β) (fields : List (String × α)) :
    ofList (fields.map fun f => (f.1, g f.2)) = (ofList fields).map fun f => (f.1, g f.2) := by
  induction fields using List.reverseRecOn with
  | nil => rfl
  | append_singleton rest f ih =>
      rw [List.map_append, List.map_singleton, ofList_append_singleton, ofList_append_singleton, ih]
      exact put_map g f.1 f.2 _

end PullFlow.Fields
