import PullFlow.Engine.Passes
import PullFlow.Proofs.Likeness
import Mathlib.Data.List.Forall2
import Mathlib.Data.String.Basic

/-!
What feeds a flow. The connections to a flow are sorted by their producers, those of one producer
stay in the order of its sinks, and no two flows of a set have one name. So the order in which the
flows were asked for their connections is of no account.
-/

namespace PullFlow.Engine.World

section Sorting

variable {α κ : Type} [LinearOrder κ] {key : α → κ} {items items' : List α}

/-- Lists that are sorted by a key and have the same items for each key are the same. -/
theorem eq_of_sorted (h : items.Pairwise fun a b => key a ≤ key b)
    (h' : items'.Pairwise fun a b => key a ≤ key b)
    (hsame : ∀ k, items.filter (fun a => key a = k) = items'.filter fun a => key a = k) :
    items = items' := by
  induction items generalizing items' with
  | nil =>
      cases items' with
      | nil => rfl
      | cons b rest' =>
          have hb := hsame (key b)
          simp at hb
  | cons a rest ih =>
      obtain ⟨hleast, hrest⟩ := List.pairwise_cons.mp h
      cases items' with
      | nil =>
          have ha := hsame (key a)
          simp at ha
      | cons b rest' =>
          obtain ⟨hleast', hrest'⟩ := List.pairwise_cons.mp h'
          have hle : key b ≤ key a := by
            have ha : a ∈ (b :: rest').filter fun x => key x = key a := by
              rw [← hsame]
              simp
            obtain rfl | ha := List.mem_cons.mp (List.mem_of_mem_filter ha)
            · exact le_refl _
            · exact hleast' a ha
          have hge : key a ≤ key b := by
            have hb : b ∈ (a :: rest).filter fun x => key x = key b := by
              rw [hsame]
              simp
            obtain rfl | hb := List.mem_cons.mp (List.mem_of_mem_filter hb)
            · exact le_refl _
            · exact hleast b hb
          have hkey : key b = key a := le_antisymm hle hge
          have hfirst := hsame (key a)
          simp only [List.filter_cons, hkey, decide_true, if_true] at hfirst
          obtain ⟨rfl, _⟩ := List.cons.inj hfirst
          refine congrArg (a :: ·) (ih hrest hrest' fun k => ?_)
          have hk := hsame k
          simp only [List.filter_cons] at hk
          split at hk
          · exact (List.cons.inj hk).2
          · exact hk

theorem keyed_trans (a b c : α) (hab : decide (key a ≤ key b) = true)
    (hbc : decide (key b ≤ key c) = true) : decide (key a ≤ key c) = true :=
  decide_eq_true (le_trans (of_decide_eq_true hab) (of_decide_eq_true hbc))

theorem keyed_total (a b : α) : (decide (key a ≤ key b) || decide (key b ≤ key a)) = true := by
  simpa using le_total (key a) (key b)

/-- A sort leaves the items of one key in their order. -/
theorem filter_mergeSort (items : List α) (k : κ) :
    (items.mergeSort fun a b => decide (key a ≤ key b)).filter (fun a => key a = k) =
      items.filter fun a => key a = k := by
  have hsorted : (items.filter fun a => key a = k).Pairwise
      fun a b => decide (key a ≤ key b) = true := by
    refine List.pairwise_of_forall_mem_list fun a ha b hb => ?_
    have hka := of_decide_eq_true (List.mem_filter.mp ha).2
    have hkb := of_decide_eq_true (List.mem_filter.mp hb).2
    rw [hka, hkb]
    exact decide_eq_true (le_refl k)
  have hsub := (List.sublist_mergeSort keyed_trans keyed_total hsorted
    List.filter_sublist).filter fun a => decide (key a = k)
  rw [List.filter_filter] at hsub
  simp only [Bool.and_self] at hsub
  exact (hsub.eq_of_length ((List.mergeSort_perm items _).filter _).length_eq.symm).symm

/-- Lists that have the same items for each key are the same when they are sorted. -/
theorem mergeSort_eq_of_filter
    (hsame : ∀ k, items.filter (fun a => key a = k) = items'.filter fun a => key a = k) :
    (items.mergeSort fun a b => decide (key a ≤ key b)) =
      items'.mergeSort fun a b => decide (key a ≤ key b) := by
  have hsorted (items : List α) :
      (items.mergeSort fun a b => decide (key a ≤ key b)).Pairwise fun a b => key a ≤ key b :=
    (List.pairwise_mergeSort keyed_trans keyed_total items).imp of_decide_eq_true
  refine eq_of_sorted (hsorted items) (hsorted items') fun k => ?_
  rw [filter_mergeSort, filter_mergeSort, hsame]

/-- If each key has one item at most, a permutation leaves the items of each key as they are. -/
theorem filter_eq_of_perm (hperm : items.Perm items') (hnodup : (items.map key).Nodup) (k : κ) :
    items.filter (fun a => key a = k) = items'.filter fun a => key a = k := by
  have hfiltered := hperm.filter fun a => decide (key a = k)
  have hkeys : (items.filter fun a => key a = k).map key =
      List.replicate (items.filter fun a => key a = k).length k :=
    List.eq_replicate_iff.mpr ⟨List.length_map .., fun x hx => by
      obtain ⟨a, ha, rfl⟩ := List.mem_map.mp hx
      exact of_decide_eq_true (List.mem_filter.mp ha).2⟩
  have hshort : (items.filter fun a => key a = k).length ≤ 1 := by
    have hdistinct : ((items.filter fun a => key a = k).map key).Nodup :=
      hnodup.sublist (List.filter_sublist.map key)
    rw [hkeys] at hdistinct
    exact List.nodup_replicate.mp hdistinct
  rcases hitems : items.filter (fun a => key a = k) with _ | ⟨a, _ | ⟨b, rest⟩⟩ <;>
    rw [hitems] at hfiltered hshort
  · exact hfiltered.nil_eq
  · exact List.singleton_perm.mp hfiltered
  · exact absurd hshort (by simp)

end Sorting

/-! Connections, flow by flow. -/

section Blocks

variable {blocks blocks' : List (String × List Outflow)}

/-- Where a flow is decides nothing about how it feeds another one. -/
theorem inflowsOf_unplaced (name : String) (all : List Outflow) :
    (inflowsOf name all).map Outflow.unplaced = inflowsOf name (all.map Outflow.unplaced) := by
  rw [inflowsOf, inflowsOf, List.filter_map]
  exact List.map_mergeSort fun _ _ _ _ => rfl

/-- The connections from the flow of one name are its own. -/
theorem filter_producer (hproducer : ∀ b ∈ blocks, ∀ o ∈ b.2, o.producer = b.1) (k : String) :
    (blocks.flatMap (·.2)).filter (fun o => o.producer = k) =
      (blocks.filter fun b => b.1 = k).flatMap (·.2) := by
  induction blocks with
  | nil => rfl
  | cons b rest ih =>
      obtain ⟨hfirst, hrest⟩ := List.forall_mem_cons.mp hproducer
      rw [List.flatMap_cons, List.filter_append, ih hrest, List.filter_cons]
      by_cases hk : b.1 = k
      · rw [List.filter_eq_self.mpr fun o ho => decide_eq_true ((hfirst o ho).trans hk)]
        simp [hk]
      · rw [List.filter_eq_nil_iff.mpr fun o ho => by simpa [hfirst o ho] using hk]
        simp [hk]

/-- The order in which flows of different names are asked for their connections decides nothing about
what feeds a flow. -/
theorem inflowsOf_perm (hperm : blocks.Perm blocks') (hnodup : (blocks.map (·.1)).Nodup)
    (hproducer : ∀ b ∈ blocks, ∀ o ∈ b.2, o.producer = b.1) (name : String) :
    inflowsOf name (blocks.flatMap (·.2)) = inflowsOf name (blocks'.flatMap (·.2)) := by
  have hproducer' : ∀ b ∈ blocks', ∀ o ∈ b.2, o.producer = b.1 :=
    fun b hb => hproducer b (hperm.mem_iff.mpr hb)
  refine mergeSort_eq_of_filter fun k => ?_
  rw [List.filter_comm, filter_producer hproducer, List.filter_comm, filter_producer hproducer',
    filter_eq_of_perm hperm hnodup]

end Blocks

end PullFlow.Engine.World
