import PullFlow.Proofs.Scope.Lookup
import PullFlow.Scope.Search

/-!
Trees in which only values are added. Scopes are looked for under names that lead to other scopes,
so whoever looks for the owner of a key comes to the same slot after values have been added, or no
longer to any, because one of them hides a scope.
-/

namespace PullFlow.Scope

theorem Store.Alike.trans {st st' st'' : Store} (h : st.Alike st') (h' : st'.Alike st'') :
    st.Alike st'' :=
  ⟨fun s => (h'.members s).trans (h.members s), fun s => (h'.roots s).trans (h.roots s),
    fun s => (h'.parents s).trans (h.parents s), fun s n => (h'.entries s n).trans (h.entries s n)⟩

theorem Store.put_of_not_mem {st : Store} {o : ScopeId} (ho : o ∉ st) (n : String) (e : Entry) :
    st.put o n e = st := by
  have hlen : st.nodes.length ≤ o := Nat.le_of_not_lt ho
  unfold put update
  rw [List.modify_eq_self hlen]

/-- A tree and a later one: no entry is lost or replaced, and the new ones are values. -/
structure Store.Filled (st st' : Store) : Prop where
  mem : ∀ s, s ∈ st' ↔ s ∈ st
  parent : ∀ s, st'.parent? s = st.parent? s
  kept : ∀ s n e, st.entry? s n = some e → st'.entry? s n = some e
  added : ∀ s n e, st.entry? s n = none → st'.entry? s n = some e → ∃ v, e = .value v

namespace Store.Filled

variable {st st' st'' : Store} {s o : ScopeId} {n : String}

theorem refl (st : Store) : st.Filled st :=
  ⟨fun _ => Iff.rfl, fun _ => rfl, fun _ _ _ => id, fun _ _ _ h h' => by simp [h] at h'⟩

theorem alike (h : st.Filled st') (halike : st'.Alike st'') : st.Filled st'' :=
  ⟨fun s => (halike.members s).trans (h.mem s), fun s => (halike.parents s).trans (h.parent s),
    fun s n e he => (halike.entries s n).trans (h.kept s n e he),
    fun s n e hnone he => h.added s n e hnone ((halike.entries s n).symm.trans he)⟩

/-- A value goes to a slot that was empty in the first tree. -/
theorem put (h : st.Filled st') (hfree : st.entry? o n = none) (v : Value) :
    st.Filled (st'.put o n (.value v)) := by
  by_cases ho : o ∈ st'
  · have hentry := entry?_put ho n (.value v)
    refine ⟨fun s => by rw [mem_put, h.mem], fun s => by rw [parent?_put, h.parent], ?_, ?_⟩
    · intro s m e he
      rw [hentry]
      split
      · next hsame =>
        rw [hsame.1, hsame.2, hfree] at he
        cases he
      · exact h.kept s m e he
    · intro s m e hnone he
      rw [hentry] at he
      split at he
      · cases he
        exact ⟨v, rfl⟩
      · exact h.added s m e hnone he
  · rw [put_of_not_mem ho]
    exact h

end Store.Filled

namespace OwnerSearch

/-- Where a search comes to on a tree that stays as it is. -/
inductive Comes (st : Store) : OwnerSearch → ScopeId × String → Prop
  | here {slot : ScopeId × String} : Comes st (.finished (.ok slot)) slot
  | step {q : OwnerSearch} {slot : ScopeId × String} : Comes st (q.step st) slot → Comes st q slot

variable {st st' : Store} {q : OwnerSearch} {slot slot' : ScopeId × String}

theorem eq_of_comes_finished (h : Comes st (.finished (.ok slot)) slot') : slot' = slot := by
  generalize hq : finished (.ok slot) = q at h
  induction h with
  | here =>
      cases hq
      rfl
  | step _ ih =>
      subst hq
      exact ih rfl

theorem not_comes_failed {e : Error} : ¬ Comes st (.finished (.error e)) slot := by
  intro h
  generalize hq : finished (.error e) = q at h
  induction h with
  | here => cases hq
  | step _ ih =>
      subst hq
      exact ih rfl

/-- A search comes to one slot only. -/
theorem Comes.unique (h : Comes st q slot) (h' : Comes st q slot') : slot' = slot := by
  induction h with
  | here => exact eq_of_comes_finished h'
  | step _ ih =>
      cases h' with
      | here => exact ih .here
      | step h' => exact ih h'

/-- On a later tree a search goes on as on the first one, or fails. -/
theorem step_filled (h : st.Filled st') (q : OwnerSearch) :
    q.step st' = q.step st ∨ ∃ e, q.step st' = .finished (.error e) := by
  unfold step
  split
  · exact .inl rfl
  · exact .inl rfl
  · exact .inl rfl
  · exact .inl rfl
  · next s name rest =>
    cases hentry : st.entry? s name with
    | some e =>
        rw [h.kept s name e hentry]
        cases e <;> exact .inl rfl
    | none =>
        cases hentry' : st'.entry? s name with
        | none => exact .inl (by rw [h.parent])
        | some e =>
            obtain ⟨v, rfl⟩ := h.added s name e hentry hentry'
            exact .inr ⟨_, rfl⟩
  · exact .inl rfl

/-- So it comes to no other slot than before. -/
theorem comes_of_step_filled (h : st.Filled st') (hcomes : Comes st (q.step st') slot) :
    Comes st q slot := by
  obtain hsame | ⟨e, hfailed⟩ := step_filled h q
  · exact .step (hsame ▸ hcomes)
  · rw [hfailed] at hcomes
    exact (not_comes_failed hcomes).elim

end OwnerSearch
end PullFlow.Scope
