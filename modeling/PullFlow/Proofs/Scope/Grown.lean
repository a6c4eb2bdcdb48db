import PullFlow.Proofs.Scope.Lookup

/-!
The stores that the operations on scopes build up from nothing. In each of them every entry that is
a scope names a scope of the store, and every parent stands before its children.
-/

namespace PullFlow.Scope.Store

/-- A store made by the operations on its scopes. Entries may name any scope, ancestors included. -/
inductive Grown : Store → Prop
  | empty : Grown .empty
  | root {st : Store} : Grown st → Grown st.addRoot.1
  | child {st : Store} {s : ScopeId} : Grown st → s ∈ st → Grown (st.addChild s).1
  | set {st st' : Store} {s : ScopeId} {key : String} {e : Entry} {first : Bool} :
      Grown st → s ∈ st → st.Sound e → st.set s key e first = .ok st' → Grown st'
  | claim {st st' : Store} {s : ScopeId} {key : String} {e : Entry} {won : Bool} :
      Grown st → s ∈ st → st.Sound e → st.claim s key e = .ok (st', won) → Grown st'
  | close {st : Store} {s : ScopeId} : Grown st → s ∈ st → Grown (st.close s)

/-- A claim in one step: the owner is found, and an entry is put where there was none. -/
theorem claim_eq_ok {st st' : Store} {s : ScopeId} {key : String} {e : Entry} {won : Bool}
    (h : st.claim s key e = .ok (st', won)) :
    ∃ o n, st.owner s (path key) = .ok (o, n) ∧
      ((won = true ∧ st.entry? o n = none ∧ st' = st.put o n e) ∨
        (won = false ∧ (st.entry? o n).isSome ∧ st' = st)) := by
  unfold claim at h
  rcases ho : st.owner s (path key) with err | ⟨o, n⟩
  · rw [ho] at h
    cases h
  · rw [ho] at h
    refine ⟨o, n, rfl, ?_⟩
    cases hentry : st.entry? o n with
    | some found =>
        have hpair : (st, false) = (st', won) := by
          simpa [bind, Except.bind, pure, Except.pure, hentry] using h
        cases hpair
        exact .inr ⟨rfl, rfl, rfl⟩
    | none =>
        have hpair : (st.put o n e, true) = (st', won) := by
          simpa [bind, Except.bind, pure, Except.pure, hentry] using h
        cases hpair
        exact .inl ⟨rfl, rfl, rfl⟩

/-- A write in one step: the owner is found, and the entry is put there, over an old one only if
the write need not be the first. -/
theorem set_eq_ok {st st' : Store} {s : ScopeId} {key : String} {e : Entry} {first : Bool}
    (h : st.set s key e first = .ok st') :
    ∃ o n, st.owner s (path key) = .ok (o, n) ∧ (first = true → st.entry? o n = none) ∧
      st' = st.put o n e := by
  unfold set at h
  cases first with
  | true =>
      rcases hc : st.claim s key e with err | ⟨claimed, won⟩
      · simp [hc, bind, Except.bind] at h
      · obtain ⟨o, n, ho, ⟨rfl, hfree, rfl⟩ | ⟨rfl, _, rfl⟩⟩ := claim_eq_ok hc
        · have hst : st.put o n e = st' := by
            simpa [hc, bind, Except.bind, pure, Except.pure] using h
          exact ⟨o, n, ho, fun _ => hfree, hst.symm⟩
        · simp [hc, bind, Except.bind, throw, throwThe, MonadExceptOf.throw] at h
  | false =>
      rcases ho : st.owner s (path key) with err | ⟨o, n⟩
      · simp [ho, bind, Except.bind] at h
      · have hst : st.put o n e = st' := by
          simpa [ho, bind, Except.bind, pure, Except.pure] using h
        exact ⟨o, n, rfl, nofun, hst.symm⟩

/-- What holds of every entry of a grown store. -/
structure Formed (st : Store) : Prop where
  entries : ∀ s name e, st.entry? s name = some e → st.Sound e
  parents : ∀ s p, st.parent? s = some p → p < s

theorem mem_of_entry {st : Store} {s : ScopeId} {name : String} {e : Entry}
    (h : st.entry? s name = some e) : s ∈ st := by
  change s < st.nodes.length
  cases hn : st.nodes[s]? with
  | some node => exact (List.getElem?_eq_some_iff.mp hn).1
  | none => simp [Store.entry?, entries, hn] at h

theorem mem_of_parent {st : Store} {s p : ScopeId} (h : st.parent? s = some p) : s ∈ st := by
  change s < st.nodes.length
  obtain ⟨node, hnode, _⟩ := Option.bind_eq_some_iff.mp h
  exact (List.getElem?_eq_some_iff.mp hnode).1

theorem Formed.put {st : Store} (h : st.Formed) {o : ScopeId} (ho : o ∈ st) (n : String)
    {e : Entry} (he : st.Sound e) : (st.put o n e).Formed where
  entries s name found hfound := by
    rw [entry?_put ho] at hfound
    refine (sound_update st o _ found).mpr ?_
    split at hfound
    · cases hfound
      exact he
    · exact h.entries s name found hfound
  parents s p hp := by
    rw [parent?_put] at hp
    exact h.parents s p hp

theorem Formed.alike {st st' : Store} (h : st.Formed) (halike : st.Alike st') : st'.Formed where
  entries s name e he := by
    rw [halike.entries] at he
    exact (halike.sound e).mpr (h.entries s name e he)
  parents s p hp := by
    rw [halike.parents] at hp
    exact h.parents s p hp

theorem Formed.close {st : Store} (h : st.Formed) (o : ScopeId) : (st.close o).Formed :=
  h.alike (alike_close st o)

theorem nodes_append (nodes : List Node) (node : Node) (s : ScopeId) :
    (nodes ++ [node])[s]? = if s = nodes.length then some node else nodes[s]? := by
  rcases Nat.lt_trichotomy s nodes.length with hs | hs | hs
  · simp [List.getElem?_append_left hs, Nat.ne_of_lt hs]
  · simp [hs]
  · have hout : (nodes ++ [node]).length ≤ s := by
      rw [List.length_append, List.length_singleton]
      omega
    rw [List.getElem?_eq_none hout, List.getElem?_eq_none (Nat.le_of_lt hs),
      if_neg (Nat.ne_of_gt hs)]

theorem entry?_append {st : Store} {node : Node} (hnone : node.entries = []) (s : ScopeId)
    (name : String) : Store.entry? ⟨st.nodes ++ [node]⟩ s name = st.entry? s name := by
  simp only [Store.entry?, entries, nodes_append]
  by_cases hs : s = st.nodes.length
  · simp [hs, hnone]
  · simp [hs]

/-- A node without entries behind the others. -/
theorem Formed.append {st : Store} (h : st.Formed) (node : Node) (hnone : node.entries = [])
    (hparent : ∀ p ∈ node.parent, p ∈ st) : Formed ⟨st.nodes ++ [node]⟩ where
  entries s name e he := by
    rw [entry?_append hnone] at he
    cases e with
    | value v => trivial
    | scope t => exact mem_append (h.entries s name (.scope t) he)
  parents s p hp := by
    simp only [parent?, nodes_append] at hp
    split at hp
    · next hs =>
      rw [hs]
      exact hparent p hp
    · exact h.parents s p hp

/-- The scope that a lookup upwards finds is one of the store. -/
theorem Formed.findHead {st : Store} (h : st.Formed) {s : ScopeId} {name : String} {e : Entry}
    (he : st.findHead? s name = some e) : st.Sound e := by
  obtain ⟨x, _, hx⟩ := List.exists_of_findSome?_eq_some he
  exact h.entries x name e hx

/-- The owner of a key is a scope of the store. -/
theorem Formed.owner {st : Store} (h : st.Formed) {s o : ScopeId} {n : String}
    {names : List String} (hs : s ∈ st) (ho : st.owner s names = .ok (o, n)) : o ∈ st := by
  induction names generalizing s with
  | nil => cases ho
  | cons name rest ih =>
      cases rest with
      | nil =>
          cases ho
          exact hs
      | cons next rest =>
          simp only [Store.owner] at ho
          rcases hhead : st.findHead? s name with _ | (v | t)
          · simp [hhead] at ho
          · simp [hhead] at ho
          · rw [hhead] at ho
            exact ih (h.findHead hhead) ho

theorem Grown.formed {st : Store} (h : Grown st) : st.Formed := by
  induction h with
  | empty =>
      constructor
      · intro s name e he
        simp [Store.entry?, entries, Store.empty] at he
      · intro s p hp
        simp [parent?, Store.empty] at hp
  | root _ ih => exact ih.append _ rfl (by simp)
  | child _ hs ih => exact ih.append _ rfl (by simpa using hs)
  | set _ hs he hset ih =>
      obtain ⟨o, n, ho, _, rfl⟩ := set_eq_ok hset
      exact ih.put (ih.owner hs ho) n he
  | claim _ hs he hclaim ih =>
      obtain ⟨o, n, ho, ⟨_, _, rfl⟩ | ⟨_, _, rfl⟩⟩ := claim_eq_ok hclaim
      · exact ih.put (ih.owner hs ho) n he
      · exact ih
  | close _ _ ih => exact ih.close _

/-- A store in which nobody is at a gate. -/
def Ungated (st : Store) : Prop := ∀ node ∈ st.nodes, node.gate = none

theorem Ungated.update {st : Store} (h : st.Ungated) (o : ScopeId) {f : Node → Node}
    (hf : ∀ node, (f node).gate = node.gate) : (st.update o f).Ungated := by
  intro node hnode
  obtain ⟨s, hs⟩ := List.getElem?_of_mem hnode
  rw [nodes_update] at hs
  split at hs
  · obtain ⟨before, hbefore, rfl⟩ := Option.map_eq_some_iff.mp hs
    rw [hf]
    exact h before (List.mem_of_getElem? hbefore)
  · exact h node (List.mem_of_getElem? hs)

theorem Ungated.append {st : Store} (h : st.Ungated) {node : Node} (hnode : node.gate = none) :
    Ungated ⟨st.nodes ++ [node]⟩ := by
  intro other hother
  obtain hother | hother := List.mem_append.mp hother
  · exact h other hother
  · rwa [List.mem_singleton.mp hother]

theorem Grown.ungated {st : Store} (h : Grown st) : st.Ungated := by
  induction h with
  | empty => exact List.forall_mem_nil _
  | root _ ih => exact ih.append rfl
  | child _ _ ih => exact ih.append rfl
  | set _ _ _ hset ih =>
      obtain ⟨o, n, _, _, rfl⟩ := set_eq_ok hset
      exact ih.update o fun _ => rfl
  | claim _ _ _ hclaim ih =>
      obtain ⟨o, n, _, ⟨_, _, rfl⟩ | ⟨_, _, rfl⟩⟩ := claim_eq_ok hclaim
      · exact ih.update o fun _ => rfl
      · exact ih
  | close _ _ ih => exact ih.update _ fun _ => rfl

end PullFlow.Scope.Store
