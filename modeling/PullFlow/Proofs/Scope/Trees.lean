import PullFlow.Proofs.Scope.Search

/-!
Trees of scopes that keep to themselves: no parent and no entry leads from one tree into another. A
lookup then reads its own tree only, so a write in another tree does not change what it finds, and
the owner of a key is in the tree of the scope that the key is written in.
-/

namespace PullFlow.Scope

namespace Store

/-- No parent and no entry leads out of a tree. -/
structure Apart (st : Store) : Prop where
  entries : ∀ s name t, st.entry? s name = some (.scope t) → st.rootOf t = st.rootOf s
  parents : ∀ s p, st.parent? s = some p → st.rootOf p = st.rootOf s

/-- An entry that may stand in the tree of a scope: a value, or a scope of that tree. -/
def Within (st : Store) (s : ScopeId) : Entry → Prop
  | .value _ => True
  | .scope t => t ∈ st ∧ st.rootOf t = st.rootOf s

theorem Within.sound {st : Store} {s : ScopeId} {e : Entry} (h : st.Within s e) : st.Sound e := by
  cases e with
  | value v => trivial
  | scope t => exact h.1

theorem Within.of_rootOf {st : Store} {s t : ScopeId} {e : Entry} (h : st.Within s e)
    (ht : st.rootOf t = st.rootOf s) : st.Within t e := by
  cases e with
  | value v => trivial
  | scope u => exact ⟨h.1, h.2.trans ht.symm⟩

theorem Within.keep {st st' : Store} {s : ScopeId} {e : Entry} (h : st.Within s e)
    (hmem : ∀ s, s ∈ st' ↔ s ∈ st) (hroots : ∀ s, st'.rootOf s = st.rootOf s) :
    st'.Within s e := by
  cases e with
  | value v => trivial
  | scope t => exact ⟨(hmem t).mpr h.1, by simpa only [hroots] using h.2⟩

/-- A single tree keeps to itself. -/
theorem Formed.apart {st : Store} (h : st.Formed) {root : ScopeId}
    (hone : ∀ s ∈ st, st.rootOf s = root) : st.Apart where
  entries s name t hentry := by
    have ht : t ∈ st := h.entries s name (.scope t) hentry
    rw [hone t ht, hone s (mem_of_entry hentry)]
  parents s p hp := by
    have hs : s ∈ st := mem_of_parent hp
    rw [hone p (Nat.lt_trans (h.parents s p hp) hs), hone s hs]

namespace Apart

variable {st : Store}

theorem put (h : st.Apart) {o : ScopeId} (ho : o ∈ st) (n : String) {e : Entry}
    (he : st.Within o e) : (st.put o n e).Apart where
  entries s name t hentry := by
    rw [entry?_put ho] at hentry
    simp only [rootOf_put]
    split at hentry
    · next hslot =>
      cases hentry
      rw [hslot.1]
      exact he.2
    · exact h.entries s name t hentry
  parents s p hp := by
    simp only [parent?_put] at hp
    simpa only [rootOf_put] using h.parents s p hp

theorem alike {st' : Store} (h : st.Apart) (halike : st.Alike st') : st'.Apart where
  entries s name t hentry := by
    rw [halike.entries] at hentry
    simpa only [halike.roots] using h.entries s name t hentry
  parents s p hp := by
    rw [halike.parents] at hp
    simpa only [halike.roots] using h.parents s p hp

theorem mem_lineageWithin (h : st.Apart) {fuel : Nat} {s x : ScopeId}
    (hx : x ∈ st.lineageWithin fuel s) : st.rootOf x = st.rootOf s := by
  induction fuel generalizing s with
  | zero => cases hx
  | succ fuel ih =>
      simp only [lineageWithin, List.mem_cons] at hx
      obtain rfl | hx := hx
      · rfl
      · cases hp : st.parent? s with
        | none => simp [hp] at hx
        | some p =>
            simp only [hp] at hx
            exact (ih hx).trans (h.parents s p hp)

theorem findHead (h : st.Apart) {s t : ScopeId} {name : String}
    (hhead : st.findHead? s name = some (.scope t)) : st.rootOf t = st.rootOf s := by
  obtain ⟨x, hx, hentry⟩ := List.exists_of_findSome?_eq_some hhead
  exact (h.entries x name t hentry).trans (h.mem_lineageWithin hx)

theorem meetsLocal (h : st.Apart) {o : ScopeId} {n : String} {s : ScopeId}
    {names left : List String} (hmeets : st.meetsLocal? o n s names = some left) :
    st.rootOf o = st.rootOf s := by
  induction names generalizing s with
  | nil => cases hmeets
  | cons name rest ih =>
      simp only [meetsLocal?] at hmeets
      split at hmeets
      · next hslot => rw [hslot.1]
      · rcases hentry : st.entry? s name with _ | (v | t)
        · simp [hentry] at hmeets
        · simp [hentry] at hmeets
        · simp only [hentry] at hmeets
          exact (ih hmeets).trans (h.entries s name t hentry)

/-- A lookup comes to slots of its own tree only. -/
theorem meets (h : st.Apart) {o : ScopeId} {n : String} {s : ScopeId} {names left : List String}
    (hmeets : st.meets? o n s names = some left) : st.rootOf o = st.rootOf s := by
  cases names with
  | nil => cases hmeets
  | cons name rest =>
      simp only [meets?] at hmeets
      split at hmeets
      · next hslot => exact h.mem_lineageWithin (mem_of_mem_through hslot.2)
      · rcases hhead : st.findHead? s name with _ | (v | t)
        · simp [hhead] at hmeets
        · simp [hhead] at hmeets
        · simp only [hhead] at hmeets
          exact (h.meetsLocal hmeets).trans (h.findHead hhead)

/-- A write in another tree does not change what a lookup finds. -/
theorem find?_put_of_rootOf_ne (h : st.Apart) {o s : ScopeId} (ho : o ∈ st)
    (hroot : st.rootOf o ≠ st.rootOf s) (n : String) (e : Entry) (names : List String) :
    (st.put o n e).find? s names = st.find? s names := by
  rw [find?_put ho]
  cases hmeets : st.meets? o n s names with
  | none => rfl
  | some left => exact absurd (h.meets hmeets) hroot

theorem findLocal?_put_of_rootOf_ne (h : st.Apart) {o s : ScopeId} (ho : o ∈ st)
    (hroot : st.rootOf o ≠ st.rootOf s) (n : String) (e : Entry) (names : List String) :
    (st.put o n e).findLocal? s names = st.findLocal? s names := by
  rw [findLocal?_put ho]
  cases hmeets : st.meetsLocal? o n s names with
  | none => rfl
  | some left => exact absurd (h.meetsLocal hmeets) hroot

end Apart
end Store

namespace Search

/-- A search that is still in the tree of a scope. -/
def Keeps (st : Store) (s : ScopeId) : Search → Prop
  | .climb (some t) _ _ | .descend t _ => st.rootOf t = st.rootOf s
  | .climb none _ _ | .finished _ => True

theorem keeps_start (st : Store) (s : ScopeId) (names : List String) :
    (start s names).Keeps st s := by
  cases names with
  | nil => trivial
  | cons name rest => exact rfl

theorem Keeps.follow {st : Store} (ha : st.Apart) {s t : ScopeId} {name : String} {e : Entry}
    (ht : st.rootOf t = st.rootOf s) (he : st.entry? t name = some e) (names : List String) :
    (Search.follow e names).Keeps st s := by
  cases names with
  | nil => trivial
  | cons next rest =>
      cases e with
      | value v => trivial
      | scope u => exact (ha.entries t name u he).trans ht

theorem Keeps.step {st : Store} (ha : st.Apart) {s : ScopeId} {search : Search}
    (h : search.Keeps st s) : (search.step st).Keeps st s := by
  cases search with
  | climb here name rest =>
      cases here with
      | none => trivial
      | some t =>
          simp only [Search.step]
          cases hentry : st.entry? t name with
          | some e => exact Keeps.follow ha h hentry rest
          | none =>
              cases hp : st.parent? t with
              | none => trivial
              | some p => exact (ha.parents t p hp).trans h
  | descend t names =>
      cases names with
      | nil => trivial
      | cons name rest =>
          simp only [Search.step]
          cases hentry : st.entry? t name with
          | some e => exact Keeps.follow ha h hentry rest
          | none => trivial
  | finished entry => trivial

theorem Keeps.keep {st st' : Store} {s : ScopeId} {search : Search} (h : search.Keeps st s)
    (hroots : ∀ s, st'.rootOf s = st.rootOf s) : search.Keeps st' s := by
  cases search with
  | climb here name rest =>
      cases here with
      | none => trivial
      | some t => exact (hroots t).trans (h.trans (hroots s).symm)
  | descend t names => exact (hroots t).trans (h.trans (hroots s).symm)
  | finished entry => trivial

/-- A write in another tree does not change what a search comes to. -/
theorem Keeps.result_put {st : Store} (ha : st.Apart) {o s : ScopeId} {search : Search}
    (h : search.Keeps st s) (ho : o ∈ st) (hroot : st.rootOf o ≠ st.rootOf s) (n : String)
    (e : Entry) : search.result (st.put o n e) = search.result st := by
  cases search with
  | climb here name rest =>
      cases here with
      | none => rfl
      | some t =>
          have ht : st.rootOf t = st.rootOf s := h
          have hfind := ha.find?_put_of_rootOf_ne ho (ht ▸ hroot) n e (name :: rest)
          rwa [Store.find?_cons, Store.find?_cons] at hfind
  | descend t names =>
      have ht : st.rootOf t = st.rootOf s := h
      exact ha.findLocal?_put_of_rootOf_ne ho (ht ▸ hroot) n e names
  | finished entry => rfl

end Search

namespace OwnerSearch

/-- A search for an owner that is still in the tree of a scope. -/
def Keeps (st : Store) (s : ScopeId) : OwnerSearch → Prop
  | .seek t _ | .climb (some t) _ _ => t ∈ st ∧ st.rootOf t = st.rootOf s
  | .finished (.ok (o, _)) => o ∈ st ∧ st.rootOf o = st.rootOf s
  | .climb none _ _ | .finished (.error _) => True

theorem Keeps.keep {st st' : Store} {s : ScopeId} {search : OwnerSearch} (h : search.Keeps st s)
    (hmem : ∀ s, s ∈ st' ↔ s ∈ st) (hroots : ∀ s, st'.rootOf s = st.rootOf s) :
    search.Keeps st' s := by
  cases search with
  | seek t names => exact ⟨(hmem t).mpr h.1, by simpa only [hroots] using h.2⟩
  | climb here name rest =>
      cases here with
      | none => trivial
      | some t => exact ⟨(hmem t).mpr h.1, by simpa only [hroots] using h.2⟩
  | finished owner =>
      cases owner with
      | error e => trivial
      | ok owner => exact ⟨(hmem owner.1).mpr h.1, by simpa only [hroots] using h.2⟩

theorem Keeps.step {st : Store} (hf : st.Formed) (ha : st.Apart) {s : ScopeId}
    {search : OwnerSearch} (h : search.Keeps st s) : (search.step st).Keeps st s := by
  cases search with
  | seek t names =>
      cases names with
      | nil => trivial
      | cons name rest => cases rest <;> exact h
  | climb here name rest =>
      cases here with
      | none => trivial
      | some t =>
          simp only [OwnerSearch.step]
          rcases hentry : st.entry? t name with _ | (v | u)
          · cases hp : st.parent? t with
            | none => trivial
            | some p =>
                have hlt : p < t := hf.parents t p hp
                exact ⟨Nat.lt_trans hlt h.1, (ha.parents t p hp).trans h.2⟩
          · trivial
          · exact ⟨hf.entries t name (.scope u) hentry, (ha.entries t name u hentry).trans h.2⟩
  | finished owner => exact h

end OwnerSearch
end PullFlow.Scope
