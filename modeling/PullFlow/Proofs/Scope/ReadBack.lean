import PullFlow.Proofs.Scope.Grown

/-!
Reading a key back right after it was written. The writer goes up from each scope it reaches and the
reader only from the first, so the two are compared on keys whose scope part the reader can read.
On those the reader comes to the slot written. It returns the entry unless it comes there too early:
a write can put an entry before the head of its own key, or replace a scope on its own way.
-/

namespace PullFlow.Scope.Store

theorem lineage_eq_cons (st : Store) (s : ScopeId) : ∃ above, st.lineage s = s :: above :=
  ⟨_, rfl⟩

theorem mem_looked (st : Store) (s : ScopeId) (name : String) : s ∈ st.looked s name := by
  obtain ⟨above, h⟩ := st.lineage_eq_cons s
  simp [looked, h, through]

theorem findHead?_of_local {st : Store} {s : ScopeId} {name : String} {e : Entry}
    (h : st.entry? s name = some e) : st.findHead? s name = some e := by
  obtain ⟨above, habove⟩ := st.lineage_eq_cons s
  simp [findHead?, habove, h]

/-- The owner of a path of several names lies behind the scope found under the first. -/
theorem owner_cons {st : Store} {s o : ScopeId} {name next n : String} {rest : List String}
    (h : st.owner s (name :: next :: rest) = .ok (o, n)) :
    ∃ t, st.findHead? s name = some (.scope t) ∧ st.owner t (next :: rest) = .ok (o, n) := by
  simp only [owner] at h
  rcases hhead : st.findHead? s name with _ | (v | t)
  · simp [hhead] at h
  · simp [hhead] at h
  · rw [hhead] at h
    exact ⟨t, rfl, h⟩

/-- From a scope whose entries lead to the last name but one, reader and writer go the same way. -/
theorem meetsLocal?_owner {st : Store} {t u o : ScopeId} {n : String} {names : List String}
    (ho : st.owner t names = .ok (o, n))
    (hway : st.follow? (.scope t) names.dropLast = some (.scope u)) :
    ∃ left, st.meetsLocal? o n t names = some left := by
  induction names generalizing t with
  | nil => cases ho
  | cons name rest ih =>
      cases rest with
      | nil =>
          cases ho
          exact ⟨[], by simp [meetsLocal?]⟩
      | cons next rest =>
          obtain ⟨v, hhead, hown⟩ := owner_cons ho
          rw [List.dropLast_cons_cons, follow?, findLocal?_cons] at hway
          obtain ⟨e, hentry, hfollow⟩ := Option.bind_eq_some_iff.mp hway
          have hsame : e = .scope v := by
            rw [findHead?_of_local hentry] at hhead
            exact Option.some.inj hhead
          subst hsame
          obtain ⟨left, hleft⟩ := ih hown hfollow
          simp only [meetsLocal?, hentry]
          split
          · exact ⟨_, rfl⟩
          · exact ⟨left, hleft⟩

/-- A key without a point, or one whose scope part can be read from a scope. -/
def Leads (st : Store) (s : ScopeId) (key : String) : Prop :=
  (path key).dropLast = [] ∨ ∃ u, st.find? s (path key).dropLast = some (.scope u)

/-- The lookup of such a key comes to the slot that a write of it fills. -/
theorem meets?_owner {st : Store} {s o : ScopeId} {n key : String} (hkey : st.Leads s key)
    (ho : st.owner s (path key) = .ok (o, n)) :
    ∃ left, st.meets? o n s (path key) = some left := by
  unfold Leads at hkey
  rcases hpath : path key with _ | ⟨name, _ | ⟨next, rest⟩⟩
  · rw [hpath] at ho
    cases ho
  · rw [hpath] at ho
    cases ho
    exact ⟨[], by simp [meets?, mem_looked]⟩
  · rw [hpath] at ho hkey
    obtain ⟨t, hhead, hown⟩ := owner_cons ho
    obtain hnil | ⟨u, hu⟩ := hkey
    · cases hnil
    · rw [List.dropLast_cons_cons, find?_cons, hhead] at hu
      obtain ⟨left, hleft⟩ := meetsLocal?_owner hown hu
      simp only [meets?, hhead]
      split
      · exact ⟨_, rfl⟩
      · exact ⟨left, hleft⟩

/-- Whatever lies behind several names lies in a scope behind all of them but the last. -/
theorem follow?_dropLast {st : Store} {head e : Entry} {names : List String} (hnames : names ≠ [])
    (h : st.follow? head names = some e) :
    ∃ u, st.follow? head names.dropLast = some (.scope u) := by
  induction names generalizing head with
  | nil => exact absurd rfl hnames
  | cons name rest ih =>
      cases head with
      | value v => cases h
      | scope t =>
          rw [follow?, findLocal?_cons] at h
          obtain ⟨head, hentry, hfollow⟩ := Option.bind_eq_some_iff.mp h
          cases rest with
          | nil => exact ⟨t, rfl⟩
          | cons next rest =>
              obtain ⟨u, hu⟩ := ih (List.cons_ne_nil _ _) hfollow
              refine ⟨u, ?_⟩
              rw [List.dropLast_cons_cons, follow?, findLocal?_cons, hentry]
              exact hu

/-- A key that can be read has a scope part that can be read. -/
theorem leads_of_find {st : Store} {s : ScopeId} {key : String} {e : Entry}
    (h : st.find? s (path key) = some e) : st.Leads s key := by
  unfold Leads
  rcases hpath : path key with _ | ⟨name, _ | ⟨next, rest⟩⟩
  · exact .inl rfl
  · exact .inl rfl
  · rw [hpath, find?_cons] at h
    obtain ⟨head, hhead, hfollow⟩ := Option.bind_eq_some_iff.mp h
    obtain ⟨u, hu⟩ := follow?_dropLast (List.cons_ne_nil _ _) hfollow
    refine .inr ⟨u, ?_⟩
    rw [List.dropLast_cons_cons, find?_cons, hhead]
    exact hu

/-- A write that succeeds, as a set or as a claim, puts the entry at the owner of its key. -/
theorem written_eq_put {st st' : Store} {s : ScopeId} {key : String} {e : Entry} {first : Bool}
    (h : st.set s key e first = .ok st' ∨ st.claim s key e = .ok (st', true)) :
    ∃ o n, st.owner s (path key) = .ok (o, n) ∧ st' = st.put o n e := by
  obtain hset | hclaim := h
  · obtain ⟨o, n, ho, _, hst⟩ := set_eq_ok hset
    exact ⟨o, n, ho, hst⟩
  · obtain ⟨o, n, ho, ⟨_, _, hst⟩ | ⟨hlost, _, _⟩⟩ := claim_eq_ok hclaim
    · exact ⟨o, n, ho, hst⟩
    · cases hlost

theorem get_eq_ok_iff {st : Store} {s : ScopeId} {key : String} {e : Entry} :
    st.get s key = .ok e ↔ st.find? s (path key) = some e := by
  unfold get
  cases st.find? s (path key) with
  | none => simp
  | some found => simp

/-- The lookup of a key without a point comes to the slot at its end. -/
theorem meets?_plain {st : Store} {s o : ScopeId} {n key : String} {left : List String}
    (hkey : (path key).dropLast = []) (ho : st.owner s (path key) = .ok (o, n))
    (hleft : st.meets? o n s (path key) = some left) : left = [] := by
  rcases hpath : path key with _ | ⟨name, _ | ⟨next, rest⟩⟩
  · rw [hpath] at ho
    cases ho
  · rw [hpath] at ho hleft
    cases ho
    simpa [meets?, mem_looked] using hleft.symm
  · rw [hpath] at hkey
    cases hkey

/-- What a read of a key gives right after the key was written. It returns the entry exactly if the
reader comes to the slot written and the names then left lead from the entry back to it. None are
left for a key without a point, and the reader comes to the slot by a scope part that it can
read. -/
theorem get_of_written {st st' : Store} {s : ScopeId} {key : String} {e : Entry} {first : Bool}
    (hst : Grown st) (hs : s ∈ st)
    (hw : st.set s key e first = .ok st' ∨ st.claim s key e = .ok (st', true)) :
    ∃ o n, st.owner s (path key) = .ok (o, n) ∧
      (st'.get s key = .ok e ↔
        ∃ left, st.meets? o n s (path key) = some left ∧ st'.follow? e left = some e) ∧
      ((path key).dropLast = [] → st'.get s key = .ok e) ∧
      (st.Leads s key → ∃ left, st.meets? o n s (path key) = some left) := by
  obtain ⟨o, n, ho, rfl⟩ := written_eq_put hw
  have hmem : o ∈ st := hst.formed.owner hs ho
  have hget : (st.put o n e).get s key = .ok e ↔
      ∃ left, st.meets? o n s (path key) = some left ∧ (st.put o n e).follow? e left = some e := by
    rw [get_eq_ok_iff, find?_put hmem]
    cases hmeets : st.meets? o n s (path key) with
    | some left => simp
    | none =>
        refine iff_of_false (fun hfind => ?_) (by simp)
        obtain ⟨left, hleft⟩ := meets?_owner (leads_of_find hfind) ho
        rw [hmeets] at hleft
        cases hleft
  refine ⟨o, n, ho, hget, fun hplain => ?_, fun hleads => meets?_owner hleads ho⟩
  obtain ⟨left, hleft⟩ := meets?_owner (.inl hplain) ho
  obtain rfl := meets?_plain hplain ho hleft
  exact hget.mpr ⟨[], hleft, rfl⟩

/-- A root and a scope below it that the root knows by a name. -/
def oneBelow (name : String) : Store := ((Store.empty.addRoot).1.addChild 0).1.put 0 name (.scope 1)

theorem grown_oneBelow_a : Grown (oneBelow "a") := by
  have hpair : Grown ((Store.empty.addRoot).1.addChild 0).1 := .child (.root .empty) (by decide)
  have hentry : (((Store.empty.addRoot).1.addChild 0).1).Sound (.scope 1) := by
    change (1 : ScopeId) ∈ ((Store.empty.addRoot).1.addChild 0).1
    decide
  have hset : (((Store.empty.addRoot).1.addChild 0).1).set 0 "a" (.scope 1) true =
      .ok (oneBelow "a") := by rfl
  exact .set hpair (by decide) hentry hset

/-- In the scope known as `a` further up, the key `a.b` is read back after it was written. -/
theorem get_of_written_a_b :
    Grown (oneBelow "a") ∧ (1 : ScopeId) ∈ oneBelow "a" ∧
      (oneBelow "a").set 1 "a.b" (.value .null) true =
        .ok ((oneBelow "a").put 1 "b" (.value .null)) ∧
      ((oneBelow "a").put 1 "b" (.value .null)).get 1 "a.b" = .ok (.value .null) := by
  have hset : (oneBelow "a").set 1 "a.b" (.value .null) true =
      .ok ((oneBelow "a").put 1 "b" (.value .null)) := by rfl
  refine ⟨grown_oneBelow_a, by decide, hset, ?_⟩
  obtain ⟨o, n, ho, hget, _, _⟩ := get_of_written grown_oneBelow_a (by decide) (.inl hset)
  have howner : (oneBelow "a").owner 1 (path "a.b") = .ok (1, "b") := by rfl
  rw [howner] at ho
  cases ho
  exact hget.mpr ⟨[], by rfl, rfl⟩

/-- The key `a.a` written from the same scope is gone behind the entry that the write made: that
entry is now what the head of the key stands for. -/
theorem own_head_hidden :
    ¬ ∀ (st st' : Store) (s : ScopeId) (key : String) (e : Entry) (first : Bool),
      Grown st → s ∈ st → st.Sound e →
        (st.set s key e first = .ok st' ∨ st.claim s key e = .ok (st', true)) →
          st'.get s key = .ok e := by
  intro h
  have hget := h (oneBelow "a") ((oneBelow "a").put 1 "a" (.value .null)) 1 "a.a" (.value .null)
    true grown_oneBelow_a (by decide) trivial (.inl (by rfl))
  have hundefined : ((oneBelow "a").put 1 "a" (.value .null)).get 1 "a.a" =
      .error (.undefinedKey "a.a") := by rfl
  rw [hundefined] at hget
  cases hget

end PullFlow.Scope.Store
