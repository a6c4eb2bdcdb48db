import Mathlib.Logic.Relation
import PullFlow.Proofs.Scope.Claims
import PullFlow.Proofs.Scope.Filled

/-!
Who sees a change of a scope. A name without a point is written in the scope itself and looked for
upwards only, so a change under such a name is of no account to a scope that does not descend from
the one changed. To one that does it shows under that name only, and only if no scope on the way up
has an entry of its own for it. Scopes of one parent, as flows have them, do not descend from each
other.
-/

namespace PullFlow.Scope.Store

variable {st st' : Store} {s t u p : ScopeId} {key name : String}

/-- A scope is another one or descends from it. -/
def Descends (st : Store) : ScopeId → ScopeId → Prop :=
  Relation.ReflTransGen fun a b => st.parent? a = some b

namespace Descends

/-- Up through the parent, or no way at all. -/
theorem iff_parent : st.Descends t s ↔ t = s ∨ ∃ p, st.parent? t = some p ∧ st.Descends p s := by
  rw [Descends, Relation.ReflTransGen.cases_head_iff]

theorem le (h : st.Descends t s) (hst : st.Formed) : s ≤ t := by
  induction h with
  | refl => exact Nat.le_refl t
  | tail _ hparent ih => exact Nat.le_trans (Nat.le_of_lt (hst.parents _ _ hparent)) ih

/-- Scopes of one parent do not descend from each other. -/
theorem eq_of_peers (h : st.Descends t s) (hst : st.Formed) (hs : st.parent? s = some p)
    (ht : st.parent? t = some p) : t = s := by
  obtain hsame | ⟨q, hq, habove⟩ := iff_parent.mp h
  · exact hsame
  · obtain rfl : p = q := Option.some.inj (ht.symm.trans hq)
    exact absurd (habove.le hst) (Nat.not_le.mpr (hst.parents s p hs))

end Descends

theorem Formed.mem_lineage_iff (h : st.Formed) : s ∈ st.lineage t ↔ st.Descends t s := by
  induction t using Nat.strongRecOn with
  | ind t ih =>
      rw [h.lineage_eq, Descends.iff_parent, List.mem_cons, eq_comm]
      cases hparent : st.parent? t with
      | none => simp
      | some p => simp [ih p (h.parents t p hparent)]

/-- No scope from one up to another, the latter left out, has an entry for a name. -/
def Unhidden (st : Store) (t s : ScopeId) (name : String) : Prop :=
  ∀ u, st.Descends t u → st.Descends u s → u ≠ s → st.entry? u name = none

/-- The scopes that a lookup upwards reads are those whose entry would show. -/
theorem Formed.unhidden_of_mem_looked (h : st.Formed) (hs : s ∈ st.looked t name) :
    st.Unhidden t s name := by
  induction t using Nat.strongRecOn with
  | ind t ih =>
      intro u htu hus hne
      rw [looked, h.lineage_eq, through, List.mem_cons] at hs
      obtain rfl | hs := hs
      · exact absurd (Nat.le_antisymm (htu.le h) (hus.le h)) hne
      · split at hs
        · cases hs
        · next hnone =>
          obtain rfl | ⟨q, hq, habove⟩ := Descends.iff_parent.mp htu
          · simpa using hnone
          · rw [hq] at hs
            exact ih q (h.parents t q hq) hs u habove hus hne

/-! Changes under a name without a point. -/

/-- What is done to a scope, under a key if it is a write. -/
inductive Change where
  | set (e : Entry) (first : Bool)
  | claim (e : Entry)
  | close

/-- The store after a change. One that is refused leaves it as it was. -/
def Change.apply (change : Change) (st : Store) (s : ScopeId) (key : String) : Store :=
  match change with
  | .set e first =>
      match st.set s key e first with
      | .ok st' => st'
      | .error _ => st
  | .claim e =>
      match st.claim s key e with
      | .ok (st', _) => st'
      | .error _ => st
  | .close => st.close s

/-- The store after changes of one scope, each under a key of its own. -/
def changed (st : Store) (s : ScopeId) (changes : List (String × Change)) : Store :=
  changes.foldl (fun st change => change.2.apply st s change.1) st

theorem owner_of_plain (hkey : Plain key) : st.owner s (path key) = .ok (s, key) := by
  rw [path_of_plain hkey, owner]

namespace Change

/-- A change leaves all entries or puts one under its key into its scope. -/
theorem apply_plain (change : Change) (hkey : Plain key) (st : Store) (s : ScopeId) :
    st.Alike (change.apply st s key) ∨ ∃ e, change.apply st s key = st.put s key e := by
  cases change with
  | set e first =>
      rw [apply]
      split
      · next st' hset =>
        obtain ⟨o, n, ho, _, rfl⟩ := set_eq_ok hset
        cases (owner_of_plain hkey).symm.trans ho
        exact .inr ⟨e, rfl⟩
      · exact .inl (.refl st)
  | claim e =>
      rw [apply]
      split
      · next st' won hclaim =>
        obtain ⟨o, n, ho, ⟨_, _, rfl⟩ | ⟨_, _, rfl⟩⟩ := claim_eq_ok hclaim
        · cases (owner_of_plain hkey).symm.trans ho
          exact .inr ⟨e, rfl⟩
        · exact .inl (.refl _)
      · exact .inl (.refl st)
  | close => exact .inl (alike_close st s)

theorem lineage_apply (change : Change) (hkey : Plain key) :
    (change.apply st s key).lineage t = st.lineage t := by
  obtain halike | ⟨e, hput⟩ := change.apply_plain hkey st s
  · exact lineageWithin_congr halike.parents (t + 1) t
  · rw [hput, lineage_put]

/-- What a change makes of a lookup upwards: nothing, unless it goes for the same name and comes to
the scope changed. -/
theorem findHead?_apply (change : Change) (hkey : Plain key)
    (hdiffers : (change.apply st s key).findHead? t name ≠ st.findHead? t name) :
    name = key ∧ s ∈ st.looked t name := by
  obtain halike | ⟨e, hput⟩ := change.apply_plain hkey st s
  · exact absurd (halike.findHead? t name) hdiffers
  · by_cases hs : s ∈ st
    · rw [hput, findHead?_put hs] at hdiffers
      by_contra hother
      exact hdiffers (if_neg hother)
    · rw [hput, put_of_not_mem hs] at hdiffers
      exact absurd rfl hdiffers

theorem findHead?_apply_of_not_mem (change : Change) (hkey : Plain key) (hs : s ∉ st.lineage t) :
    (change.apply st s key).findHead? t name = st.findHead? t name := by
  by_contra hdiffers
  exact hs (mem_of_mem_through (change.findHead?_apply hkey hdiffers).2)

end Change

theorem findHead?_changed {changes : List (String × Change)} (hkeys : ∀ c ∈ changes, Plain c.1)
    (hs : s ∉ st.lineage t) : (st.changed s changes).findHead? t name = st.findHead? t name := by
  induction changes generalizing st with
  | nil => rfl
  | cons change rest ih =>
      obtain ⟨hkey, hrest⟩ := List.forall_mem_cons.mp hkeys
      have hnext : s ∉ (change.2.apply st s change.1).lineage t := by
        rwa [change.2.lineage_apply hkey]
      exact (ih hrest hnext).trans (change.2.findHead?_apply_of_not_mem hkey hs)

/-- What a scope finds under the names without a point, read or asked for. -/
def SeesSame (st st' : Store) (t : ScopeId) (name : String) : Prop :=
  st'.get t name = st.get t name ∧ st'.has t name = st.has t name

theorem seesSame_of_plain (hname : Plain name)
    (h : st'.findHead? t name = st.findHead? t name) : st.SeesSame st' t name := by
  have hfind : st'.find? t (path name) = st.find? t (path name) := by
    rw [path_of_plain hname]
    exact h
  constructor
  · simp only [get, hfind]
  · simp only [has, hfind]

/-- Nothing that is done to one child of a scope shows in another. -/
theorem Formed.seesSame_of_peers {a b : ScopeId} (hst : st.Formed) (ha : st.parent? a = some p)
    (hb : st.parent? b = some p) (hne : a ≠ b) {changes : List (String × Change)}
    (hkeys : ∀ c ∈ changes, Plain c.1) (hname : Plain name) :
    st.SeesSame (st.changed a changes) b name := by
  have hapart : a ∉ st.lineage b := fun hmem =>
    hne ((hst.mem_lineage_iff.mp hmem).eq_of_peers hst ha hb).symm
  exact seesSame_of_plain hname (findHead?_changed hkeys hapart)

/-- The homes of flows are children of one root. -/
theorem Claimed.seesSame {root : ScopeId} {names : List String} (h : Claimed st root names st')
    {i j : Nat} (hi : i < names.length) (hj : j < names.length) (hne : i ≠ j)
    {changes : List (String × Change)} (hkeys : ∀ c ∈ changes, Plain c.1) (hname : Plain name) :
    st'.SeesSame (st'.changed (st.nodes.length + i) changes) (st.nodes.length + j) name :=
  h.grown.formed.seesSame_of_peers (h.homes i hi) (h.homes j hj)
    (fun hsame => hne (Nat.add_left_cancel hsame)) hkeys hname

/-- A change of a scope under a name without a point. A scope that does not descend from it finds
everything as before. One that does, itself included, finds everything as before but for that name,
and that as well if a scope in between has an entry of its own for it. So whatever is done to one
child of a scope under such names, one change after the other, does not show in another child. -/
theorem plain_change_isolated (hst : Grown st) (hkey : Plain key) (change : Change) :
    (∀ t, ¬ st.Descends t s → ∀ name, Plain name → st.SeesSame (change.apply st s key) t name) ∧
      (∀ t, st.Descends t s → ∀ name, Plain name →
        ¬ st.SeesSame (change.apply st s key) t name → name = key ∧ st.Unhidden t s key) ∧
      ∀ p a b, st.parent? a = some p → st.parent? b = some p → a ≠ b →
        ∀ changes : List (String × Change), (∀ c ∈ changes, Plain c.1) →
          ∀ name, Plain name → st.SeesSame (st.changed a changes) b name := by
  have hformed := hst.formed
  refine ⟨fun t ht name hname => ?_, fun t _ name hname hdiffers => ?_,
    fun p a b ha hb hne changes hkeys name hname => ?_⟩
  · exact seesSame_of_plain hname
      (change.findHead?_apply_of_not_mem hkey (mt hformed.mem_lineage_iff.mp ht))
  · obtain ⟨rfl, hlooked⟩ := change.findHead?_apply hkey (mt (seesSame_of_plain hname) hdiffers)
    exact ⟨rfl, hformed.unhidden_of_mem_looked hlooked⟩
  · exact hformed.seesSame_of_peers ha hb hne hkeys hname

/-- A root with two scopes below it. -/
def siblings : Store := (((Store.empty.addRoot).1.addChild 0).1.addChild 0).1

theorem grown_siblings : Grown siblings :=
  .child (.child (.root .empty) (by decide)) (by decide)

/-- The name `x` written in the one is there for itself, and not for the other. -/
theorem plain_change_isolated_x :
    Grown siblings ∧ Plain "x" ∧
      siblings.SeesSame ((Change.set (.value .null) false).apply siblings 1 "x") 2 "x" ∧
      ¬ siblings.SeesSame ((Change.set (.value .null) false).apply siblings 1 "x") 1 "x" := by
  have hplain : Plain "x" := by decide +kernel
  have hapart : ¬ siblings.Descends 2 1 := fun h =>
    absurd (h.eq_of_peers grown_siblings.formed rfl rfl) (by decide)
  refine ⟨grown_siblings, hplain, ?_, fun hsame => ?_⟩
  · exact (plain_change_isolated grown_siblings hplain (.set (.value .null) false)).1 2 hapart "x"
      hplain
  · have hread : ((Change.set (.value .null) false).apply siblings 1 "x").get 1 "x" =
        .ok (.value .null) := by rfl
    cases hread.symm.trans hsame.1

end PullFlow.Scope.Store
