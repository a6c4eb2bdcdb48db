import PullFlow.Proofs.Scope.Grown
import PullFlow.Scope.Search

/-!
A search read scope by scope against the lookup in one go: from any point a search comes, on a store
that does not change, to what the lookup finds there. Searches keep to the tree they start in, as
long as no entry leads out of its tree.
-/

namespace PullFlow.Scope

namespace Store

/-- With fuel for all scopes above, more fuel finds no further ones. -/
theorem Formed.lineageWithin {st : Store} (h : st.Formed) {s fuel : Nat} (hfuel : s < fuel) :
    st.lineageWithin fuel s = st.lineage s := by
  induction s using Nat.strongRecOn generalizing fuel with
  | ind s ih =>
      cases fuel with
      | zero => exact absurd hfuel (Nat.not_lt_zero s)
      | succ fuel =>
          simp only [lineage, Store.lineageWithin]
          cases hp : st.parent? s with
          | none => rfl
          | some p =>
              have hlt : p < s := h.parents s p hp
              have hp₁ := ih p hlt (Nat.lt_of_lt_of_le hlt (Nat.le_of_lt_succ hfuel))
              have hp₂ := ih p hlt hlt
              simp only [hp₁, hp₂]

theorem Formed.lineage_eq {st : Store} (h : st.Formed) (s : ScopeId) :
    st.lineage s = s :: match st.parent? s with
      | some p => st.lineage p
      | none => [] := by
  rw [lineage, Store.lineageWithin]
  cases hp : st.parent? s with
  | none => rfl
  | some p => simp only [h.lineageWithin (h.parents s p hp)]

/-- A lookup upwards reads one scope and goes on above it. -/
theorem Formed.findHead?_eq {st : Store} (h : st.Formed) (s : ScopeId) (name : String) :
    st.findHead? s name =
      match st.entry? s name with
      | some e => some e
      | none => (st.parent? s).bind (st.findHead? · name) := by
  simp only [findHead?, h.lineage_eq s, List.findSome?_cons]
  cases st.entry? s name with
  | some e => rfl
  | none => cases st.parent? s <;> rfl

end Store

namespace Search

/-- What a search comes to on a store that stays as it is. -/
def result (st : Store) : Search → Option Entry
  | .climb here name rest => (here.bind (st.findHead? · name)).bind (st.follow? · rest)
  | .descend here names => st.findLocal? here names
  | .finished entry => entry

theorem result_start (st : Store) (s : ScopeId) (names : List String) :
    (start s names).result st = st.find? s names := by
  cases names with
  | nil => rfl
  | cons name rest => rw [Store.find?_cons, start, result, Option.bind_some]

theorem result_follow (st : Store) (e : Entry) (names : List String) :
    (follow e names).result st = st.follow? e names := by
  cases names with
  | nil => rfl
  | cons name rest => cases e <;> rfl

theorem result_step {st : Store} (h : st.Formed) (s : Search) :
    (s.step st).result st = s.result st := by
  cases s with
  | climb here name rest =>
      cases here with
      | none => rfl
      | some s =>
          simp only [step, result, Option.bind_some, h.findHead?_eq s]
          cases st.entry? s name with
          | some e => exact result_follow st e rest
          | none => rfl
  | descend s names =>
      cases names with
      | nil => rfl
      | cons name rest =>
          simp only [step, result, Store.findLocal?_cons]
          cases st.entry? s name with
          | some e => exact result_follow st e rest
          | none => rfl
  | finished entry => rfl

theorem result_alike {st st' : Store} (h : st.Alike st') (s : Search) :
    s.result st' = s.result st := by
  cases s with
  | climb here name rest => simp only [result, h.findHead?, h.follow?]
  | descend here names => exact h.findLocal? here names
  | finished entry => rfl

end Search

namespace OwnerSearch

/-- What a search for an owner comes to on a store that stays as it is. -/
def result (st : Store) : OwnerSearch → Except Error (ScopeId × String)
  | .seek here names => st.owner here names
  | .climb here name rest =>
      match here.bind (st.findHead? · name) with
      | some (.scope t) => st.owner t rest
      | _ => .error (.undefinedKey (keyOf (name :: rest)))
  | .finished owner => owner

/-- A search for an owner gets there. -/
theorem comes_to_result {st : Store} (h : st.Formed) {P : OwnerSearch → Prop}
    (hstep : ∀ q, P (q.step st) → P q) (q : OwnerSearch) (hend : P (.finished (q.result st))) :
    P q := by
  -- Below a first name the search climbs to smaller and smaller scopes.
  have hclimb (name : String) (rest : List String)
      (hseek : ∀ s, P (.finished (st.owner s rest)) → P (.seek s rest)) (s : ScopeId)
      (hend : P (.finished ((climb (some s) name rest).result st))) : P (.climb (some s) name rest) := by
    induction s using Nat.strongRecOn with
    | ind s ih =>
        refine hstep _ ?_
        simp only [result, Option.bind_some, h.findHead?_eq s] at hend
        rw [step]
        cases hentry : st.entry? s name with
        | some e =>
            rw [hentry] at hend
            cases e with
            | value v => exact hend
            | scope t => exact hseek t hend
        | none =>
            rw [hentry] at hend
            cases hparent : st.parent? s with
            | none =>
                rw [hparent] at hend
                exact hstep _ hend
            | some p =>
                rw [hparent] at hend
                exact ih p (h.parents s p hparent) hend
  have hseek (names : List String) (s : ScopeId) (hend : P (.finished (st.owner s names))) :
      P (.seek s names) := by
    induction names generalizing s with
    | nil => exact hstep _ hend
    | cons name rest ih =>
        cases rest with
        | nil => exact hstep _ hend
        | cons next rest =>
            refine hstep _ (hclimb name (next :: rest) ih s ?_)
            rw [Store.owner] at hend
            · exact hend
            · simp
  cases q with
  | seek here names => exact hseek names here hend
  | climb here name rest =>
      cases here with
      | none => exact hstep _ hend
      | some s => exact hclimb name rest (hseek rest) s hend
  | finished owner => exact hend

end OwnerSearch
end PullFlow.Scope
