import PullFlow.Proofs.Scope.Claims

/-!
Trees that are the same but for the places of their scopes. What is read from a scope of one is read
from its counterpart in the other. Names that flows claim in one order and in another make two such
trees, in which the homes of the flows of one name are counterparts.
-/

namespace PullFlow.Scope.Store

/-- Entries that are the same value or counterparts. -/
def Likewise (R : ScopeId → ScopeId → Prop) : Entry → Entry → Prop
  | .value v, .value v' => v = v'
  | .scope s, .scope s' => R s s'
  | _, _ => False

/-- Counterparts have counterparts above them and know the same values and counterparts by name. -/
structure Mirrors (R : ScopeId → ScopeId → Prop) (st st' : Store) : Prop where
  formed : st.Formed
  formed' : st'.Formed
  parents : ∀ s s', R s s' → Option.Rel R (st.parent? s) (st'.parent? s')
  entries : ∀ s s' name, R s s' → Option.Rel (Likewise R) (st.entry? s name) (st'.entry? s' name)

namespace Mirrors

variable {R : ScopeId → ScopeId → Prop} {st st' : Store} {s s' : ScopeId}

theorem findHead? (h : Mirrors R st st') (hs : R s s') (name : String) :
    Option.Rel (Likewise R) (st.findHead? s name) (st'.findHead? s' name) := by
  induction s using Nat.strongRecOn generalizing s' with
  | ind s ih =>
      rw [h.formed.findHead?_eq, h.formed'.findHead?_eq]
      have hentry := h.entries s s' name hs
      generalize st.entry? s name = found at hentry ⊢
      generalize st'.entry? s' name = found' at hentry ⊢
      cases hentry with
      | some hlike => exact .some hlike
      | none =>
          have hparent := h.parents s s' hs
          cases hp : st.parent? s with
          | none =>
              rw [hp] at hparent
              generalize st'.parent? s' = p' at hparent ⊢
              cases hparent
              exact .none
          | some p =>
              rw [hp] at hparent
              generalize st'.parent? s' = p' at hparent ⊢
              cases hparent with
              | some habove => exact ih p (h.formed.parents s p hp) habove

theorem findLocal? (h : Mirrors R st st') (hs : R s s') (names : List String) :
    Option.Rel (Likewise R) (st.findLocal? s names) (st'.findLocal? s' names) := by
  induction names generalizing s s' with
  | nil => exact .none
  | cons name rest ih =>
      have hentry := h.entries s s' name hs
      cases rest with
      | nil => exact hentry
      | cons next rest =>
          simp only [Store.findLocal?]
          generalize st.entry? s name = found at hentry ⊢
          generalize st'.entry? s' name = found' at hentry ⊢
          cases hentry with
          | none => exact .none
          | @some e e' hlike =>
              cases e <;> cases e'
              · exact .none
              · cases hlike
              · cases hlike
              · exact ih hlike

theorem find? (h : Mirrors R st st') (hs : R s s') (names : List String) :
    Option.Rel (Likewise R) (st.find? s names) (st'.find? s' names) := by
  cases names with
  | nil => exact .none
  | cons name rest =>
      have hhead := h.findHead? hs name
      cases rest with
      | nil => exact hhead
      | cons next rest =>
          simp only [Store.find?]
          generalize st.findHead? s name = found at hhead ⊢
          generalize st'.findHead? s' name = found' at hhead ⊢
          cases hhead with
          | none => exact .none
          | @some e e' hlike =>
              cases e <;> cases e'
              · exact .none
              · cases hlike
              · cases hlike
              · exact h.findLocal? hlike _

/-- The value of a variable is the same at counterparts, or fails in the same way. -/
theorem getValue (h : Mirrors R st st') (hs : R s s') (key : String) :
    st'.getValue s' key = st.getValue s key := by
  have hfound := h.find? hs (path key)
  simp only [Store.getValue, Store.get]
  generalize st.find? s (path key) = found at hfound ⊢
  generalize st'.find? s' (path key) = found' at hfound ⊢
  cases hfound with
  | none => rfl
  | @some e e' hlike =>
      cases e <;> cases e'
      · rw [show _ = _ from hlike]
      · cases hlike
      · cases hlike
      · rfl

end Mirrors

section Homes

variable {st st₁ st₂ : Store} {root : ScopeId} {names₁ names₂ : List String}

/-- A scope from before any claim is its own counterpart; the home of a flow is that of the home of
the flow of its name. -/
def Counterparts (st : Store) (names₁ names₂ : List String) (s s' : ScopeId) : Prop :=
  s ∈ st ∧ s' = s ∨ ∃ i j name, names₁[i]? = some name ∧ names₂[j]? = some name ∧
    s = st.nodes.length + i ∧ s' = st.nodes.length + j

theorem Counterparts.symm {s s' : ScopeId} (h : Counterparts st names₁ names₂ s s') :
    Counterparts st names₂ names₁ s' s := by
  obtain ⟨hs, rfl⟩ | ⟨i, j, name, hi, hj, rfl, rfl⟩ := h
  · exact .inl ⟨hs, rfl⟩
  · exact .inr ⟨j, i, name, hj, hi, rfl, rfl⟩

/-- An entry after the claims in one order has its counterpart after those in another. -/
theorem Claimed.entry_likewise (h₁ : Claimed st root names₁ st₁) (h₂ : Claimed st root names₂ st₂)
    (hst : Grown st) (hroot : root ∈ st) (hperm : names₁.Perm names₂) {s s' : ScopeId}
    (hs : Counterparts st names₁ names₂ s s') {key : String} {e : Entry}
    (he : st₁.entry? s key = some e) :
    ∃ e', st₂.entry? s' key = some e' ∧ Likewise (Counterparts st names₁ names₂) e e' := by
  have hout {i : Nat} : st.nodes.length + i ∉ st := Nat.not_lt.mpr (Nat.le_add_right ..)
  rw [h₁.entries] at he
  obtain ⟨hs, rfl⟩ | ⟨i, j, name, hi, hj, rfl, rfl⟩ := hs
  · obtain he | ⟨i, name, hi, howner, rfl⟩ | ⟨i, _, rfl, _⟩ := he
    · refine ⟨e, (h₂.entries s' key e).mpr (.inl he), ?_⟩
      cases e with
      | value v => rfl
      | scope t => exact .inl ⟨hst.formed.entries s' key _ he, rfl⟩
    · obtain ⟨j, hj⟩ := List.getElem?_of_mem (hperm.mem_iff.mp (List.mem_of_getElem? hi))
      exact ⟨_, (h₂.entries s' key _).mpr (.inr (.inl ⟨j, name, hj, howner, rfl⟩)),
        .inr ⟨i, j, name, hi, hj, rfl, rfl⟩⟩
    · exact absurd hs hout
  · obtain he | ⟨_, _, _, howner, _⟩ | ⟨_, _, _, rfl, rfl⟩ := he
    · exact absurd (mem_of_entry he) hout
    · exact absurd (hst.formed.owner hroot howner) hout
    · have hlt : j < names₂.length := (List.getElem?_eq_some_iff.mp hj).1
      exact ⟨.scope root, (h₂.entries _ _ _).mpr (.inr (.inr ⟨j, hlt, rfl, rfl, rfl⟩)),
        .inl ⟨hroot, rfl⟩⟩

theorem rel_of_forall {α β : Type} {R : α → β → Prop} {a : Option α} {b : Option β}
    (h : ∀ x, a = some x → ∃ y, b = some y ∧ R x y) (h' : ∀ y, b = some y → ∃ x, a = some x) :
    Option.Rel R a b := by
  cases a with
  | some x =>
      obtain ⟨y, rfl, hxy⟩ := h x rfl
      exact .some hxy
  | none =>
      cases b with
      | none => exact .none
      | some y =>
          obtain ⟨x, hx⟩ := h' y rfl
          cases hx

/-- Claims of the same names in two orders make trees that are the same but for the homes. -/
theorem Claimed.mirrors (h₁ : Claimed st root names₁ st₁) (h₂ : Claimed st root names₂ st₂)
    (hst : Grown st) (hroot : root ∈ st) (hperm : names₁.Perm names₂) :
    Mirrors (Counterparts st names₁ names₂) st₁ st₂ where
  formed := h₁.grown.formed
  formed' := h₂.grown.formed
  parents s s' hs := by
    obtain ⟨hs, rfl⟩ | ⟨i, j, name, hi, hj, rfl, rfl⟩ := hs
    · rw [h₁.parents s' hs, h₂.parents s' hs]
      cases hp : st.parent? s' with
      | none => exact .none
      | some p => exact .some (.inl ⟨Nat.lt_trans (hst.formed.parents s' p hp) hs, rfl⟩)
    · rw [h₁.homes i (List.getElem?_eq_some_iff.mp hi).1,
        h₂.homes j (List.getElem?_eq_some_iff.mp hj).1]
      exact .some (.inl ⟨hroot, rfl⟩)
  entries s s' name hs := by
    refine rel_of_forall (fun e he => h₁.entry_likewise h₂ hst hroot hperm hs he) fun e he => ?_
    obtain ⟨e', he', _⟩ := h₂.entry_likewise h₁ hst hroot hperm.symm hs.symm he
    exact ⟨e', he'⟩

end Homes
end PullFlow.Scope.Store
