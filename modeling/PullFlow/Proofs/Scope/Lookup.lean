import PullFlow.Proofs.Fields
import PullFlow.Scope.Store

/-!
Lookups and writes. A lookup reads slots, each a scope and a name in it: those of its first name
upwards until one is filled, then one slot for each later name. A write fills one slot, so a lookup
after it goes as before up to that slot, if it comes to it at all, and on from the entry written.
-/

namespace PullFlow.Scope.Store

instance : Membership ScopeId Store := ⟨fun st s => s < st.nodes.length⟩

instance (st : Store) (s : ScopeId) : Decidable (s ∈ st) :=
  inferInstanceAs (Decidable (s < st.nodes.length))

/-- An entry that names no scope outside the store. -/
def Sound (st : Store) : Entry → Prop
  | .value _ => True
  | .scope t => t ∈ st

@[simp] theorem mem_update (st : Store) (o s : ScopeId) (f : Node → Node) :
    s ∈ st.update o f ↔ s ∈ st := by
  change s < (st.nodes.modify o f).length ↔ s < st.nodes.length
  rw [List.length_modify]

theorem sound_update (st : Store) (o : ScopeId) (f : Node → Node) (e : Entry) :
    (st.update o f).Sound e ↔ st.Sound e := by
  cases e with
  | value v => exact Iff.rfl
  | scope t => exact mem_update st o t f

theorem nodes_update (st : Store) (o s : ScopeId) (f : Node → Node) :
    (st.update o f).nodes[s]? = if o = s then st.nodes[s]?.map f else st.nodes[s]? := by
  simp only [update, List.getElem?_modify]
  split <;> simp

/-! Changes of a node that leave its parent, or its entries, as they are. -/

theorem parent?_update (st : Store) (o s : ScopeId) {f : Node → Node}
    (hf : ∀ node, (f node).parent = node.parent) : (st.update o f).parent? s = st.parent? s := by
  simp only [parent?, nodes_update]
  by_cases h : o = s
  · cases st.nodes[s]? <;> simp [h, hf]
  · simp [h]

theorem lineageWithin_congr {st st' : Store} (h : ∀ s, st'.parent? s = st.parent? s)
    (fuel : Nat) (s : ScopeId) : st'.lineageWithin fuel s = st.lineageWithin fuel s := by
  induction fuel generalizing s with
  | zero => rfl
  | succ fuel ih =>
      simp only [lineageWithin, h]
      cases st.parent? s with
      | none => rfl
      | some p => simp only [ih]

theorem lineage_update (st : Store) (o s : ScopeId) {f : Node → Node}
    (hf : ∀ node, (f node).parent = node.parent) : (st.update o f).lineage s = st.lineage s :=
  lineageWithin_congr (fun s => parent?_update st o s hf) (s + 1) s

theorem entry?_update (st : Store) (o s : ScopeId) (name : String) {f : Node → Node}
    (hf : ∀ node, (f node).entries = node.entries) :
    Store.entry? (st.update o f) s name = st.entry? s name := by
  simp only [Store.entry?, entries, nodes_update]
  by_cases h : o = s
  · cases st.nodes[s]? <;> simp [h, hf]
  · simp [h]

theorem rootOf_update (st : Store) (o s : ScopeId) {f : Node → Node}
    (hf : ∀ node, (f node).root = node.root) : (st.update o f).rootOf s = st.rootOf s := by
  simp only [rootOf, nodes_update]
  by_cases h : o = s
  · cases st.nodes[s]? <;> simp [h, hf]
  · simp [h]

theorem isClosed_update (st : Store) (o s : ScopeId) {f : Node → Node}
    (hf : ∀ node, (f node).closed = node.closed) : (st.update o f).isClosed s = st.isClosed s := by
  simp only [isClosed, nodes_update]
  by_cases h : o = s
  · cases st.nodes[s]? <;> simp [h, hf]
  · simp [h]

/-! A close. -/

theorem isClosed_close {st : Store} {s : ScopeId} (hs : s ∈ st) : (st.close s).isClosed s = true := by
  have hlen : s < st.nodes.length := hs
  simp only [isClosed, close, nodes_update, if_true, List.getElem?_eq_getElem hlen, Option.map_some]

theorem mem_append {st : Store} {node : Node} {s : ScopeId} (h : s ∈ st) :
    s ∈ (⟨st.nodes ++ [node]⟩ : Store) := by
  change s < (st.nodes ++ [node]).length
  rw [List.length_append]
  exact Nat.lt_add_right _ h

theorem mem_addChild {st : Store} {s parent : ScopeId} (h : s ∈ st) : s ∈ (st.addChild parent).1 :=
  mem_append h

theorem mem_addChild_self (st : Store) (parent : ScopeId) :
    (st.addChild parent).2 ∈ (st.addChild parent).1 := by
  change st.nodes.length < (st.nodes ++ [_]).length
  simp

/-- Scopes are still there, and those that were closed still are. -/
structure Lasts (st st' : Store) : Prop where
  mem : ∀ s, s ∈ st → s ∈ st'
  closed : ∀ s, st.isClosed s = true → st'.isClosed s = true

namespace Lasts

theorem refl (st : Store) : st.Lasts st := ⟨fun _ h => h, fun _ h => h⟩

theorem trans {st st' st'' : Store} (h : st.Lasts st') (h' : st'.Lasts st'') : st.Lasts st'' :=
  ⟨fun s hs => h'.mem s (h.mem s hs), fun s hs => h'.closed s (h.closed s hs)⟩

/-- A change of a scope that does not open it. -/
theorem update (st : Store) (o : ScopeId) {f : Node → Node}
    (hf : ∀ node, node.closed = true → (f node).closed = true) : st.Lasts (st.update o f) := by
  refine ⟨fun s hs => (mem_update st o s f).mpr hs, fun s hs => ?_⟩
  simp only [isClosed, nodes_update] at hs ⊢
  by_cases h : o = s
  · rw [if_pos h]
    cases hnode : st.nodes[s]? with
    | none => simp [hnode] at hs
    | some node =>
        rw [hnode] at hs
        exact hf node hs
  · rw [if_neg h]
    exact hs

theorem addChild (st : Store) (parent : ScopeId) : st.Lasts (st.addChild parent).1 := by
  refine ⟨fun s => mem_addChild, fun s hs => ?_⟩
  simp only [isClosed] at hs ⊢
  cases hnode : st.nodes[s]? with
  | none => simp [hnode] at hs
  | some node =>
      have hlen : s < st.nodes.length := (List.getElem?_eq_some_iff.mp hnode).1
      simp only [hnode] at hs
      simpa only [Store.addChild, List.getElem?_append_left hlen, hnode] using hs

end Lasts

/-! A write. -/

@[simp] theorem mem_put (st : Store) (o s : ScopeId) (n : String) (e : Entry) :
    s ∈ st.put o n e ↔ s ∈ st :=
  mem_update st o s _

@[simp] theorem parent?_put (st : Store) (o s : ScopeId) (n : String) (e : Entry) :
    (st.put o n e).parent? s = st.parent? s :=
  parent?_update st o s fun _ => rfl

@[simp] theorem lineage_put (st : Store) (o s : ScopeId) (n : String) (e : Entry) :
    (st.put o n e).lineage s = st.lineage s :=
  lineage_update st o s fun _ => rfl

@[simp] theorem rootOf_put (st : Store) (o s : ScopeId) (n : String) (e : Entry) :
    (st.put o n e).rootOf s = st.rootOf s :=
  rootOf_update st o s fun _ => rfl

@[simp] theorem isClosed_put (st : Store) (o s : ScopeId) (n : String) (e : Entry) :
    (st.put o n e).isClosed s = st.isClosed s :=
  isClosed_update st o s fun _ => rfl

theorem entry?_put {st : Store} {o : ScopeId} (ho : o ∈ st) (n : String) (e : Entry)
    (s : ScopeId) (name : String) :
    Store.entry? (st.put o n e) s name = if s = o ∧ name = n then some e else st.entry? s name := by
  have hlen : o < st.nodes.length := ho
  simp only [Store.entry?, entries, put, nodes_update]
  by_cases hs : s = o
  · subst hs
    simp [List.getElem?_eq_getElem hlen, Fields.get?_put]
  · simp [hs, Ne.symm hs]

/-- The items of a list up to the first that passes a test, that one included. -/
def through {α : Type} (p : α → Bool) : List α → List α
  | [] => []
  | a :: rest => a :: if p a then [] else through p rest

theorem mem_of_mem_through {α : Type} {p : α → Bool} {items : List α} {a : α}
    (h : a ∈ through p items) : a ∈ items := by
  induction items with
  | nil => cases h
  | cons b rest ih =>
      simp only [through, List.mem_cons] at h ⊢
      obtain rfl | h := h
      · exact .inl rfl
      · split at h
        · cases h
        · exact .inr (ih h)

/-- The scopes in which a lookup upwards reads a name. -/
def looked (st : Store) (s : ScopeId) (name : String) : List ScopeId :=
  through (fun x => (st.entry? x name).isSome) (st.lineage s)

theorem findSome?_put {st : Store} {o : ScopeId} (ho : o ∈ st) (n : String) (e : Entry)
    (scopes : List ScopeId) :
    scopes.findSome? (fun x => Store.entry? (st.put o n e) x n) =
      if o ∈ through (fun x => (st.entry? x n).isSome) scopes then some e
      else scopes.findSome? (st.entry? · n) := by
  induction scopes with
  | nil => rfl
  | cons x rest ih =>
      by_cases hx : x = o
      · subst hx
        simp [through, entry?_put ho]
      · have hother : Store.entry? (st.put o n e) x n = st.entry? x n := by simp [entry?_put ho, hx]
        cases hentry : st.entry? x n with
        | some found => simp [through, hother, hentry, Ne.symm hx]
        | none => simp [through, hother, hentry, Ne.symm hx, ih]

theorem findHead?_put {st : Store} {o : ScopeId} (ho : o ∈ st) (n : String) (e : Entry)
    (s : ScopeId) (name : String) :
    (st.put o n e).findHead? s name =
      if name = n ∧ o ∈ st.looked s name then some e else st.findHead? s name := by
  by_cases hname : name = n
  · subst hname
    simp only [findHead?, lineage_put, looked, true_and]
    exact findSome?_put ho name e (st.lineage s)
  · simp only [hname, false_and, if_false, findHead?, lineage_put]
    congr 1
    funext x
    simp [entry?_put ho, hname]

/-- Goes on from an entry with the names left. -/
def follow? (st : Store) (e : Entry) : List String → Option Entry
  | [] => some e
  | name :: rest =>
      match e with
      | .scope t => st.findLocal? t (name :: rest)
      | .value _ => none

theorem findLocal?_cons (st : Store) (s : ScopeId) (name : String) (rest : List String) :
    st.findLocal? s (name :: rest) = (st.entry? s name).bind (st.follow? · rest) := by
  cases rest with
  | nil =>
      simp only [findLocal?]
      cases st.entry? s name <;> rfl
  | cons next rest =>
      simp only [findLocal?]
      rcases st.entry? s name with _ | (v | t) <;> rfl

theorem find?_cons (st : Store) (s : ScopeId) (name : String) (rest : List String) :
    st.find? s (name :: rest) = (st.findHead? s name).bind (st.follow? · rest) := by
  cases rest with
  | nil =>
      simp only [find?]
      cases st.findHead? s name <;> rfl
  | cons next rest =>
      simp only [find?]
      rcases st.findHead? s name with _ | (v | t) <;> rfl

/-- The names left when the lookup of a path in a scope itself first comes to a slot. -/
def meetsLocal? (st : Store) (o : ScopeId) (n : String) : ScopeId → List String →
    Option (List String)
  | _, [] => none
  | s, name :: rest =>
      if s = o ∧ name = n then some rest
      else
        match st.entry? s name with
        | some (.scope t) => meetsLocal? st o n t rest
        | _ => none

/-- The names left when the lookup of a path first comes to a slot; none if it never does. -/
def meets? (st : Store) (o : ScopeId) (n : String) (s : ScopeId) : List String →
    Option (List String)
  | [] => none
  | name :: rest =>
      if name = n ∧ o ∈ st.looked s name then some rest
      else
        match st.findHead? s name with
        | some (.scope t) => meetsLocal? st o n t rest
        | _ => none

theorem findLocal?_put {st : Store} {o : ScopeId} (ho : o ∈ st) (n : String) (e : Entry)
    (s : ScopeId) (names : List String) :
    (st.put o n e).findLocal? s names =
      match st.meetsLocal? o n s names with
      | some left => (st.put o n e).follow? e left
      | none => st.findLocal? s names := by
  induction names generalizing s with
  | nil => rfl
  | cons name rest ih =>
      rw [findLocal?_cons, entry?_put ho, meetsLocal?]
      split
      · rfl
      · rw [findLocal?_cons]
        rcases st.entry? s name with _ | (v | t)
        · rfl
        · cases rest <;> rfl
        · cases rest with
          | nil => rfl
          | cons next rest => exact ih t

/-- A lookup after a write goes as before up to the slot written and on from the entry. -/
theorem find?_put {st : Store} {o : ScopeId} (ho : o ∈ st) (n : String) (e : Entry)
    (s : ScopeId) (names : List String) :
    (st.put o n e).find? s names =
      match st.meets? o n s names with
      | some left => (st.put o n e).follow? e left
      | none => st.find? s names := by
  cases names with
  | nil => rfl
  | cons name rest =>
      rw [find?_cons, findHead?_put ho, meets?]
      split
      · rfl
      · rw [find?_cons]
        rcases st.findHead? s name with _ | (v | t)
        · rfl
        · cases rest <;> rfl
        · cases rest with
          | nil => rfl
          | cons next rest => exact findLocal?_put ho n e t (next :: rest)

/-- Stores with the same scopes in the same places, and the same entries. Which of them are closed,
and who is at a gate, may differ. -/
structure Alike (st st' : Store) : Prop where
  members : ∀ s, s ∈ st' ↔ s ∈ st
  roots : ∀ s, st'.rootOf s = st.rootOf s
  parents : ∀ s, st'.parent? s = st.parent? s
  entries : ∀ s name, st'.entry? s name = st.entry? s name

theorem Alike.refl (st : Store) : st.Alike st :=
  ⟨fun _ => Iff.rfl, fun _ => rfl, fun _ => rfl, fun _ _ => rfl⟩

theorem alike_update (st : Store) (o : ScopeId) {f : Node → Node}
    (hparent : ∀ node, (f node).parent = node.parent) (hroot : ∀ node, (f node).root = node.root)
    (hentries : ∀ node, (f node).entries = node.entries) : st.Alike (st.update o f) :=
  ⟨fun s => mem_update st o s f, fun s => rootOf_update st o s hroot,
    fun s => parent?_update st o s hparent, fun s name => entry?_update st o s name hentries⟩

theorem alike_close (st : Store) (o : ScopeId) : st.Alike (st.close o) :=
  alike_update st o (fun _ => rfl) (fun _ => rfl) (fun _ => rfl)

namespace Alike

variable {st st' : Store}

theorem findHead? (h : st.Alike st') (s : ScopeId) (name : String) :
    st'.findHead? s name = st.findHead? s name := by
  have hlineage : st'.lineage s = st.lineage s := lineageWithin_congr h.parents (s + 1) s
  simp only [Store.findHead?, hlineage, h.entries]

theorem findLocal? (h : st.Alike st') (s : ScopeId) (names : List String) :
    st'.findLocal? s names = st.findLocal? s names := by
  induction names generalizing s with
  | nil => rfl
  | cons name rest ih =>
      simp only [findLocal?_cons, h.entries]
      cases st.entry? s name with
      | none => rfl
      | some e => cases rest <;> cases e <;> first | rfl | exact ih _

theorem follow? (h : st.Alike st') (e : Entry) (names : List String) :
    st'.follow? e names = st.follow? e names := by
  cases names with
  | nil => rfl
  | cons name rest =>
      cases e with
      | value v => rfl
      | scope t => exact h.findLocal? t (name :: rest)

theorem find? (h : st.Alike st') (s : ScopeId) (names : List String) :
    st'.find? s names = st.find? s names := by
  cases names with
  | nil => rfl
  | cons name rest => simp only [find?_cons, h.findHead?, h.follow?]

theorem sound (h : st.Alike st') (e : Entry) : st'.Sound e ↔ st.Sound e := by
  cases e with
  | value v => exact Iff.rfl
  | scope t => exact h.members t

end Alike

end PullFlow.Scope.Store
