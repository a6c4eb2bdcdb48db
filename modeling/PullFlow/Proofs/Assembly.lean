import PullFlow.Assembly
import PullFlow.Proofs.Fields
import Mathlib.Data.List.Forall2
import Mathlib.Data.List.Nodup

/-!
What a set of flows is made of: one flow for each draft, in order, under its own name or a fresh
one, and a directory that knows each of them by that name and no other.
-/

namespace PullFlow

/-- A list is made item by item, or not at all. -/
theorem mapM_eq_ok {α β : Type} {f : α → Except Error β} {as : List α} {bs : List β} :
    as.mapM f = .ok bs ↔ List.Forall₂ (fun a b => f a = .ok b) as bs := by
  induction as generalizing bs with
  | nil => cases bs <;> simp [pure, Except.pure]
  | cons a as ih =>
      rw [List.mapM_cons]
      cases ha : f a with
      | error e => cases bs <;> simp [bind, Except.bind, ha]
      | ok b =>
          cases has : as.mapM f with
          | error e => cases bs <;> simp [bind, Except.bind, ← ih, has, ha]
          | ok rest => cases bs <;> simp [bind, Except.bind, pure, Except.pure, ← ih, has, ha]

theorem mapM_isOk_iff {α β : Type} {f : α → Except Error β} {as : List α} :
    (∃ bs, as.mapM f = .ok bs) ↔ ∀ a ∈ as, ∃ b, f a = .ok b := by
  constructor
  · rintro ⟨bs, h⟩ a ha
    have hmade := mapM_eq_ok.mp h
    obtain ⟨i, hi, rfl⟩ := List.getElem_of_mem ha
    exact ⟨_, hmade.get hi (hmade.length_eq ▸ hi)⟩
  · intro h
    induction as with
    | nil => exact ⟨[], rfl⟩
    | cons a as ih =>
        obtain ⟨⟨b, hb⟩, has⟩ := List.forall_mem_cons.mp h
        obtain ⟨bs, hbs⟩ := ih has
        exact ⟨b :: bs, mapM_eq_ok.mpr (.cons hb (mapM_eq_ok.mp hbs))⟩

/-- An optional part is made if there is one. -/
theorem mapM_option_eq_ok {α β : Type} {f : α → Except Error β} {a : Option α} {b : Option β} :
    a.mapM f = .ok b ↔ (a = none ∧ b = none) ∨ ∃ x y, a = some x ∧ b = some y ∧ f x = .ok y := by
  cases a with
  | none => cases b <;> simp [pure, Except.pure]
  | some x =>
      cases hx : f x with
      | error e => cases b <;> simp [Functor.map, Except.map, hx]
      | ok y => cases b <;> simp [Functor.map, Except.map, hx]

namespace FlowDraft

/-- The flow that the parts make under a name, if it is one that can be. -/
def cell (p : FlowDraft) (name : String) (fed : Bool) : Engine.FlowCell :=
  { name := name, state := .init
    pipeline := ⟨.make (p.chooseSource fed) p.operators, p.chooseSink⟩
    holder := none, scope := none, parked := some (p.chooseMonitor p.chooseSink).1
    monitorKind := (p.chooseMonitor p.chooseSink).1.kind
    threaded := (p.chooseMonitor p.chooseSink).1.body.threaded
    callable := (p.chooseMonitor p.chooseSink).1.body.callable
    sinkDriven := (p.chooseMonitor p.chooseSink).2, stopped := false, released := false
    thread := none, inbox := [], outbox := [] }

/-- A flow that can be called takes its payloads from its callers and keeps what comes of them. -/
theorem assemble_eq_ok {p : FlowDraft} {name : String} {fed : Bool} {made : Engine.FlowCell} :
    p.assemble name fed = .ok made ↔ made = p.cell name fed ∧
      (made.callable = true → (p.chooseSource fed).kind = injectedKind ∧ p.chooseSink.kind = "none") := by
  unfold assemble
  dsimp only
  split
  · next hshape =>
    simp only [Bool.and_eq_true, Bool.or_eq_true, bne_iff_ne, ne_eq] at hshape
    constructor
    · exact fun h => nomatch h
    · rintro ⟨rfl, hcallable⟩
      obtain ⟨hsource, hsink⟩ := hcallable hshape.1
      exact absurd hshape.2 (by simp [hsource, hsink])
  · next hshape =>
    simp only [Bool.and_eq_true, Bool.or_eq_true, bne_iff_ne, ne_eq, not_and, not_or,
      not_not] at hshape
    constructor
    · intro h
      cases h
      exact ⟨rfl, hshape⟩
    · rintro ⟨rfl, _⟩
      rfl

/-- A flow can be called exactly if its own monitor says so. -/
theorem callable_cell (p : FlowDraft) (name : String) (fed : Bool) :
    (p.cell name fed).callable = p.callable := by
  unfold cell callable chooseMonitor
  cases p.monitor with
  | some m => rfl
  | none =>
      dsimp only
      split <;> rfl

theorem operators_cell (p : FlowDraft) (name : String) (fed : Bool) :
    (p.cell name fed).pipeline.chain.operators = p.operators := by
  simp [cell, Chain.make, Chain.operators]

theorem ofFlow_eq_ok {r : Registry} {f : Blueprint.Flow} {p : FlowDraft} :
    ofFlow r f = .ok p ↔ p.name = f.name ∧ f.source.mapM r.buildSource = .ok p.source ∧
      f.operators.mapM r.buildLink = .ok p.operators ∧ f.sink.mapM r.buildSink = .ok p.sink ∧
      f.monitor.mapM r.buildMonitor = .ok p.monitor := by
  unfold ofFlow
  obtain ⟨name, source, operators, sink, monitor⟩ := p
  cases f.source.mapM r.buildSource <;> cases f.operators.mapM r.buildLink <;>
    cases f.sink.mapM r.buildSink <;> cases f.monitor.mapM r.buildMonitor <;>
    simp [bind, Except.bind, pure, Except.pure, eq_comm]

end FlowDraft

namespace Engine

variable {fresh : Nat → String} {targets : List String}

/-- The name of a draft at a position. -/
def draftName (fresh : Nat → String) (position : Nat) (p : FlowDraft) : String :=
  p.name.getD (fresh position)

/-- One flow for each draft, and a directory of all of them beside those that were in it. -/
structure Assembled (fresh : Nat → String) (targets : List String) (position : Nat)
    (before : Directory) (drafts : List FlowDraft) (cells : List FlowCell) (after : Directory) :
    Prop where
  length : cells.length = drafts.length
  made : ∀ i (p : FlowDraft) cell, drafts[i]? = some p → cells[i]? = some cell →
    p.assemble (draftName fresh (position + i) p) (p.name.any targets.contains) = .ok cell
  entered : ∀ i cell, cells[i]? = some cell → Fields.get? cell.name before = none ∧
    Fields.get? cell.name after = some ⟨position + i, cell.callable⟩
  kept : ∀ name peer, Fields.get? name before = some peer → Fields.get? name after = some peer
  known : ∀ name peer, Fields.get? name after = some peer → Fields.get? name before = some peer ∨
    ∃ i cell, cells[i]? = some cell ∧ cell.name = name ∧ peer = ⟨position + i, cell.callable⟩

theorem name_of_assemble {p : FlowDraft} {name : String} {fed : Bool} {cell : FlowCell}
    (h : p.assemble name fed = .ok cell) : cell.name = name := by
  obtain ⟨rfl, _⟩ := FlowDraft.assemble_eq_ok.mp h
  rfl

/-- A flow that is put first takes its place in the directory before the others. -/
theorem Assembled.cons {position : Nat} {before after : Directory} {p : FlowDraft}
    {drafts : List FlowDraft} {cell : FlowCell} {cells : List FlowCell}
    (hcell : p.assemble (draftName fresh position p) (p.name.any targets.contains) = .ok cell)
    (hfree : Fields.get? cell.name before = none)
    (hrest : Assembled fresh targets (position + 1)
      (Fields.put cell.name ⟨position, cell.callable⟩ before) drafts cells after) :
    Assembled fresh targets position before (p :: drafts) (cell :: cells) after := by
  have hshift (i : Nat) : position + 1 + i = position + (i + 1) := by omega
  constructor
  · simp [hrest.length]
  · rintro (_ | i) q other hq hother
    · cases hq
      cases hother
      exact hcell
    · rw [← hshift]
      exact hrest.made i q other hq hother
  · rintro (_ | i) other hother
    · cases hother
      refine ⟨hfree, hrest.kept _ _ ?_⟩
      rw [Fields.get?_put, if_pos rfl]
      rfl
    · obtain ⟨hbefore, hafter⟩ := hrest.entered i other hother
      rw [Fields.get?_put] at hbefore
      split at hbefore
      · cases hbefore
      · exact ⟨hbefore, hshift i ▸ hafter⟩
  · intro name peer hpeer
    refine hrest.kept name peer ?_
    rw [Fields.get?_put]
    split
    · next hname =>
      rw [hname, hfree] at hpeer
      cases hpeer
    · exact hpeer
  · intro name peer hpeer
    obtain hput | ⟨i, other, hother, hname, rfl⟩ := hrest.known name peer hpeer
    · rw [Fields.get?_put] at hput
      split at hput
      · next hname =>
        cases hput
        exact .inr ⟨0, cell, rfl, hname.symm, rfl⟩
      · exact .inl hput
    · exact .inr ⟨i + 1, other, hother, hname, by rw [hshift]⟩

theorem assembled_of_assembleFlows {drafts : List FlowDraft} {position : Nat}
    {before after : Directory} {cells : List FlowCell}
    (h : assembleFlows fresh targets position before drafts = .ok (cells, after)) :
    Assembled fresh targets position before drafts cells after := by
  induction drafts generalizing position before cells with
  | nil =>
      cases h
      exact ⟨rfl, fun i p cell hp => by simp at hp, fun i cell hcell => by simp at hcell,
        fun _ _ => id, fun name peer hpeer => .inl hpeer⟩
  | cons p drafts ih =>
      rw [assembleFlows] at h
      cases hcell : p.assemble (draftName fresh position p) (p.name.any targets.contains) with
      | error e =>
          rw [draftName] at hcell
          simp only [hcell, bind, Except.bind] at h
          cases h
      | ok cell =>
          have hname : p.name.getD (fresh position) = cell.name := (name_of_assemble hcell).symm
          rw [draftName, hname] at hcell
          simp only [hname, hcell, bind, Except.bind, pure, Except.pure] at h
          split at h
          · cases h
          · next hfree =>
            split at h
            · cases h
            · next hrest =>
              cases h
              refine .cons (by rw [draftName, hname, hcell]) ?_ (ih hrest)
              simpa using hfree

/-- The set of flows that drafts make. -/
theorem ofDrafts_eq_ok {drafts : List FlowDraft} {scopes : Scope.Store} {root : ScopeId}
    {w : World} : World.ofDrafts fresh drafts scopes root = .ok w ↔
      ∃ cells directory, assembleFlows fresh (drafts.flatMap FlowDraft.targets) 0 [] drafts =
          .ok (cells, directory) ∧
        w = ⟨scopes, root, cells, List.range cells.length, directory, [], 0, false, [], []⟩ := by
  unfold World.ofDrafts
  cases h : assembleFlows fresh (drafts.flatMap FlowDraft.targets) 0 [] drafts with
  | error e => simp [h, bind, Except.bind]
  | ok made =>
      obtain ⟨cells, directory⟩ := made
      simp [h, bind, Except.bind, pure, Except.pure, eq_comm]

theorem assembled_of_ofDrafts {drafts : List FlowDraft} {scopes : Scope.Store} {root : ScopeId}
    {w : World} (h : World.ofDrafts fresh drafts scopes root = .ok w) :
    Assembled fresh (drafts.flatMap FlowDraft.targets) 0 [] drafts w.flows w.directory := by
  obtain ⟨cells, directory, hmade, rfl⟩ := ofDrafts_eq_ok.mp h
  exact assembled_of_assembleFlows hmade

/-- The root scope of a set, with its global variables. -/
def rootScopes (d : Blueprint.Document) (vars : List (String × Value)) : Except Error Scope.Store :=
  claimGlobals Scope.Store.empty.addRoot.2 (globalsOf d vars) Scope.Store.empty.addRoot.1

/-- The set of flows that a document describes. -/
theorem ofDocument_eq_ok {r : Registry} {d : Blueprint.Document} {vars : List (String × Value)}
    {w : World} : World.ofDocument r fresh d vars = .ok w ↔
      ∃ found scopes drafts, Lint.accept r d = .ok found ∧ rootScopes d vars = .ok scopes ∧
        d.flows.mapM (FlowDraft.ofFlow r) = .ok drafts ∧
        World.ofDrafts fresh drafts scopes Scope.Store.empty.addRoot.2 = .ok w := by
  unfold World.ofDocument World.assemble
  change (Lint.accept r d >>= fun _ => rootScopes d vars >>= fun scopes =>
    d.flows.mapM (FlowDraft.ofFlow r) >>= fun drafts =>
      World.ofDrafts fresh drafts scopes Scope.Store.empty.addRoot.2) = .ok w ↔ _
  cases Lint.accept r d <;> cases rootScopes d vars <;>
    cases d.flows.mapM (FlowDraft.ofFlow r) <;> simp [bind, Except.bind]

/-- The names of drafts at positions from a first one on. -/
def draftNames (fresh : Nat → String) (position : Nat) (drafts : List FlowDraft) : List String :=
  (drafts.zipIdx position).map fun (p, i) => draftName fresh i p

theorem draftNames_cons (fresh : Nat → String) (position : Nat) (p : FlowDraft)
    (drafts : List FlowDraft) : draftNames fresh position (p :: drafts) =
      draftName fresh position p :: draftNames fresh (position + 1) drafts := by
  rw [draftNames, List.zipIdx_cons, List.map_cons, draftNames]

theorem getElem?_draftNames (fresh : Nat → String) (position : Nat) (drafts : List FlowDraft)
    (i : Nat) : (draftNames fresh position drafts)[i]? =
      drafts[i]?.map (draftName fresh (position + i)) := by
  simp [draftNames, List.getElem?_zipIdx, Function.comp_def]

/-- The flows of a set have the names of their drafts. -/
theorem Assembled.names {position : Nat} {before after : Directory} {drafts : List FlowDraft}
    {cells : List FlowCell} (h : Assembled fresh targets position before drafts cells after) :
    cells.map (·.name) = draftNames fresh position drafts := by
  refine List.ext_getElem? fun i => ?_
  rw [getElem?_draftNames, List.getElem?_map]
  by_cases hi : i < cells.length
  · have hdraft : i < drafts.length := h.length ▸ hi
    have hmade := h.made i drafts[i] cells[i] (List.getElem?_eq_getElem hdraft)
      (List.getElem?_eq_getElem hi)
    rw [List.getElem?_eq_getElem hi, List.getElem?_eq_getElem hdraft, Option.map_some,
      Option.map_some, name_of_assemble hmade]
  · rw [List.getElem?_eq_none (Nat.le_of_not_lt hi),
      List.getElem?_eq_none (h.length ▸ Nat.le_of_not_lt hi)]
    rfl

/-- Flows can be put together if each of them can be and their names are new and different. -/
theorem assembleFlows_isOk {drafts : List FlowDraft} {position : Nat} {before : Directory}
    (hmade : ∀ i (p : FlowDraft), drafts[i]? = some p → ∃ cell,
      p.assemble (draftName fresh (position + i) p) (p.name.any targets.contains) = .ok cell)
    (hnodup : (draftNames fresh position drafts).Nodup)
    (hnew : ∀ name ∈ draftNames fresh position drafts, Fields.get? name before = none) :
    ∃ made, assembleFlows fresh targets position before drafts = .ok made := by
  induction drafts generalizing position before with
  | nil => exact ⟨_, rfl⟩
  | cons p drafts ih =>
      rw [draftNames_cons] at hnodup hnew
      obtain ⟨hfirst, hnodup⟩ := List.nodup_cons.mp hnodup
      obtain ⟨hfree, hnew⟩ := List.forall_mem_cons.mp hnew
      obtain ⟨cell, hcell⟩ := hmade 0 p List.getElem?_cons_zero
      rw [Nat.add_zero, draftName] at hcell
      obtain ⟨made, hrest⟩ : ∃ made, assembleFlows fresh targets (position + 1)
          (Fields.put (p.name.getD (fresh position)) ⟨position, cell.callable⟩ before) drafts =
          .ok made := by
        refine ih (fun i q hq => ?_) hnodup fun name hname => ?_
        · rw [Nat.add_assoc, Nat.add_comm 1 i]
          exact hmade (i + 1) q hq
        · rw [Fields.get?_put, if_neg]
          · exact hnew name hname
          · rintro rfl
            exact hfirst hname
      refine ⟨(cell :: made.1, made.2), ?_⟩
      rw [assembleFlows]
      rw [draftName] at hfree
      simp only [hcell, hfree, hrest, bind, Except.bind, pure, Except.pure]
      rfl

/-- No two flows of a set have one name. -/
theorem Assembled.nodup {position : Nat} {before after : Directory} {cells : List FlowCell}
    (h : Assembled fresh targets position before drafts cells after) :
    (cells.map (·.name)).Nodup := by
  refine List.nodup_iff_getElem?_ne_getElem?.mpr fun i j hij hj hsame => ?_
  rw [List.length_map] at hj
  have hi : i < cells.length := Nat.lt_trans hij hj
  rw [List.getElem?_map, List.getElem?_map, List.getElem?_eq_getElem hi,
    List.getElem?_eq_getElem hj] at hsame
  have hfirst := (h.entered i cells[i] (List.getElem?_eq_getElem hi)).2
  have hsecond := (h.entered j cells[j] (List.getElem?_eq_getElem hj)).2
  rw [show cells[i].name = cells[j].name from Option.some.inj hsame, hsecond] at hfirst
  have hplace : position + j = position + i := congrArg Peer.flow (Option.some.inj hfirst)
  exact Nat.ne_of_gt hij (Nat.add_left_cancel hplace)

/-! Drafts and their names. -/

section Entitled

variable {fresh' : Nat → String} {drafts drafts' : List FlowDraft}

/-- Drafts with the names that their flows get. -/
def entitled (fresh : Nat → String) (drafts : List FlowDraft) : List (String × FlowDraft) :=
  drafts.zipIdx.map fun (p, i) => (draftName fresh i p, p)

theorem getElem?_entitled (fresh : Nat → String) (drafts : List FlowDraft) (i : Nat) :
    (entitled fresh drafts)[i]? = drafts[i]?.map fun p => (draftName fresh i p, p) := by
  simp [entitled, List.getElem?_zipIdx, Function.comp_def]

theorem names_entitled (fresh : Nat → String) (drafts : List FlowDraft) :
    (entitled fresh drafts).map (·.1) = draftNames fresh 0 drafts :=
  List.map_map

theorem drafts_entitled (fresh : Nat → String) (drafts : List FlowDraft) :
    (entitled fresh drafts).map (·.2) = drafts := by
  refine List.ext_getElem? fun i => ?_
  rw [List.getElem?_map, getElem?_entitled, Option.map_map]
  exact Option.map_id' ..

/-- Drafts that all have names get the same ones in each order. -/
theorem entitled_perm (hnamed : ∀ p ∈ drafts, p.name.isSome) (hperm : drafts.Perm drafts') :
    (entitled fresh drafts).Perm (entitled fresh' drafts') := by
  have hown {fresh : Nat → String} {drafts : List FlowDraft}
      (hnamed : ∀ p ∈ drafts, p.name.isSome) :
      entitled fresh drafts = drafts.map fun p => (p.name.getD "", p) := by
    refine List.ext_getElem? fun i => ?_
    rw [getElem?_entitled, List.getElem?_map]
    refine Option.map_congr fun p hp => ?_
    obtain ⟨name, hname⟩ := Option.isSome_iff_exists.mp (hnamed p (List.mem_of_getElem? hp))
    rw [draftName, hname]
    rfl
  rw [hown hnamed, hown fun p hp => hnamed p (hperm.mem_iff.mpr hp)]
  exact hperm.map _

end Entitled

/-- The flows of a set, each made of its draft. -/
theorem World.flows_of_ofDrafts {drafts : List FlowDraft} {scopes : Scope.Store} {root : ScopeId}
    {start : World} (h : World.ofDrafts fresh drafts scopes root = .ok start) :
    start.flows = (entitled fresh drafts).map fun (name, p) =>
      p.cell name (p.name.any (drafts.flatMap FlowDraft.targets).contains) := by
  have hassembled := assembled_of_ofDrafts h
  refine List.ext_getElem? fun i => ?_
  rw [List.getElem?_map, getElem?_entitled, Option.map_map]
  by_cases hi : i < drafts.length
  · have hcell : i < start.flows.length := hassembled.length.symm ▸ hi
    have hmade := hassembled.made i _ _ (List.getElem?_eq_getElem hi)
      (List.getElem?_eq_getElem hcell)
    rw [Nat.zero_add] at hmade
    rw [List.getElem?_eq_getElem hi, List.getElem?_eq_getElem hcell]
    exact congrArg some (FlowDraft.assemble_eq_ok.mp hmade).1
  · rw [List.getElem?_eq_none (Nat.le_of_not_lt hi),
      List.getElem?_eq_none (hassembled.length ▸ Nat.le_of_not_lt hi)]
    rfl

end Engine
end PullFlow
