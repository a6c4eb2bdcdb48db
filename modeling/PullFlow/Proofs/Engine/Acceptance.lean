import PullFlow.Proofs.Attachment
import PullFlow.Proofs.Engine.Rings
import PullFlow.Proofs.Scope.Claims

/-!
What is left to go wrong once the checks have accepted a document. The set of flows is built and all
its flows get their surroundings exactly if the document says three things that the checks do not
look at: its variables have no point in their names, its calling components name a flow, and the
names of its flows can be claimed beside the variables.
-/

namespace PullFlow

open Blueprint

/-- The names that the flows of a document get; flows without one get a fresh one. -/
def Blueprint.Document.names (fresh : Nat → String) (d : Document) : List String :=
  d.flows.zipIdx.map fun (f, i) => f.name.getD (fresh i)

/-- What a document has to say that the checks do not look at. -/
structure Blueprint.Document.Complete (fresh : Nat → String) (d : Document) : Prop where
  globals : ∀ key ∈ Fields.keys d.globals, Scope.Store.Plain key
  targets : ∀ f ∈ d.flows, ∀ part ∈ f.components, part.kind ∈ callingKinds → part.target?.isSome
  names : ∃ st st', Engine.rootScopes d [] = .ok st ∧
    Scope.Store.claimNames 0 (d.names fresh) st = .ok st'

namespace Engine

open Scope Scope.Store

variable {fresh : Nat → String} {d : Document} {w w₁ : World}

/-! Variables. -/

section Globals

variable {st st' : Store} {key : String} {v : Value} {globals : List (String × Value)}

/-- A root in which variables were claimed. -/
structure Seeded (globals : List (String × Value)) (st : Store) : Prop where
  based : World.Based 0 st
  top : st.parent? 0 = none
  entries : ∀ key, st.entry? 0 key = (Fields.get? key globals).map .value

/-- A key with a point leads nowhere among variables. -/
theorem Seeded.owner (h : Seeded globals st) (key : String) : st.owner 0 (path key) =
    if Plain key then .ok (0, key) else .error (.undefinedKey (keyOf (path key))) := by
  split
  · next hplain => rw [path_of_plain hplain, Store.owner]
  · next hplain =>
    cases hpath : path key with
    | nil => exact absurd hpath (path_ne_nil key)
    | cons name rest =>
        cases rest with
        | nil =>
            rw [Plain, hpath] at hplain
            exact absurd rfl hplain
        | cons next rest =>
            have hhead : st.findHead? 0 name = (Fields.get? name globals).map .value := by
              rw [h.based.grown.formed.findHead?_eq, h.entries, h.top]
              cases Fields.get? name globals <;> rfl
            simp only [Store.owner, hhead]
            cases Fields.get? name globals <;> rfl

/-- One more variable. -/
theorem Seeded.set_iff (h : Seeded globals st) (hnew : key ∉ Fields.keys globals) :
    (∃ st', st.set 0 key (.value v) true = .ok st') ↔ Plain key := by
  have hfree : st.entry? 0 key = none := by
    rw [h.entries]
    cases hget : Fields.get? key globals with
    | none => rfl
    | some found => exact absurd (Fields.mem_keys_iff.mpr ⟨found, hget⟩) hnew
  simp only [Scope.Store.set, Scope.Store.claim, if_pos, bind, h.owner]
  by_cases hplain : Plain key
  · simp [hplain, Except.bind, pure, Except.pure, hfree]
  · simp [hplain, Except.bind]

theorem Seeded.snoc (h : Seeded globals st) (hset : st.set 0 key (.value v) true = .ok st') :
    Seeded (globals ++ [(key, v)]) st' := by
  obtain ⟨o, n, howner, hfree, rfl⟩ := set_eq_ok hset
  rw [h.owner] at howner
  split at howner
  · cases howner
    have hput := entry?_put (n := key) h.based.root (e := .value v) 0
    refine ⟨⟨h.based.grown.set h.based.root (show Sound st (.value v) from trivial) hset, (mem_put _ _ _ _ _).mpr h.based.root⟩,
      (parent?_put ..).trans h.top, fun name => ?_⟩
    rw [hput name, Fields.get?, List.lookup_append]
    by_cases hname : name = key
    · have hnone : Fields.get? key globals = none := by
        have hentry := hfree rfl
        rw [h.entries] at hentry
        exact Option.map_eq_none_iff.mp hentry
      subst hname
      rw [Fields.get?] at hnone
      simp [hnone]
    · rw [if_neg fun hsame => hname hsame.2, h.entries, Fields.get?]
      have hother : List.lookup name [(key, v)] = none := by
        simp [List.lookup_cons, beq_false_of_ne hname]
      rw [hother, Option.or_none]
  · cases howner

theorem seeded_nil : Seeded [] Store.empty.addRoot.1 :=
  ⟨⟨.root .empty, by decide⟩, rfl, fun _ => rfl⟩

/-- Variables can be claimed one after the other if they have no point in their names. -/
theorem claimGlobals_iff (hnodup : (Fields.keys globals).Nodup) :
    ((∃ st, claimGlobals 0 globals Store.empty.addRoot.1 = .ok st) ↔
      ∀ key ∈ Fields.keys globals, Plain key) ∧
    ∀ st, claimGlobals 0 globals Store.empty.addRoot.1 = .ok st → Seeded globals st := by
  induction globals using List.reverseRecOn with
  | nil =>
      refine ⟨iff_of_true ⟨_, rfl⟩ (List.forall_mem_nil _), fun st h => ?_⟩
      cases h
      exact seeded_nil
  | append_singleton globals field ih =>
      obtain ⟨key, v⟩ := field
      have hkeys : Fields.keys (globals ++ [(key, v)]) = Fields.keys globals ++ [key] := by
        simp [Fields.keys]
      rw [hkeys, List.nodup_append] at hnodup
      obtain ⟨hnodup, _, hapart⟩ := hnodup
      obtain ⟨hiff, hseeded⟩ := ih hnodup
      have hnew : key ∉ Fields.keys globals := fun hmem => hapart key hmem key (by simp) rfl
      have hsnoc (st : Store) : claimGlobals 0 (globals ++ [(key, v)]) Store.empty.addRoot.1 = .ok st ↔
          ∃ st₁, claimGlobals 0 globals Store.empty.addRoot.1 = .ok st₁ ∧
            st₁.set 0 key (.value v) true = .ok st := by
        have happend : claimGlobals 0 (globals ++ [(key, v)]) Store.empty.addRoot.1 =
            (claimGlobals 0 globals Store.empty.addRoot.1).bind fun st₁ =>
              st₁.set 0 key (.value v) true := by
          simp only [claimGlobals, List.foldlM_append, List.foldlM_cons, List.foldlM_nil, bind_pure]
          rfl
        rw [happend]
        cases claimGlobals 0 globals Store.empty.addRoot.1 <;> simp [Except.bind]
      rw [hkeys, List.forall_mem_append, List.forall_mem_singleton, ← hiff]
      constructor
      · constructor
        · rintro ⟨st, h⟩
          obtain ⟨st₁, hclaim, hset⟩ := (hsnoc st).mp h
          exact ⟨⟨st₁, hclaim⟩, ((hseeded st₁ hclaim).set_iff hnew).mp ⟨st, hset⟩⟩
        · rintro ⟨⟨st₁, hclaim⟩, hplain⟩
          obtain ⟨st, hset⟩ := ((hseeded st₁ hclaim).set_iff hnew).mpr hplain
          exact ⟨st, (hsnoc st).mpr ⟨st₁, hclaim, hset⟩⟩
      · intro st h
        obtain ⟨st₁, hclaim, hset⟩ := (hsnoc st).mp h
        exact (hseeded st₁ hclaim).snoc hset

end Globals

/-! Parts. -/

theorem components_eq (f : Blueprint.Flow) : f.components = (Lint.roles f).map (·.2) := by
  simp only [Flow.components, Lint.roles, List.map_append, List.map_map]
  congr 1
  congr 1
  · congr 1
    · simp [Function.comp_def]
    · refine List.map_congr_left fun link _ => ?_
      cases link <;> rfl
  · simp [Function.comp_def]
  · simp [Function.comp_def]

theorem mapM_option_isOk_iff {α β : Type} {f : α → Except Error β} {a : Option α} :
    (∃ b, a.mapM f = .ok b) ↔ ∀ x, a = some x → ∃ y, f x = .ok y := by
  cases a with
  | none => exact iff_of_true ⟨none, mapM_option_eq_ok.mpr (.inl ⟨rfl, rfl⟩)⟩ nofun
  | some x =>
      constructor
      · rintro ⟨b, h⟩ _ ⟨⟩
        obtain ⟨hnone, _⟩ | ⟨_, y, heq, _, hy⟩ := mapM_option_eq_ok.mp h
        · cases hnone
        · cases heq
          exact ⟨y, hy⟩
      · intro h
        obtain ⟨y, hy⟩ := h x rfl
        exact ⟨some y, mapM_option_eq_ok.mpr (.inr ⟨x, y, rfl, rfl, hy⟩)⟩

theorem mem_roles {f : Blueprint.Flow} {role : Role} {part : Part} :
    (role, part) ∈ Lint.roles f ↔ (role = .source ∧ f.source = some part) ∨
      (role = .sink ∧ .tee part ∈ f.operators) ∨ (role = .operator ∧ .operator part ∈ f.operators) ∨
      (role = .sink ∧ f.sink = some part) ∨ (role = .monitor ∧ f.monitor = some part) := by
  simp only [Lint.roles, List.mem_append, List.mem_map, Option.mem_toList, Prod.mk.injEq]
  constructor
  · rintro (((⟨_, h, heq⟩ | ⟨_ | _, h, heq⟩) | ⟨_, h, heq⟩) | ⟨_, h, heq⟩) <;> grind
  · grind

/-- The parts of a flow can be made if they are known and those of calling kinds name a flow. -/
theorem ofFlow_isOk_iff {f : Blueprint.Flow}
    (hknown : ∀ role part, (role, part) ∈ Lint.roles f →
      Catalog.registry.has role part.kind = true) :
    (∃ p, FlowDraft.ofFlow Catalog.registry f = .ok p) ↔
      ∀ part ∈ f.components, part.kind ∈ callingKinds → part.target?.isSome := by
  have hsplit : (∃ p, FlowDraft.ofFlow Catalog.registry f = .ok p) ↔
      (∃ source, f.source.mapM Catalog.registry.buildSource = .ok source) ∧
      (∃ operators, f.operators.mapM Catalog.registry.buildLink = .ok operators) ∧
      (∃ sink, f.sink.mapM Catalog.registry.buildSink = .ok sink) ∧
      ∃ monitor, f.monitor.mapM Catalog.registry.buildMonitor = .ok monitor := by
    constructor
    · rintro ⟨p, h⟩
      obtain ⟨_, hsource, hoperators, hsink, hmonitor⟩ := FlowDraft.ofFlow_eq_ok.mp h
      exact ⟨⟨_, hsource⟩, ⟨_, hoperators⟩, ⟨_, hsink⟩, ⟨_, hmonitor⟩⟩
    · rintro ⟨⟨source, hsource⟩, ⟨operators, hoperators⟩, ⟨sink, hsink⟩, ⟨monitor, hmonitor⟩⟩
      exact ⟨⟨f.name, source, operators, sink, monitor⟩,
        FlowDraft.ofFlow_eq_ok.mpr ⟨rfl, hsource, hoperators, hsink, hmonitor⟩⟩
  rw [hsplit, components_eq, List.forall_mem_map, Prod.forall, mapM_option_isOk_iff, mapM_isOk_iff,
    mapM_option_isOk_iff, mapM_option_isOk_iff]
  constructor
  · rintro ⟨_, hlinks, hsink, _⟩ role part hpart hkind
    have hrole := hknown role part hpart
    obtain ⟨rfl, _⟩ | ⟨rfl, hlink⟩ | ⟨rfl, hlink⟩ | ⟨rfl, hend⟩ | ⟨rfl, _⟩ := mem_roles.mp hpart
    · exact absurd hkind (Catalog.not_calling hrole (.inl rfl))
    · exact (Catalog.buildSink_isOk_iff hrole).mp
        (Catalog.buildLink_isOk_iff.mp (hlinks _ hlink)) hkind
    · exact (Catalog.buildOperator_isOk_iff hrole).mp
        (Catalog.buildLink_isOk_iff.mp (hlinks _ hlink)) hkind
    · exact (Catalog.buildSink_isOk_iff hrole).mp (hsink part hend) hkind
    · exact absurd hkind (Catalog.not_calling hrole (.inr rfl))
  · intro htargets
    have hsinks {part : Part} (hpart : (Role.sink, part) ∈ Lint.roles f) :
        ∃ sink, Catalog.registry.buildSink part = .ok sink :=
      (Catalog.buildSink_isOk_iff (hknown _ _ hpart)).mpr (htargets _ _ hpart)
    refine ⟨fun part hpart => ?_, fun link hlink => ?_, fun part hpart => ?_, fun part hpart => ?_⟩
    · exact Catalog.buildSource_isOk (hknown _ _ (mem_roles.mpr (.inl ⟨rfl, hpart⟩)))
    · rw [Catalog.buildLink_isOk_iff]
      cases link with
      | tee part => exact hsinks (mem_roles.mpr (.inr (.inl ⟨rfl, hlink⟩)))
      | operator part =>
          have hmem : (Role.operator, part) ∈ Lint.roles f :=
            mem_roles.mpr (.inr (.inr (.inl ⟨rfl, hlink⟩)))
          exact (Catalog.buildOperator_isOk_iff (hknown _ _ hmem)).mpr (htargets _ _ hmem)
    · exact hsinks (mem_roles.mpr (.inr (.inr (.inr (.inl ⟨rfl, hpart⟩)))))
    · exact Catalog.buildMonitor_isOk
        (hknown _ _ (mem_roles.mpr (.inr (.inr (.inr (.inr ⟨rfl, hpart⟩))))))

/-! The flows of a document that is accepted. -/

variable {found : List Lint.Finding} {f : Blueprint.Flow} {cell : FlowCell} {i : FlowId}

theorem names_of_drafts {drafts : List FlowDraft}
    (h : d.flows.mapM (FlowDraft.ofFlow Catalog.registry) = .ok drafts) :
    draftNames fresh 0 drafts = d.names fresh := by
  have hmade := mapM_eq_ok.mp h
  refine List.ext_getElem? fun i => ?_
  simp only [getElem?_draftNames, Nat.zero_add, Blueprint.Document.names, List.getElem?_map,
    List.getElem?_zipIdx, Option.map_map]
  by_cases hi : i < d.flows.length
  · have hdraft : i < drafts.length := hmade.length_eq ▸ hi
    have hname := (FlowDraft.ofFlow_eq_ok.mp (hmade.get hi hdraft)).1
    rw [List.get_eq_getElem, List.get_eq_getElem] at hname
    rw [List.getElem?_eq_getElem hi, List.getElem?_eq_getElem hdraft, Option.map_some,
      Option.map_some, draftName, hname, Function.comp_apply]
  · rw [List.getElem?_eq_none (Nat.le_of_not_lt hi),
      List.getElem?_eq_none (hmade.length_eq ▸ Nat.le_of_not_lt hi)]
    rfl

theorem names_of_ofDocument (h : World.ofDocument Catalog.registry fresh d [] = .ok w) :
    w.flows.map (·.name) = d.names fresh := by
  obtain ⟨_, _, drafts, _, _, hdrafts, hmade⟩ := ofDocument_eq_ok.mp h
  rw [(assembled_of_ofDrafts hmade).names, names_of_drafts hdrafts]

/-- A flow that the checks accept can be put together from its parts. -/
theorem assemble_isOk {p : FlowDraft} (haccepted : Lint.Accepted Catalog.registry d)
    (hf : f ∈ d.flows) (hdraft : FlowDraft.ofFlow Catalog.registry f = .ok p) (name : String)
    (fed : Bool) : ∃ cell, p.assemble name fed = .ok cell := by
  refine ⟨_, FlowDraft.assemble_eq_ok.mpr ⟨rfl, fun hcallable => ?_⟩⟩
  rw [FlowDraft.callable_cell] at hcallable
  obtain ⟨hsource, hsink⟩ := haccepted.bare f hf ((callable_iff_of_ofFlow hdraft).mp hcallable)
  obtain ⟨_, hsource', _, hsink', _⟩ := FlowDraft.ofFlow_eq_ok.mp hdraft
  rw [hsource] at hsource'
  rw [hsink] at hsink'
  obtain ⟨_, hnone⟩ | ⟨_, _, hsome, _⟩ := mapM_option_eq_ok.mp hsource'
  · obtain ⟨_, hnone'⟩ | ⟨_, _, hsome, _⟩ := mapM_option_eq_ok.mp hsink'
    · simp [FlowDraft.chooseSource, FlowDraft.chooseSink, hnone, hnone', hcallable, FlowDraft.implied,
        Component.make]
    · cases hsome
  · cases hsome

/-- The set of an accepted document can be built if its variables can be claimed and its calling
components name flows. -/
theorem ofDocument_isOk_iff (haccept : Lint.accept Catalog.registry d = .ok found)
    (hnames : (d.names fresh).Nodup) :
    (∃ w, World.ofDocument Catalog.registry fresh d [] = .ok w) ↔
      (∃ st, rootScopes d [] = .ok st) ∧ ∀ f ∈ d.flows, ∀ part ∈ f.components,
        part.kind ∈ callingKinds → part.target?.isSome := by
  have haccepted := Lint.accepted_of_accept haccept
  have hparts : (∃ drafts, d.flows.mapM (FlowDraft.ofFlow Catalog.registry) = .ok drafts) ↔
      ∀ f ∈ d.flows, ∀ part ∈ f.components, part.kind ∈ callingKinds → part.target?.isSome := by
    rw [mapM_isOk_iff]
    exact forall₂_congr fun f hf => ofFlow_isOk_iff (haccepted.known f hf)
  rw [← hparts]
  constructor
  · rintro ⟨w, h⟩
    obtain ⟨_, st, drafts, _, hst, hdrafts, _⟩ := ofDocument_eq_ok.mp h
    exact ⟨⟨st, hst⟩, drafts, hdrafts⟩
  · rintro ⟨⟨st, hst⟩, drafts, hdrafts⟩
    have hmade := mapM_eq_ok.mp hdrafts
    obtain ⟨made, hassembled⟩ : ∃ made,
        assembleFlows fresh (drafts.flatMap FlowDraft.targets) 0 [] drafts = .ok made := by
      refine assembleFlows_isOk (fun i p hp => ?_) (by rwa [names_of_drafts hdrafts]) fun _ _ => rfl
      obtain ⟨hi, rfl⟩ := List.getElem?_eq_some_iff.mp hp
      have hflow : i < d.flows.length := hmade.length_eq ▸ hi
      exact assemble_isOk haccepted (List.getElem_mem hflow) (hmade.get hflow hi) _ _
    exact ⟨_, ofDocument_eq_ok.mpr ⟨found, st, drafts, haccept, hst, hdrafts,
      ofDrafts_eq_ok.mpr ⟨made.1, made.2, hassembled, rfl⟩⟩⟩

section Made

variable (h : World.ofDocument Catalog.registry fresh d [] = .ok w)

include h

theorem idle_of_ofDocument (hglobals : (Fields.keys d.globals).Nodup) : w.Idle .init := by
  obtain ⟨_, st, drafts, _, hst, _, hmade⟩ := ofDocument_eq_ok.mp h
  exact World.idle_of_ofDrafts hmade ((claimGlobals_iff hglobals).2 st hst).based

/-- A flow that the document names is in the directory. -/
theorem entered_of_name {name : String} (hname : name ∈ Lint.flowNames d) :
    ∃ g ∈ d.flows, g.name = some name ∧ ∃ peer, Fields.get? name w.directory = some peer ∧
      peer.callable = Lint.hasCallMonitor g := by
  obtain ⟨g, hg, hgname⟩ := Lint.mem_flowNames.mp hname
  obtain ⟨j, hj⟩ := List.getElem?_of_mem hg
  obtain ⟨p, cell, hcell, hdescribed⟩ := cell_of_flow h hj
  obtain ⟨_, _, _, _, _, _, hmade⟩ := ofDocument_eq_ok.mp h
  have hentered := ((assembled_of_ofDrafts hmade).entered j cell hcell).2
  rw [hdescribed.name, hgname, Option.getD_some] at hentered
  exact ⟨g, hg, hgname, _, hentered, hdescribed.callable⟩

/-- No flow refuses its surroundings. -/
theorem attach_of_ofDocument (hcell : w.flow? i = some cell) (scope : ScopeId) :
    (cell.attach ⟨cell.name, scope, w.directory⟩).result = .ok () := by
  have haccepted := accepted_of_ofDocument h
  obtain ⟨f, p, hdescribed⟩ := described_of_ofDocument h hcell
  have hf : f ∈ d.flows := List.mem_of_getElem? hdescribed.flow
  have happart {target : String} (htarget : target ∈ f.calledFlows ++ f.outflowTargets)
      (hpresent : target ∈ Lint.flowNames d) : target ≠ cell.name := by
    rintro rfl
    exact haccepted.apart f hf _ (named_of_mem h hcell hdescribed hpresent) htarget
  obtain ⟨fed, hmade, _⟩ := hdescribed.cell
  rw [hmade]
  refine FlowDraft.attach_ok hdescribed.draft _ fed (fun target htarget => ?_)
    (fun target htarget => ?_)
  · have hpresent : target ∈ Lint.flowNames d := haccepted.fed_present hf htarget
    obtain ⟨_, _, _, peer, hpeer, _⟩ := entered_of_name h hpresent
    rw [← hmade]
    exact ⟨happart (List.mem_append_right _ htarget) hpresent, peer, hpeer⟩
  · have hpresent : target ∈ Lint.flowNames d := haccepted.called_present hf htarget
    obtain ⟨g, hg, hgname, peer, hpeer, hcallable⟩ := entered_of_name h hpresent
    rw [← hmade]
    exact ⟨happart (List.mem_append_left _ htarget) hpresent, peer, hpeer,
      hcallable.trans (haccepted.callable f hf target htarget g hg hgname)⟩

end Made

namespace World

/-- A thread that sets the flows up by itself has given all of them their surroundings. -/
structure Contextualized (w w₁ : World) : Prop where
  way : Alone (w.opened (.setUpAll (.context w.set)) []) w₁
  next : w₁.doing? 0 = some (.setUpAll (.prepare w.set))
  cells : w₁.flows.length = w.flows.length ∧ ∀ cell ∈ w₁.flows, cell.state = .context

/-- The flows of a set get their surroundings exactly if the first pass makes something of them. -/
theorem Idle.contextualized_iff (h : w.Idle .init) : (∃ w₁, w.Contextualized w₁) ↔
    ∃ made, (contextPass w.root w.directory).all w.scopes w.flows = .ok made := by
  have hcontext := h.leads_context
  constructor
  · rintro ⟨w₁, hw₁⟩
    cases hall : (contextPass w.root w.directory).all w.scopes w.flows with
    | ok made => exact ⟨made, rfl⟩
    | error e =>
        -- The thread ends while some flow is where all of them were at the start.
        rw [hall] at hcontext
        obtain ⟨w₂, f, cell, hyields, hcell, hstate⟩ := hcontext
        obtain ⟨answer, hway⟩ := hyields [] (List.forall_mem_nil _)
        have hrank := (hw₁.way.to_over hway rfl).rank_le f
        have hlast : (w₂.took [] answer (.exit (.error e))).stateOf f = .init := by
          rw [stateOf]
          rw [show (w₂.took [] answer (.exit (.error e))).flow? f = w₂.flow? f from rfl, hcell]
          exact hstate
        rw [hlast] at hrank
        have hpast : ∀ f, FlowState.rank .context ≤ (w₁.stateOf f).rank := by
          intro f
          rw [stateOf]
          cases hflow : w₁.flow? f with
          | none => decide
          | some cell =>
              have hstate := hw₁.cells.2 cell (List.mem_of_getElem? hflow)
              exact Nat.le_of_eq (congrArg FlowState.rank hstate.symm)
        exact absurd (Nat.le_trans (hpast f) hrank) (by decide)
  · rintro ⟨⟨st, cells⟩, hall⟩
    rw [hall] at hcontext
    obtain ⟨w₁, hleads, hbecame, hidle⟩ := hcontext
    have hway := hleads [] (List.forall_mem_nil _)
    refine ⟨_, hway, rfl, ?_, fun cell hcell => (hidle.cells cell hcell).1⟩
    have hset := hidle.set
    rw [hbecame.set, h.set] at hset
    have hlength := congrArg List.length hset
    rw [List.length_range, List.length_range] at hlength
    exact hlength.symm

end World

/-! Documents. -/

/-- Names without a point can be claimed if no variable has them. -/
theorem names_of_plain (hglobals : (Fields.keys d.globals).Nodup) (hnames : (d.names fresh).Nodup)
    (hplain : ∀ name ∈ d.names fresh, Plain name) {st : Store} (hst : rootScopes d [] = .ok st) :
    (∃ st', claimNames 0 (d.names fresh) st = .ok st') ↔
      ∀ name ∈ d.names fresh, name ∉ Fields.keys d.globals := by
  have hseeded : Seeded d.globals st := (claimGlobals_iff hglobals).2 st hst
  rw [claimNames_plain hseeded.based.grown hseeded.based.root hplain hnames]
  refine forall₂_congr fun name _ => ?_
  rw [hseeded.entries, Option.map_eq_none_iff, Fields.mem_keys_iff, Option.eq_none_iff_forall_ne_some,
    not_exists]

/-- The set of an accepted document is built and gets its surroundings exactly if the document is
complete. As long as no flow has a point in its name, that means that no variable has one, that
calling components name their flow, and that no flow has the name of a variable. -/
theorem World.contextualized_of_accept (haccept : Lint.accept Catalog.registry d = .ok found)
    (hglobals : (Fields.keys d.globals).Nodup) (hnames : (d.names fresh).Nodup) :
    ((∃ w w₁, World.ofDocument Catalog.registry fresh d [] = .ok w ∧ w.Contextualized w₁) ↔
      d.Complete fresh) ∧
    ((∀ name ∈ d.names fresh, Plain name) → (d.Complete fresh ↔
      (∀ key ∈ Fields.keys d.globals, Plain key) ∧
      (∀ f ∈ d.flows, ∀ part ∈ f.components, part.kind ∈ callingKinds → part.target?.isSome) ∧
      ∀ name ∈ d.names fresh, name ∉ Fields.keys d.globals)) := by
  have hroot : (∃ st, rootScopes d [] = .ok st) ↔ ∀ key ∈ Fields.keys d.globals, Plain key :=
    (claimGlobals_iff hglobals).1
  constructor
  · have hpass {w : World} (h : ofDocument Catalog.registry fresh d [] = .ok w) :
        (∃ w₁, w.Contextualized w₁) ↔ ∃ st', claimNames 0 (d.names fresh) w.scopes = .ok st' := by
      rw [(idle_of_ofDocument h hglobals).contextualized_iff, ← names_of_ofDocument h]
      obtain ⟨_, _, _, _, _, _, hmade⟩ := ofDocument_eq_ok.mp h
      have hzero : w.root = 0 := by
        obtain ⟨_, _, _, rfl⟩ := ofDrafts_eq_ok.mp hmade
        rfl
      rw [hzero]
      constructor
      · rintro ⟨⟨st', cells⟩, hall⟩
        exact ⟨st', (contextPass_all_eq_ok.mp hall).1⟩
      · rintro ⟨st', hclaim⟩
        refine ⟨(st', _), contextPass_all_eq_ok.mpr ⟨hclaim, fun cell scope hcell => ?_, rfl⟩⟩
        obtain ⟨hle, hget⟩ := List.mk_mem_zipIdx_iff_le_and_getElem?_sub.mp hcell
        exact attach_of_ofDocument h hget scope
    have hscopes {w : World} (h : ofDocument Catalog.registry fresh d [] = .ok w) :
        rootScopes d [] = .ok w.scopes := by
      obtain ⟨_, st, _, _, hst, _, hmade⟩ := ofDocument_eq_ok.mp h
      obtain ⟨_, _, _, rfl⟩ := ofDrafts_eq_ok.mp hmade
      exact hst
    constructor
    · rintro ⟨w, w₁, h, hw₁⟩
      obtain ⟨hvariables, htargets⟩ := (ofDocument_isOk_iff haccept hnames).mp ⟨w, h⟩
      obtain ⟨st', hclaim⟩ := (hpass h).mp ⟨w₁, hw₁⟩
      exact ⟨hroot.mp hvariables, htargets, w.scopes, st', hscopes h, hclaim⟩
    · rintro ⟨hvariables, htargets, st, st', hst, hclaim⟩
      obtain ⟨w, h⟩ := (ofDocument_isOk_iff haccept hnames).mpr ⟨⟨st, hst⟩, htargets⟩
      rw [Except.ok.inj (hst.symm.trans (hscopes h))] at hclaim
      obtain ⟨w₁, hw₁⟩ := (hpass h).mpr ⟨st', hclaim⟩
      exact ⟨w, w₁, h, hw₁⟩
  · intro hplain
    constructor
    · rintro ⟨hvariables, htargets, st, st', hst, hclaim⟩
      exact ⟨hvariables, htargets, (names_of_plain hglobals hnames hplain hst).mp ⟨st', hclaim⟩⟩
    · rintro ⟨hvariables, htargets, hnew⟩
      obtain ⟨st, hst⟩ := hroot.mpr hvariables
      obtain ⟨st', hclaim⟩ := (names_of_plain hglobals hnames hplain hst).mpr hnew
      exact ⟨hvariables, htargets, st, st', hst, hclaim⟩

namespace World

theorem exists_of_isSome {α : Type} {made : Except Error α} (h : made.toOption.isSome = true) :
    ∃ a, made = .ok a := by
  cases made with
  | error e => cases h
  | ok a => exact ⟨a, rfl⟩

/-- A flow that calls another one, beside a variable. -/
def callDocument : Document :=
  ⟨[⟨some "f", some (.bare "bool.true"), [.operator ⟨"map", none, [.flow "g"], []⟩],
        some (.bare "none"), none⟩,
      ⟨some "g", none, [.operator (.bare "str")], none, some (.bare "call")⟩],
    [("x", .null)]⟩

/-- The two flows are built and get their surroundings. -/
theorem call_contextualized : ∃ w w₁,
    ofDocument Catalog.registry (fun _ => "") callDocument [] = .ok w ∧ w.Contextualized w₁ := by
  obtain ⟨found, haccept⟩ : ∃ found, Lint.accept Catalog.registry callDocument = .ok found :=
    exists_of_isSome (by decide +kernel)
  have hnames : (callDocument.names fun _ => "").Nodup := by decide
  obtain ⟨hbuilt, hplain⟩ := contextualized_of_accept haccept (by decide) hnames
  refine hbuilt.mpr ((hplain (by decide +kernel)).mpr ⟨by decide +kernel, ?_, by decide⟩)
  decide +kernel

/-- One flow that reads no other. -/
def loneDocument (name : String) (operators : List Link) (globals : List (String × Value)) :
    Document :=
  ⟨[⟨some name, some (.bare "bool.true"), operators, some (.bare "none"), none⟩], globals⟩

/-- The checks accept a document whose flows are not built or do not get their surroundings. -/
def AcceptedInVain (d : Document) : Prop :=
  (∃ found, Lint.accept Catalog.registry d = .ok found) ∧
    ¬ ∃ w w₁, ofDocument Catalog.registry (fun _ => "") d [] = .ok w ∧ w.Contextualized w₁

theorem acceptedInVain_of_unbuilt (haccept : (Lint.accept Catalog.registry d).toOption.isSome = true)
    (h : (ofDocument Catalog.registry (fun _ => "") d []).toOption.isSome = false) :
    AcceptedInVain d := by
  refine ⟨exists_of_isSome haccept, ?_⟩
  rintro ⟨w, _, hmade, _⟩
  rw [hmade] at h
  cases h

/-- The names of the flows cannot be claimed. -/
theorem acceptedInVain_of_unnamed (haccept : (Lint.accept Catalog.registry d).toOption.isSome = true)
    (hglobals : (Fields.keys d.globals).Nodup) {st : Store} (hst : rootScopes d [] = .ok st)
    (h : (claimNames 0 (d.names fun _ => "") st).toOption.isSome = false) : AcceptedInVain d := by
  refine ⟨exists_of_isSome haccept, ?_⟩
  rintro ⟨w, w₁, hmade, hw₁⟩
  obtain ⟨⟨st', cells⟩, hall⟩ :=
    (idle_of_ofDocument hmade hglobals).contextualized_iff.mp ⟨w₁, hw₁⟩
  have hclaim := (contextPass_all_eq_ok.mp hall).1
  rw [names_of_ofDocument hmade] at hclaim
  obtain ⟨_, _, _, _, hst', _, hdrafts⟩ := ofDocument_eq_ok.mp hmade
  obtain ⟨_, _, _, rfl⟩ := ofDrafts_eq_ok.mp hdrafts
  rw [hst] at hst'
  cases hst'
  rw [show claimNames 0 (d.names fun _ => "") st = .ok st' from hclaim] at h
  cases h

/-- A variable with a point in its name, a component that calls no flow, a flow with the name of a
variable, and one whose name leads nowhere: each passes the checks and fails later. -/
theorem accepted_in_vain :
    AcceptedInVain (loneDocument "f" [] [("a.b", .null)]) ∧
    AcceptedInVain (loneDocument "f" [.operator (.bare "map")] []) ∧
    AcceptedInVain (loneDocument "f" [] [("f", .null)]) ∧
    AcceptedInVain (loneDocument "a.f" [] []) := by
  refine ⟨acceptedInVain_of_unbuilt (by decide +kernel) (by decide +kernel),
    acceptedInVain_of_unbuilt (by decide +kernel) (by decide +kernel),
    acceptedInVain_of_unnamed (by decide +kernel) (by decide) rfl (by decide +kernel),
    acceptedInVain_of_unnamed (by decide +kernel) (by decide) rfl (by decide +kernel)⟩

end World

end Engine
end PullFlow
