import PullFlow.Proofs.Assembly
import PullFlow.Proofs.Engine.Alone
import PullFlow.Proofs.Scope.Claims
import PullFlow.Proofs.Scope.Search

/-!
What a set-up comes to when nobody else is about. Each of its three passes moves the flows one after
the other, by hooks that read the scopes and the flow alone. So the whole is a function of the flows
and the scopes, and a set-up by itself ends well exactly if the function gives flows, which are the
flows at its end.
-/

namespace PullFlow

/-- What a hook leaves, unless it failed. -/
def HookEnd.toExcept {β : Type} (h : HookEnd β) : Except Error β :=
  match h.result with
  | .ok () => .ok h.body
  | .error e => .error e

namespace HookEnd

variable {β : Type} {h : HookEnd β} {b : β}

theorem toExcept_eq_ok : h.toExcept = .ok b ↔ h.result = .ok () ∧ h.body = b := by
  unfold toExcept
  cases h.result <;> simp

theorem toExcept_andThen (h : HookEnd β) (f : β → HookEnd β) :
    (h.andThen f).toExcept = h.toExcept.bind fun b => (f b).toExcept := by
  unfold andThen toExcept
  cases hr : h.result with
  | error e => simp [hr, Except.bind]
  | ok u => simp [Except.bind]

end HookEnd

namespace Engine

/-- Changes of a flow that leave its name, its state and its lock alone. -/
structure FlowCell.Akin (cell cell' : FlowCell) : Prop where
  name : cell'.name = cell.name
  state : cell'.state = cell.state
  holder : cell'.holder = cell.holder

namespace FlowCell

variable {cell cell' cell'' : FlowCell}

theorem Akin.trans (h : cell.Akin cell') (h' : cell'.Akin cell'') : cell.Akin cell'' :=
  ⟨h'.name.trans h.name, h'.state.trans h.state, h'.holder.trans h.holder⟩

/-- Moves the chain and the sink of a flow. -/
def onPipeline (hook : Pipeline → HookEnd Pipeline) (cell : FlowCell) : HookEnd FlowCell :=
  (hook cell.pipeline).map fun p => { cell with pipeline := p }

/-- Attaches chain, sink and monitor of a flow. -/
def attach (ctx : Context) (cell : FlowCell) : HookEnd FlowCell :=
  (cell.onPipeline (Pipeline.setContext ctx)).andThen (World.attachMonitor ctx)

/-- Sets up chain, sink and monitor of a flow. -/
def setUp (st : Scope.Store) (cell : FlowCell) : HookEnd FlowCell :=
  (cell.onPipeline (Pipeline.setUp st)).andThen (World.prepareMonitor st)

theorem akin_onPipeline (hook : Pipeline → HookEnd Pipeline) (cell : FlowCell) :
    cell.Akin (cell.onPipeline hook).body :=
  ⟨rfl, rfl, rfl⟩

theorem akin_attachMonitor (ctx : Context) (cell : FlowCell) :
    cell.Akin (World.attachMonitor ctx cell).body := by
  unfold World.attachMonitor
  split <;> exact ⟨rfl, rfl, rfl⟩

theorem akin_prepareMonitor (st : Scope.Store) (cell : FlowCell) :
    cell.Akin (World.prepareMonitor st cell).body := by
  unfold World.prepareMonitor
  split <;> exact ⟨rfl, rfl, rfl⟩

theorem akin_andThen {h : HookEnd FlowCell} {f : FlowCell → HookEnd FlowCell}
    (hfirst : cell.Akin h.body) (hthen : ∀ cell : FlowCell, cell.Akin (f cell).body) :
    cell.Akin (h.andThen f).body := by
  unfold HookEnd.andThen
  split
  · exact hfirst.trans (hthen _)
  · exact hfirst

theorem akin_attach (ctx : Context) (cell : FlowCell) : cell.Akin (cell.attach ctx).body :=
  akin_andThen (akin_onPipeline _ cell) (akin_attachMonitor ctx)

theorem akin_setUp (st : Scope.Store) (cell : FlowCell) : cell.Akin (cell.setUp st).body :=
  akin_andThen (akin_onPipeline _ cell) (akin_prepareMonitor st)

end FlowCell

namespace World

variable {w w₁ w₂ : World} {f : FlowId} {cell : FlowCell} {a b : Activity} {answer out : Outcome}
  {st st₁ : Scope.Store} {cells cells₁ : List FlowCell}

/-- The world with other scopes and flows, and maybe with more events and notes. -/
structure Became (w w₁ : World) (st : Scope.Store) (cells : List FlowCell) : Prop where
  scopes : w₁.scopes = st
  flows : w₁.flows = cells
  root : w₁.root = w.root
  set : w₁.set = w.set
  directory : w₁.directory = w.directory

theorem Became.refl (w : World) : w.Became w w.scopes w.flows := ⟨rfl, rfl, rfl, rfl, rfl⟩

theorem Became.trans (h : w.Became w₁ st cells) (h' : w₁.Became w₂ st₁ cells₁) :
    w.Became w₂ st₁ cells₁ :=
  ⟨h'.scopes, h'.flows, h'.root.trans h.root, h'.set.trans h.set, h'.directory.trans h.directory⟩

theorem modify_set {α : Type} (items : List α) (i : Nat) (a : α) (g : α → α) :
    (items.set i a).modify i g = items.set i (g a) := by
  refine List.ext_getElem? fun j => ?_
  rw [List.getElem?_modify, List.getElem?_set, List.getElem?_set]
  by_cases hij : i = j
  · subst hij
    by_cases hlen : i < items.length <;> simp [hlen]
  · simp [hij]

theorem modify_eq_set {items : List FlowCell} {i : Nat} {cell : FlowCell}
    (h : items[i]? = some cell) (g : FlowCell → FlowCell) :
    items.modify i g = items.set i (g cell) := by
  obtain ⟨hi, rfl⟩ := List.getElem?_eq_some_iff.mp h
  have hsame := modify_set items i items[i] g
  rwa [List.set_getElem_self] at hsame

theorem flow?_of_became (h : w.Became w₁ st (cells.set f cell)) (hf : f < cells.length) :
    w₁.flow? f = some cell := by
  rw [flow?, h.flows, List.getElem?_set_self hf]

/-! The parts of a pass over one flow. -/

theorem yields_advance {target : FlowState} (hcell : w.flow? f = some cell)
    (hrank : cell.state.rank < target.rank) : ∃ w₁,
      Yields w (.advance f target .swap) answer w₁ (.ok (.bool true)) ∧
      w.Became w₁ w.scopes (w.flows.set f { cell with state := target }) := by
  have hflow : (w.modifyFlow f fun cell => { cell with state := target }).flow? f =
      some { cell with state := target } := by
    simp [flow?_modifyFlow, hcell]
  have hswap : Activity.step w 0 answer (.advance f target .swap) =
      some (w.modifyFlow f fun cell => { cell with state := target },
        .next (.advance f target (.emit cell.state))) := by
    simp [Activity.step, advance, hcell, hrank]
  refine ⟨_, (leads_of_goto rfl hswap).yields (yields_of_exit rfl
    (congrArg (Option.map _) hflow)), rfl, ?_, rfl, rfl, rfl⟩
  exact modify_eq_set hcell _

/-- The gate of a tree is free if nobody is at any. -/
theorem gateFree_of_ungated (h : w.scopes.Ungated) (s : ScopeId) : w.gateFree s = true := by
  unfold gateFree
  cases hnode : w.scopes.nodes[w.scopes.rootOf s]? with
  | none => rfl
  | some node => simp [h node (List.mem_of_getElem? hnode)]

variable (answer) in
/-- A first write in a tree where nobody else is about. -/
theorem yields_writeTo (hgrown : w.scopes.Grown) (s : ScopeId) (key : String) (e : Entry) :
    match w.scopes.set s key e true with
    | .ok st => ∃ w₁, Yields w (writeTo s key e true) answer w₁ (.ok .null) ∧
        w.Became w₁ st w.flows
    | .error err => Yields w (writeTo s key e true) answer w (.error err) := by
  -- The search gets to the owner without a change.
  have hseek {w₁ : World} {out : Outcome}
      (hend : ∀ answer, Yields w (.write s key e true
        (.seek (.finished (w.scopes.owner s (Scope.path key))))) answer w₁ out) :
      Yields w (writeTo s key e true) answer w₁ out := by
    refine Scope.OwnerSearch.comes_to_result hgrown.formed
      (P := fun q => ∀ answer, Yields w (.write s key e true (.seek q)) answer w₁ out)
      (fun q hq answer => ?_) (.seek s (Scope.path key)) hend answer
    cases q with
    | finished owner => exact hq answer
    | _ => exact (leads_of_goto rfl rfl).yields (hq _)
  cases howner : w.scopes.owner s (Scope.path key) with
  | error err =>
      have hset : w.scopes.set s key e true = .error err := by
        simp [Scope.Store.set, Scope.Store.claim, howner, bind, Except.bind]
      rw [hset]
      refine hseek fun answer => yields_of_exit rfl ?_
      rw [howner]
      rfl
  | ok slot =>
      obtain ⟨o, n⟩ := slot
      have hfound (answer : Outcome) : LeadsTo w (.write s key e true
          (.seek (.finished (w.scopes.owner s (Scope.path key))))) answer w
          (.write s key e true (.store o n)) (.ok .null) := by
        rw [howner]
        exact leads_of_goto rfl rfl
      cases hentry : w.scopes.entry? o n with
      | some found =>
          have hset : w.scopes.set s key e true = .error (.claimConflict key) := by
            simp [Scope.Store.set, Scope.Store.claim, howner, hentry, bind, Except.bind, pure,
              Except.pure]
            rfl
          rw [hset]
          refine hseek fun answer => (hfound answer).yields (yields_of_exit rfl ?_)
          simp [Activity.step, write, hentry]
      | none =>
          have hset : w.scopes.set s key e true = .ok (w.scopes.put o n e) := by
            simp [Scope.Store.set, Scope.Store.claim, howner, hentry, bind, Except.bind, pure,
              Except.pure]
          rw [hset]
          have hstore : Activity.step w 0 (.ok .null) (.write s key e true (.store o n)) =
              some ({ w with scopes := w.scopes.put o n e }, .next (.write s key e true .wake)) := by
            simp [Activity.step, write, hentry]
          have hwake : Activity.step { w with scopes := w.scopes.put o n e } 0 (.ok .null)
              (.write s key e true .wake) =
              some (World.wake { w with scopes := w.scopes.put o n e } s, .done) := by
            refine if_pos (gateFree_of_ungated ?_ s)
            exact hgrown.ungated.update o fun _ => rfl
          refine ⟨World.wake { w with scopes := w.scopes.put o n e } s, hseek fun answer => ?_,
            rfl, rfl, rfl, rfl, rfl⟩
          exact ((hfound answer).trans (leads_of_goto rfl hstore)).yields (yields_of_exit rfl hwake)

/-- An activity that moves a flow by a hook. -/
theorem hooked {h : HookEnd FlowCell} (ha : a.readies = true)
    (hstep : a.step w 0 answer = some (w.afterHook f h b)) : ∃ w₁,
      w.Became w₁ w.scopes (w.flows.set f h.body) ∧
        match h.result with
        | .ok () => LeadsTo w a answer w₁ b (.ok .null)
        | .error e => Yields w a answer w₁ (.error e) := by
  refine ⟨(w.modifyFlow f fun _ => h.body).jot h.notes, ⟨rfl, ?_, rfl, rfl, rfl⟩, ?_⟩
  · change w.flows.modify f (fun _ => h.body) = _
    refine List.ext_getElem? fun j => ?_
    rw [List.getElem?_modify, List.getElem?_set]
    by_cases hfj : f = j
    · subst hfj
      by_cases hlen : f < w.flows.length <;> simp [hlen]
    · simp [hfj]
  · simp only [afterHook] at hstep
    cases hresult : h.result with
    | ok u =>
        rw [hresult] at hstep
        exact leads_of_goto ha hstep
    | error e =>
        rw [hresult] at hstep
        exact yields_of_exit ha hstep

/-- What a part of a pass makes of one flow: the flow as it is then, or a failure with the flow still
in the state it was in. -/
def Moved (w : World) (a : Activity) (answer : Outcome) (b : Activity) (f : FlowId)
    (cell : FlowCell) : Except Error FlowCell → Prop
  | .ok cell' => ∃ w₁, LeadsTo w a answer w₁ b (.ok .null) ∧
      w.Became w₁ w.scopes (w.flows.set f cell')
  | .error e => ∃ w₁ cell', Yields w a answer w₁ (.error e) ∧
      w.Became w₁ w.scopes (w.flows.set f cell') ∧ cell'.state = cell.state

/-- One hook of a flow. -/
theorem moved_by_hook {h : HookEnd FlowCell} (ha : a.readies = true)
    (hstep : a.step w 0 answer = some (w.afterHook f h b)) (hakin : cell.Akin h.body) :
    Moved w a answer b f cell h.toExcept := by
  obtain ⟨w₁, hbecame, hend⟩ := hooked ha hstep
  unfold HookEnd.toExcept
  cases hresult : h.result with
  | ok u =>
      rw [hresult] at hend
      exact ⟨w₁, hend, hbecame⟩
  | error e =>
      rw [hresult] at hend
      exact ⟨w₁, h.body, hend, hbecame, hakin.state⟩

/-- Two hooks of a flow, the second after the first. -/
theorem moved_by_hooks {h : HookEnd FlowCell} {next : FlowCell → HookEnd FlowCell} {c : Activity}
    (hf : f < w.flows.length) (ha : a.readies = true) (hb : b.readies = true)
    (hstep : a.step w 0 answer = some (w.afterHook f h b))
    (hnext : ∀ w₁ : World, w₁.flow? f = some h.body → w₁.directory = w.directory →
      w₁.scopes = w.scopes → b.step w₁ 0 (.ok .null) = some (w₁.afterHook f (next h.body) c))
    (hakin : cell.Akin h.body) (hthen : ∀ cell : FlowCell, cell.Akin (next cell).body) :
    Moved w a answer c f cell (h.andThen next).toExcept := by
  obtain ⟨w₁, hbecame, hend⟩ := hooked ha hstep
  rw [HookEnd.toExcept_andThen]
  cases hresult : h.result with
  | error e =>
      rw [hresult] at hend
      have hfailed : h.toExcept = .error e := by
        rw [HookEnd.toExcept, hresult]
      rw [hfailed]
      exact ⟨w₁, h.body, hend, hbecame, hakin.state⟩
  | ok u =>
      rw [hresult] at hend
      have hpassed : h.toExcept = .ok h.body := by
        rw [HookEnd.toExcept, hresult]
      rw [hpassed]
      have hflow : w₁.flow? f = some h.body := flow?_of_became hbecame hf
      have hmoved := moved_by_hook hb (hnext w₁ hflow hbecame.directory hbecame.scopes) (hthen h.body)
      have hflows (cell' : FlowCell) : w₁.flows.set f cell' = w.flows.set f cell' := by
        rw [hbecame.flows, List.set_set]
      change Moved w a answer c f cell (next h.body).toExcept
      cases hsecond : (next h.body).toExcept with
      | ok cell' =>
          rw [hsecond] at hmoved
          obtain ⟨w₂, hleads, hbecame'⟩ := hmoved
          rw [hflows, hbecame.scopes] at hbecame'
          exact ⟨w₂, hend.trans hleads, hbecame.trans hbecame'⟩
      | error e =>
          rw [hsecond] at hmoved
          obtain ⟨w₂, cell', hyields, hbecame', hstate⟩ := hmoved
          rw [hflows, hbecame.scopes] at hbecame'
          exact ⟨w₂, cell', hend.yields hyields, hbecame.trans hbecame', hstate.trans hakin.state⟩

/-! A pass over one flow. -/

/-- What a pass makes of one flow: the scopes and the flow as they are then, or a failure with the
flow still in the state it was in. -/
def Handled (w : World) (a : Activity) (answer : Outcome) (f : FlowId) (cell : FlowCell) :
    Except Error (Scope.Store × FlowCell) → Prop
  | .ok (st, cell') => ∃ w₁, Yields w a answer w₁ (.ok .null) ∧ w.Became w₁ st (w.flows.set f cell')
  | .error e => ∃ w₁ cell', Yields w a answer w₁ (.error e) ∧ w₁.flows = w.flows.set f cell' ∧
      cell'.state = cell.state

theorem Handled.of_leads {answer₁ : Outcome} {r : Except Error (Scope.Store × FlowCell)}
    (h : LeadsTo w a answer w₁ b answer₁) (hsame : w.Became w₁ w₁.scopes w.flows)
    (hdone : Handled w₁ b answer₁ f cell r) : Handled w a answer f cell r := by
  cases r with
  | ok made =>
      obtain ⟨w₂, hyields, hbecame⟩ := hdone
      rw [hsame.flows] at hbecame
      exact ⟨w₂, h.yields hyields, hsame.trans hbecame⟩
  | error e =>
      obtain ⟨w₂, cell', hyields, hflows, hstate⟩ := hdone
      rw [hsame.flows] at hflows
      exact ⟨w₂, cell', h.yields hyields, hflows, hstate⟩

/-- After the hooks the flow moves on to its next state. -/
theorem Moved.handled {r : Except Error FlowCell} {c : Activity}
    (hmoved : Moved w a answer b f cell r) (target : FlowState) (hf : f < w.flows.length)
    (hrank : ∀ cell', r = .ok cell' → cell'.state.rank < target.rank)
    (hb : b.readies = true) (hc : c.readies = true)
    (hstep : ∀ w₁ : World, b.step w₁ 0 (.ok .null) =
      some (w₁, .invoke (.advance f target .swap) c))
    (hover : ∀ w₁ : World, c.step w₁ 0 (.ok (.bool true)) = some (w₁, .done)) :
    Handled w a answer f cell (r.map fun cell => (w.scopes, { cell with state := target })) := by
  cases r with
  | error e =>
      obtain ⟨w₁, cell', hyields, hbecame, hstate⟩ := hmoved
      exact ⟨w₁, cell', hyields, hbecame.flows, hstate⟩
  | ok cell' =>
      obtain ⟨w₁, hleads, hbecame⟩ := hmoved
      obtain ⟨w₂, hadvance, hbecame'⟩ :=
        yields_advance (flow?_of_became hbecame hf) (hrank cell' rfl)
      have hclosing := leads_of_invoke hb hc (hstep w₁) hadvance
      rw [hbecame.flows, List.set_set, hbecame.scopes] at hbecame'
      exact ⟨w₂, hleads.yields (hclosing.yields (yields_of_exit hc (hover w₂))),
        hbecame.trans hbecame'⟩

theorem leads_of_checkState {state : FlowState} {next : Activity} (ha : a.readies = true)
    (hstep : a.step w 0 answer = w.checkState f state next) (hcell : w.flow? f = some cell)
    (hstate : cell.state = state) : LeadsTo w a answer w next (.ok .null) := by
  refine leads_of_goto ha (hstep.trans ?_)
  simp [checkState, hcell, expect, hstate, Turn.next]

theorem onPipeline_eq {hook : Pipeline → HookEnd Pipeline} (hcell : w.flow? f = some cell)
    (hfree : cell.holder = none) :
    w.onPipeline f hook b = some (w.afterHook f (cell.onPipeline hook) b) := by
  simp [World.onPipeline, hcell, hfree, FlowCell.onPipeline]

theorem lt_of_flow? (h : w.flow? f = some cell) : f < w.flows.length :=
  (List.getElem?_eq_some_iff.mp h).1

/-- A pass over the flows: from which state to which it moves them, and what it makes of one. -/
structure Pass where
  before : FlowState
  after : FlowState
  one : Scope.Store → FlowCell → Except Error (Scope.Store × FlowCell)

/-- Each flow gets a scope of its own, under its name in the root, and its parts are attached. -/
def contextPass (root : ScopeId) (directory : Directory) : Pass where
  before := .init
  after := .context
  one st cell := do
    let st' ← st.claimName root cell.name
    let cell ← (cell.attach ⟨cell.name, st.nodes.length, directory⟩).toExcept
    return (st', { cell with scope := some st.nodes.length, state := .context })

/-- The parts of each flow take their arguments. -/
def preparePass : Pass where
  before := .context
  after := .setup
  one st cell := (cell.setUp st).toExcept.map fun cell => (st, { cell with state := .setup })

/-- Each flow is handed what feeds it. -/
def wirePass (all : List Outflow) : Pass where
  before := .setup
  after := .wired
  one st cell := (cell.onPipeline (Pipeline.wire (inflowsOf cell.name all))).toExcept.map
    fun cell => (st, { cell with state := .wired })

/-- Scopes that were put up around a root. -/
structure Based (root : ScopeId) (st : Scope.Store) : Prop where
  grown : st.Grown
  root : root ∈ st

theorem handled_prepare (hcell : w.flow? f = some cell) (hstate : cell.state = .context)
    (hfree : cell.holder = none) :
    Handled w (.prepare f .check) answer f cell (preparePass.one w.scopes cell) := by
  have hcheck : LeadsTo w (.prepare f .check) answer w (.prepare f .components) (.ok .null) :=
    leads_of_checkState rfl rfl hcell hstate
  have hmoved : Moved w (.prepare f .components) (.ok .null) (.prepare f .advance) f cell
      (cell.setUp w.scopes).toExcept := by
    refine moved_by_hooks (lt_of_flow? hcell) rfl (b := .prepare f .monitor) rfl
      (onPipeline_eq hcell hfree) (fun w₁ hflow _ hscopes => ?_) (FlowCell.akin_onPipeline _ cell)
      (FlowCell.akin_prepareMonitor w.scopes)
    change (w₁.flow? f).map _ = _
    rw [hflow, hscopes]
    rfl
  refine .of_leads hcheck (Became.refl w) (hmoved.handled _ (lt_of_flow? hcell) (fun cell' hok => ?_)
    rfl (c := .prepare f .advanced) rfl (fun _ => rfl) (fun _ => rfl))
  have hkept := (FlowCell.akin_setUp w.scopes cell).state
  rw [(HookEnd.toExcept_eq_ok.mp hok).2, hstate] at hkept
  rw [hkept]
  decide

theorem handled_wire {all : List Outflow} (hcell : w.flow? f = some cell)
    (hstate : cell.state = .setup) (hfree : cell.holder = none) :
    Handled w (.wire f (inflowsOf cell.name all) .check) answer f cell
      ((wirePass all).one w.scopes cell) := by
  have hcheck : LeadsTo w (.wire f (inflowsOf cell.name all) .check) answer w
      (.wire f (inflowsOf cell.name all) .source) (.ok .null) :=
    leads_of_checkState rfl rfl hcell hstate
  have hmoved : Moved w (.wire f (inflowsOf cell.name all) .source) (.ok .null)
      (.wire f (inflowsOf cell.name all) .advance) f cell
      (cell.onPipeline (Pipeline.wire (inflowsOf cell.name all))).toExcept :=
    moved_by_hook rfl (onPipeline_eq hcell hfree) (FlowCell.akin_onPipeline _ cell)
  refine .of_leads hcheck (Became.refl w) (hmoved.handled _ (lt_of_flow? hcell) (fun cell' hok => ?_)
    rfl (c := .wire f (inflowsOf cell.name all) .advanced) rfl (fun _ => rfl) (fun _ => rfl))
  have hkept := (FlowCell.akin_onPipeline (Pipeline.wire (inflowsOf cell.name all)) cell).state
  rw [(HookEnd.toExcept_eq_ok.mp hok).2, hstate] at hkept
  rw [hkept]
  decide

/-- The hooks of the context pass, and the scope that is recorded after them. -/
theorem handled_attach (scope : ScopeId) (hcell : w.flow? f = some cell) (hstate : cell.state = .init)
    (hfree : cell.holder = none) :
    Handled w (.contextualize f (.attach scope)) (.ok .null) f cell
      ((cell.attach ⟨cell.name, scope, w.directory⟩).toExcept.map fun cell =>
        (w.scopes, { cell with scope := some scope, state := .context })) := by
  have hmoved : Moved w (.contextualize f (.attach scope)) (.ok .null)
      (.contextualize f (.record scope)) f cell
      (cell.attach ⟨cell.name, scope, w.directory⟩).toExcept := by
    refine moved_by_hooks (lt_of_flow? hcell) rfl (b := .contextualize f (.monitor scope)) rfl ?_
      (fun w₁ hflow hdirectory _ => ?_) (FlowCell.akin_onPipeline _ cell)
      (FlowCell.akin_attachMonitor ⟨cell.name, scope, w.directory⟩)
    · change (w.flow? f).bind _ = _
      rw [hcell]
      exact onPipeline_eq hcell hfree
    · change (w₁.flow? f).map _ = _
      rw [hflow, Option.map_some, contextOf, hdirectory]
      rfl
  have hrecord : Moved w (.contextualize f (.attach scope)) (.ok .null) (.contextualize f .advance) f
      cell ((cell.attach ⟨cell.name, scope, w.directory⟩).toExcept.map fun cell =>
        { cell with scope := some scope }) := by
    cases hr : (cell.attach ⟨cell.name, scope, w.directory⟩).toExcept with
    | error e =>
        rw [hr] at hmoved
        exact hmoved
    | ok cell' =>
        rw [hr] at hmoved
        obtain ⟨w₁, hleads, hbecame⟩ := hmoved
        refine ⟨w₁.modifyFlow f fun cell => { cell with scope := some scope },
          hleads.trans (leads_of_goto rfl rfl), hbecame.scopes, ?_, hbecame.root, hbecame.set,
          hbecame.directory⟩
        change w₁.flows.modify f _ = _
        rw [hbecame.flows, modify_set]
  have hdone := hrecord.handled .context (lt_of_flow? hcell) (fun cell' hok => ?_) rfl
    (c := .contextualize f .advanced) rfl (fun _ => rfl) (fun _ => rfl)
  · cases hr : (cell.attach ⟨cell.name, scope, w.directory⟩).toExcept with
    | error e =>
        rw [hr] at hdone
        exact hdone
    | ok made =>
        rw [hr] at hdone
        exact hdone
  · cases hr : (cell.attach ⟨cell.name, scope, w.directory⟩).toExcept with
    | error e =>
        rw [hr] at hok
        cases hok
    | ok made =>
        rw [hr] at hok
        cases hok
        have hkept := (FlowCell.akin_attach ⟨cell.name, scope, w.directory⟩ cell).state
        rw [(HookEnd.toExcept_eq_ok.mp hr).2, hstate] at hkept
        rw [hkept]
        decide

theorem handled_contextualize (hbased : Based w.root w.scopes) (hcell : w.flow? f = some cell)
    (hstate : cell.state = .init) (hfree : cell.holder = none) :
    Handled w (.contextualize f .check) answer f cell
      ((contextPass w.root w.directory).one w.scopes cell) := by
  have hcheck : LeadsTo w (.contextualize f .check) answer w (.contextualize f .child) (.ok .null) :=
    leads_of_checkState rfl rfl hcell hstate
  have hglobal := yields_writeTo (w := { w with scopes := (w.scopes.addChild w.root).1 })
    (.ok .null) (hbased.grown.child hbased.root) w.scopes.nodes.length "global"
    (.scope w.root)
  dsimp only at hglobal
  rw [Scope.Store.set_global] at hglobal
  obtain ⟨w₁, hyields, hbecame⟩ := hglobal
  have hsame : w.Became w₁ w₁.scopes w.flows :=
    ⟨rfl, hbecame.flows, hbecame.root, hbecame.set, hbecame.directory⟩
  have hchild : LeadsTo w (.contextualize f .child) (.ok .null) w₁
      (.contextualize f (.global w.scopes.nodes.length)) (.ok .null) :=
    leads_of_invoke rfl rfl rfl hyields
  have hcell₁ : w₁.flow? f = some cell := by rw [flow?, hbecame.flows]; exact hcell
  have hname := yields_writeTo (w := w₁) (.ok .null)
    (by rw [hbecame.scopes]; exact hbased.grown.addHome hbased.root) w.root cell.name
    (.scope w.scopes.nodes.length)
  have hstep : Activity.step w₁ 0 (.ok .null)
      (.contextualize f (.global w.scopes.nodes.length)) =
      some (w₁, .invoke (writeTo w.root cell.name (.scope w.scopes.nodes.length) true)
        (.contextualize f (.named w.scopes.nodes.length))) := by
    change (w₁.flow? f).map _ = _
    rw [hcell₁, Option.map_some, hbecame.root]
    rfl
  refine .of_leads (hcheck.trans hchild) hsame ?_
  rw [hbecame.scopes, ← Scope.Store.claimName] at hname
  simp only [contextPass, bind, pure]
  cases hclaim : Scope.Store.claimName w.root w.scopes cell.name with
  | error e =>
      rw [hclaim] at hname
      have hnamed := leads_of_invoke rfl rfl hstep hname
      refine ⟨w₁, cell, hnamed.yields (yields_of_exit rfl rfl), ?_, rfl⟩
      obtain ⟨hf, rfl⟩ := List.getElem?_eq_some_iff.mp hcell
      rw [hbecame.flows, List.set_getElem_self]
  | ok st =>
      rw [hclaim] at hname
      obtain ⟨w₂, hyields₂, hbecame₂⟩ := hname
      have hnamed := leads_of_invoke rfl rfl hstep hyields₂
      have hgo : LeadsTo w₂ (.contextualize f (.named w.scopes.nodes.length)) (.ok .null) w₂
          (.contextualize f (.attach w.scopes.nodes.length)) (.ok .null) := leads_of_goto rfl rfl
      have hcell₂ : w₂.flow? f = some cell := by rw [flow?, hbecame₂.flows]; exact hcell₁
      have hdone := handled_attach w.scopes.nodes.length hcell₂ hstate hfree
      rw [hbecame₂.directory, hbecame.directory, hbecame₂.scopes] at hdone
      exact .of_leads (hnamed.trans hgo)
        ⟨rfl, hbecame₂.flows, hbecame₂.root, hbecame₂.set, hbecame₂.directory⟩ hdone

/-! A pass over all flows. -/

namespace Pass

/-- What a pass makes of all flows, one after the other. -/
def all (P : Pass) : Scope.Store → List FlowCell → Except Error (Scope.Store × List FlowCell)
  | st, [] => .ok (st, [])
  | st, cell :: rest => do
      let (st, cell) ← P.one st cell
      let (st, rest) ← P.all st rest
      return (st, cell :: rest)

theorem all_cons {P : Pass} {rest : List FlowCell} {made : Scope.Store × List FlowCell} :
    P.all st (cell :: rest) = .ok made ↔ ∃ st₁ cell' st₂ rest', P.one st cell = .ok (st₁, cell') ∧
      P.all st₁ rest = .ok (st₂, rest') ∧ made = (st₂, cell' :: rest') := by
  rw [all]
  cases hone : P.one st cell with
  | error e => simp [bind, Except.bind]
  | ok first =>
      obtain ⟨st₁, cell'⟩ := first
      simp only [bind, Except.bind, pure, Except.pure]
      cases hall : P.all st₁ rest with
      | error e => simp [hall]
      | ok others =>
          obtain ⟨st₂, rest'⟩ := others
          constructor
          · rintro ⟨⟩
            exact ⟨st₁, cell', st₂, rest', rfl, hall, rfl⟩
          · rintro ⟨_, _, _, _, hfirst, hothers, rfl⟩
            cases hfirst
            rw [hall] at hothers
            cases hothers
            rfl

/-- A pass is what the activities of a set-up do. -/
structure Runs (P : Pass) (activity : FlowId → FlowCell → Activity) (root : ScopeId)
    (directory : Directory) : Prop where
  handled : ∀ {w : World} {f cell answer}, w.root = root → w.directory = directory →
    Based root w.scopes → w.flow? f = some cell → cell.state = P.before → cell.holder = none →
    Handled w (activity f cell) answer f cell (P.one w.scopes cell)
  based : ∀ {st cell st' cell'}, Based root st → P.one st cell = .ok (st', cell') → Based root st'
  kept : ∀ {st cell st' cell'}, P.one st cell = .ok (st', cell') →
    cell'.name = cell.name ∧ cell'.state = P.after ∧ cell'.holder = cell.holder

variable {P : Pass} {activity : FlowId → FlowCell → Activity} {root : ScopeId}
  {directory : Directory} {point : List FlowId → SetUpPoint}

theorem Runs.all_kept (h : P.Runs activity root directory) (hbased : Based root st)
    (hmade : P.all st cells = .ok (st₁, cells₁)) : Based root st₁ ∧
      List.Forall₂ (fun cell cell' => cell'.name = cell.name ∧ cell'.state = P.after ∧
        cell'.holder = cell.holder) cells cells₁ := by
  induction cells generalizing st cells₁ with
  | nil =>
      cases hmade
      exact ⟨hbased, .nil⟩
  | cons cell rest ih =>
      obtain ⟨st₂, cell', st₃, rest', hone, hall, heq⟩ := all_cons.mp hmade
      cases heq
      obtain ⟨hbased', hrest⟩ := ih (h.based hbased hone) hall
      exact ⟨hbased', .cons (h.kept hone) hrest⟩

/-- A pass over the flows from a position on. -/
theorem Runs.leads_all (h : P.Runs activity root directory)
    (hnext : ∀ (w : World) f cell left, w.flow? f = some cell →
      w.setUpAll (.ok .null) (point (f :: left)) =
        some (w, .invoke (activity f cell) (.setUpAll (point left))))
    (hfailed : ∀ (w : World) e left, (∀ f ∈ left, f < w.flows.length) →
      w.setUpAll (.error e) (point left) = some (w, .exit (.error e)))
    {w : World} {before todo : List FlowCell} (hroot : w.root = root)
    (hdirectory : w.directory = directory) (hbased : Based root w.scopes)
    (hflows : w.flows = before ++ todo)
    (hready : ∀ cell ∈ todo, cell.state = P.before ∧ cell.holder = none) :
    match P.all w.scopes todo with
    | .ok (st, cells) => ∃ w₁,
        LeadsTo w (.setUpAll (point (List.range' before.length todo.length))) (.ok .null) w₁
          (.setUpAll (point [])) (.ok .null) ∧ w.Became w₁ st (before ++ cells)
    | .error e => ∃ w₁ f cell,
        Yields w (.setUpAll (point (List.range' before.length todo.length))) (.ok .null) w₁
          (.error e) ∧ w₁.flow? f = some cell ∧ cell.state = P.before := by
  induction todo generalizing w before with
  | nil => exact ⟨w, LeadsTo.refl w _ _, rfl, hflows, rfl, rfl, rfl⟩
  | cons cell rest ih =>
      obtain ⟨⟨hstate, hfree⟩, hready⟩ := List.forall_mem_cons.mp hready
      have hcell : w.flow? before.length = some cell := by
        rw [flow?, hflows, List.getElem?_append_right (Nat.le_refl _), Nat.sub_self]
        rfl
      have hset (cell' : FlowCell) :
          w.flows.set before.length cell' = (before ++ [cell']) ++ rest := by
        rw [hflows, List.set_append_right _ _ (Nat.le_refl _), Nat.sub_self, List.append_assoc]
        rfl
      have hstep : Activity.step w 0 (.ok .null) (.setUpAll
          (point (before.length :: List.range' (before.length + 1) rest.length))) = _ :=
        hnext w before.length cell (List.range' (before.length + 1) rest.length) hcell
      rw [List.length_cons, List.range'_succ, all]
      have hdone : Handled w (activity before.length cell) (.ok .null) before.length cell
          (P.one w.scopes cell) := h.handled hroot hdirectory hbased hcell hstate hfree
      cases hone : P.one w.scopes cell with
      | error e =>
          rw [hone] at hdone
          obtain ⟨w₁, cell', hyields, hflows₁, hstate'⟩ := hdone
          rw [hset] at hflows₁
          have hover : Activity.step w₁ 0 (.error e) (.setUpAll
              (point (List.range' (before.length + 1) rest.length))) = _ :=
            hfailed w₁ e _ fun f hf => by
              have := List.mem_range'_1.mp hf
              rw [hflows₁]
              simp only [List.length_append, List.length_singleton]
              omega
          refine ⟨w₁, before.length, cell',
            (leads_of_invoke rfl rfl hstep hyields).yields (yields_of_exit rfl hover), ?_,
            hstate'.trans hstate⟩
          simp [flow?, hflows₁]
      | ok made =>
          obtain ⟨st₁, cell'⟩ := made
          rw [hone] at hdone
          obtain ⟨w₁, hyields, hbecame⟩ := hdone
          rw [hset] at hbecame
          have hleads := leads_of_invoke rfl rfl hstep hyields
          have hrest := ih (w := w₁) (hbecame.root.trans hroot)
            (hbecame.directory.trans hdirectory)
            (by rw [hbecame.scopes]; exact h.based hbased hone) hbecame.flows hready
          rw [hbecame.scopes, List.length_append, List.length_singleton] at hrest
          simp only [bind, Except.bind, pure, Except.pure]
          cases hall : P.all st₁ rest with
          | error e =>
              rw [hall] at hrest
              obtain ⟨w₂, f, other, hyields₂, hother⟩ := hrest
              exact ⟨w₂, f, other, hleads.yields hyields₂, hother⟩
          | ok made =>
              rw [hall] at hrest
              obtain ⟨w₂, hleads₂, hbecame₂⟩ := hrest
              rw [List.append_assoc] at hbecame₂
              exact ⟨w₂, hleads.trans hleads₂, hbecame.trans hbecame₂⟩

end Pass

/-- A flow with its surroundings, which include a scope of its own. -/
def housed (directory : Directory) (cell : FlowCell) (scope : ScopeId) : FlowCell :=
  { (cell.attach ⟨cell.name, scope, directory⟩).body with scope := some scope, state := .context }

theorem contextPass_eq_ok {root : ScopeId} {directory : Directory} {cell' : FlowCell} :
    (contextPass root directory).one st cell = .ok (st₁, cell') ↔
      st.claimName root cell.name = .ok st₁ ∧
      (cell.attach ⟨cell.name, st.nodes.length, directory⟩).result = .ok () ∧
      cell' = housed directory cell st.nodes.length := by
  simp only [contextPass, housed, bind]
  cases st.claimName root cell.name with
  | error e => simp [Except.bind]
  | ok claimed =>
      simp only [Except.bind, HookEnd.toExcept]
      cases (cell.attach ⟨cell.name, st.nodes.length, directory⟩).result with
      | error e => simp
      | ok u => simp [pure, Except.pure, eq_comm]

/-- The context pass claims the names, and attaches each flow with the scope at its place. -/
theorem contextPass_all_eq_ok {root : ScopeId} {directory : Directory} :
    (contextPass root directory).all st cells = .ok (st₁, cells₁) ↔
      Scope.Store.claimNames root (cells.map (·.name)) st = .ok st₁ ∧
      (∀ cell scope, (cell, scope) ∈ cells.zipIdx st.nodes.length →
        (cell.attach ⟨cell.name, scope, directory⟩).result = .ok ()) ∧
      cells₁ = (cells.zipIdx st.nodes.length).map fun (cell, scope) =>
        housed directory cell scope := by
  induction cells generalizing st cells₁ with
  | nil =>
      rw [Pass.all, List.map_nil, List.zipIdx_nil, Scope.Store.claimNames]
      constructor
      · rintro ⟨⟩
        exact ⟨rfl, fun cell scope h => absurd h List.not_mem_nil, rfl⟩
      · rintro ⟨h, _, rfl⟩
        cases h
        rfl
  | cons cell rest ih =>
      rw [Pass.all_cons, List.map_cons, List.zipIdx_cons, List.map_cons, Scope.Store.claimNames,
        List.foldlM_cons]
      cases hclaim : Scope.Store.claimName root st cell.name with
      | error e =>
          constructor
          · rintro ⟨_, _, _, _, hone, _⟩
            rw [(contextPass_eq_ok.mp hone).1] at hclaim
            cases hclaim
          · rintro ⟨h, _⟩
            cases h
      | ok claimed =>
          have hlength := Scope.Store.length_claimName hclaim
          change _ ↔ Scope.Store.claimNames root (rest.map (·.name)) claimed = .ok st₁ ∧ _
          constructor
          · rintro ⟨st₂, cell', st₃, rest', hone, hall, heq⟩
            obtain ⟨hclaim', hattach, rfl⟩ := contextPass_eq_ok.mp hone
            rw [hclaim] at hclaim'
            cases hclaim'
            cases heq
            obtain ⟨hnames, hattached, hrest⟩ := ih.mp hall
            rw [hlength] at hattached hrest
            refine ⟨hnames, fun other scope hmem => ?_, by rw [hrest]⟩
            obtain heq | hmem := List.mem_cons.mp hmem
            · cases heq
              exact hattach
            · exact hattached other scope hmem
          · rintro ⟨hnames, hattached, rfl⟩
            have hall := ih.mpr ⟨hnames, fun other scope hmem => ?_, rfl⟩
            · rw [hlength] at hall
              exact ⟨claimed, _, st₁, _, contextPass_eq_ok.mpr
                ⟨hclaim, hattached cell _ List.mem_cons_self, rfl⟩, hall, rfl⟩
            · rw [hlength] at hmem
              exact hattached other scope (List.mem_cons_of_mem _ hmem)

theorem preparePass_eq_ok {cell' : FlowCell} : preparePass.one st cell = .ok (st₁, cell') ↔
    st₁ = st ∧ (cell.setUp st).result = .ok () ∧
      cell' = { (cell.setUp st).body with state := .setup } := by
  simp only [preparePass, HookEnd.toExcept]
  cases (cell.setUp st).result with
  | error e => simp [Except.map]
  | ok u => simp [Except.map, eq_comm]

theorem wirePass_eq_ok {all : List Outflow} {cell' : FlowCell} :
    (wirePass all).one st cell = .ok (st₁, cell') ↔
      st₁ = st ∧ (Pipeline.wire (inflowsOf cell.name all) cell.pipeline).result = .ok () ∧
      cell' = { cell with
        pipeline := (Pipeline.wire (inflowsOf cell.name all) cell.pipeline).body
        state := .wired } := by
  simp only [wirePass, FlowCell.onPipeline, HookEnd.toExcept, HookEnd.map]
  cases (Pipeline.wire (inflowsOf cell.name all) cell.pipeline).result with
  | error e => simp [Except.map]
  | ok u => simp [Except.map, eq_comm]

theorem contextPass_runs (root : ScopeId) (directory : Directory) :
    (contextPass root directory).Runs (fun f _ => .contextualize f .check) root directory where
  handled := by
    rintro w f cell answer rfl rfl hbased hcell hstate hfree
    exact handled_contextualize hbased hcell hstate hfree
  based hbased hone := by
    obtain ⟨hclaim, _⟩ := contextPass_eq_ok.mp hone
    obtain ⟨hgrown, hroot⟩ := hbased.grown.claimName hbased.root hclaim
    exact ⟨hgrown, hroot⟩
  kept := by
    intro st cell _ _ hone
    obtain ⟨_, _, rfl⟩ := contextPass_eq_ok.mp hone
    have hakin := FlowCell.akin_attach ⟨cell.name, st.nodes.length, directory⟩ cell
    exact ⟨hakin.name, rfl, hakin.holder⟩

theorem preparePass_runs (root : ScopeId) (directory : Directory) :
    preparePass.Runs (fun f _ => .prepare f .check) root directory where
  handled _ _ _ hcell hstate hfree := handled_prepare hcell hstate hfree
  based hbased hone := by
    obtain ⟨rfl, _⟩ := preparePass_eq_ok.mp hone
    exact hbased
  kept := by
    intro st cell _ _ hone
    obtain ⟨_, _, rfl⟩ := preparePass_eq_ok.mp hone
    have hakin := FlowCell.akin_setUp st cell
    exact ⟨hakin.name, rfl, hakin.holder⟩

theorem wirePass_runs (all : List Outflow) (root : ScopeId) (directory : Directory) :
    (wirePass all).Runs (fun f cell => .wire f (inflowsOf cell.name all) .check) root directory where
  handled _ _ _ hcell hstate hfree := handled_wire hcell hstate hfree
  based hbased hone := by
    obtain ⟨rfl, _⟩ := wirePass_eq_ok.mp hone
    exact hbased
  kept hone := by
    obtain ⟨_, _, rfl⟩ := wirePass_eq_ok.mp hone
    exact ⟨rfl, rfl, rfl⟩

/-! The passes one after the other. -/

/-- Flows that are all in one state while nobody is at work on them. -/
structure Idle (state : FlowState) (w : World) : Prop where
  set : w.set = List.range w.flows.length
  based : Based w.root w.scopes
  cells : ∀ cell ∈ w.flows, cell.state = state ∧ cell.holder = none

theorem idle_of_ofDrafts {fresh : Nat → String} {drafts : List FlowDraft} {root : ScopeId}
    {start : World} (h : ofDrafts fresh drafts st root = .ok start) (hbased : Based root st) :
    start.Idle .init := by
  have hflows := flows_of_ofDrafts h
  obtain ⟨cells, directory, _, rfl⟩ := ofDrafts_eq_ok.mp h
  refine ⟨rfl, hbased, fun cell hcell => ?_⟩
  rw [hflows] at hcell
  obtain ⟨⟨name, p⟩, _, rfl⟩ := List.mem_map.mp hcell
  exact ⟨rfl, rfl⟩

/-- The outflows of flows at positions from a first one on. -/
def outflowsFrom (position : Nat) (cells : List FlowCell) : List Outflow :=
  (cells.zipIdx position).flatMap fun (cell, f) => cell.pipeline.outflows f

/-- The outflows are asked of the flows one after the other. -/
theorem leads_gather {before todo : List FlowCell} (found : List Outflow)
    (hflows : w.flows = before ++ todo) (hfree : ∀ cell ∈ todo, cell.holder = none) :
    LeadsTo w (.setUpAll (.gather (List.range' before.length todo.length) found)) (.ok .null) w
      (.setUpAll (.gather [] (found ++ outflowsFrom before.length todo))) (.ok .null) := by
  induction todo generalizing before found with
  | nil =>
      rw [outflowsFrom, List.zipIdx_nil, List.flatMap_nil, List.append_nil]
      exact LeadsTo.refl w _ _
  | cons cell rest ih =>
      obtain ⟨hcellFree, hfree⟩ := List.forall_mem_cons.mp hfree
      have hcell : w.flow? before.length = some cell := by
        rw [flow?, hflows, List.getElem?_append_right (Nat.le_refl _), Nat.sub_self]
        rfl
      have hstep : Activity.step w 0 (.ok .null) (.setUpAll (.gather
          (before.length :: List.range' (before.length + 1) rest.length) found)) =
          some (w, .next (.setUpAll (.gather (List.range' (before.length + 1) rest.length)
            (found ++ cell.pipeline.outflows before.length)))) := by
        change (w.outflowsOf before.length).bind _ = _
        rw [outflowsOf, hcell, Option.bind_some, hcellFree]
        rfl
      have hrest := ih (found ++ cell.pipeline.outflows before.length)
        (hflows.trans (List.append_cons before cell rest)) hfree
      rw [List.length_append, List.length_singleton, List.append_assoc] at hrest
      rw [List.length_cons, List.range'_succ, outflowsFrom, List.zipIdx_cons, List.flatMap_cons]
      exact (leads_of_goto rfl hstep).trans hrest

/-- A pass over all flows of a set. -/
theorem Pass.Runs.leads_set {P : Pass} {activity : FlowId → FlowCell → Activity}
    (h : P.Runs activity w.root w.directory) (point : List FlowId → SetUpPoint)
    (hnext : ∀ (w : World) f cell left, w.flow? f = some cell →
      w.setUpAll (.ok .null) (point (f :: left)) =
        some (w, .invoke (activity f cell) (.setUpAll (point left))))
    (hfailed : ∀ (w : World) e left, (∀ f ∈ left, f < w.flows.length) →
      w.setUpAll (.error e) (point left) = some (w, .exit (.error e)))
    (hidle : w.Idle P.before) :
    match P.all w.scopes w.flows with
    | .ok (st, cells) => ∃ w₁, LeadsTo w (.setUpAll (point w.set)) (.ok .null) w₁
        (.setUpAll (point [])) (.ok .null) ∧ w.Became w₁ st cells ∧ w₁.Idle P.after
    | .error e => ∃ w₁ f cell, Yields w (.setUpAll (point w.set)) (.ok .null) w₁ (.error e) ∧
        w₁.flow? f = some cell ∧ cell.state = P.before := by
  have hpass := h.leads_all hnext hfailed rfl rfl hidle.based
    (List.nil_append w.flows).symm hidle.cells
  rw [List.length_nil, ← List.range_eq_range', ← hidle.set] at hpass
  cases hall : P.all w.scopes w.flows with
  | error e =>
      rw [hall] at hpass
      exact hpass
  | ok made =>
      rw [hall] at hpass
      obtain ⟨w₁, hleads, hbecame⟩ := hpass
      obtain ⟨hbased, hkept⟩ := h.all_kept hidle.based hall
      refine ⟨w₁, hleads, hbecame, ?_, by rwa [hbecame.root, hbecame.scopes], ?_⟩
      · rw [hbecame.set, hidle.set, hbecame.flows, hkept.length_eq, List.nil_append]
      · intro cell' hcell'
        rw [hbecame.flows] at hcell'
        obtain ⟨i, hi, rfl⟩ := List.getElem_of_mem hcell'
        obtain ⟨_, hstate, hholder⟩ := hkept.get (hkept.length_eq ▸ hi) hi
        exact ⟨hstate, hholder.trans (hidle.cells _ (List.getElem_mem _)).2⟩

theorem Idle.leads_context (h : w.Idle .init) :
    match (contextPass w.root w.directory).all w.scopes w.flows with
    | .ok (st, cells) => ∃ w₁, LeadsTo w (.setUpAll (.context w.set)) (.ok .null) w₁
        (.setUpAll (.prepare w.set)) (.ok .null) ∧ w.Became w₁ st cells ∧ w₁.Idle .context
    | .error e => ∃ w₁ f cell, Yields w (.setUpAll (.context w.set)) (.ok .null) w₁ (.error e) ∧
        w₁.flow? f = some cell ∧ cell.state = .init := by
  have hpass := (contextPass_runs w.root w.directory).leads_set .context
    (fun _ _ _ _ _ => rfl) (fun _ _ left _ => by cases left <;> rfl) h
  cases hall : (contextPass w.root w.directory).all w.scopes w.flows with
  | error e =>
      rw [hall] at hpass
      exact hpass
  | ok made =>
      rw [hall] at hpass
      obtain ⟨w₁, hleads, hbecame, hidle⟩ := hpass
      have hgo : LeadsTo w₁ (.setUpAll (.context [])) (.ok .null) w₁ (.setUpAll (.prepare w₁.set))
          (.ok .null) := leads_of_goto rfl rfl
      rw [hbecame.set] at hgo
      exact ⟨w₁, hleads.trans hgo, hbecame, hidle⟩

theorem Idle.leads_prepare (h : w.Idle .context) :
    match preparePass.all w.scopes w.flows with
    | .ok (st, cells) => ∃ w₁, LeadsTo w (.setUpAll (.prepare w.set)) (.ok .null) w₁
        (.setUpAll (.wire w₁.set (outflowsFrom 0 cells))) (.ok .null) ∧ w.Became w₁ st cells ∧
        w₁.Idle .setup
    | .error e => ∃ w₁, Yields w (.setUpAll (.prepare w.set)) (.ok .null) w₁ (.error e) := by
  have hpass := (preparePass_runs w.root w.directory).leads_set .prepare
    (fun _ _ _ _ _ => rfl) (fun _ _ left _ => by cases left <;> rfl) h
  cases hall : preparePass.all w.scopes w.flows with
  | error e =>
      rw [hall] at hpass
      obtain ⟨w₁, _, _, hyields, _⟩ := hpass
      exact ⟨w₁, hyields⟩
  | ok made =>
      rw [hall] at hpass
      obtain ⟨w₁, hleads, hbecame, hidle⟩ := hpass
      have hgo : LeadsTo w₁ (.setUpAll (.prepare [])) (.ok .null) w₁
          (.setUpAll (.gather w₁.set [])) (.ok .null) := leads_of_goto rfl rfl
      have hgather := leads_gather [] (List.nil_append w₁.flows).symm
        fun cell hcell => (hidle.cells cell hcell).2
      rw [List.length_nil, ← List.range_eq_range', ← hidle.set] at hgather
      have hwire : LeadsTo w₁ (.setUpAll (.gather [] ([] ++ outflowsFrom 0 w₁.flows))) (.ok .null) w₁
          (.setUpAll (.wire w₁.set (outflowsFrom 0 w₁.flows))) (.ok .null) := leads_of_goto rfl rfl
      rw [hbecame.flows] at hgather hwire
      exact ⟨w₁, (hleads.trans hgo).trans (hgather.trans hwire), hbecame, hidle⟩

theorem Idle.yields_wire (h : w.Idle .setup) (all : List Outflow) :
    match (wirePass all).all w.scopes w.flows with
    | .ok (st, cells) => ∃ w₁, Yields w (.setUpAll (.wire w.set all)) (.ok .null) w₁ (.ok .null) ∧
        w.Became w₁ st cells
    | .error e => ∃ w₁, Yields w (.setUpAll (.wire w.set all)) (.ok .null) w₁ (.error e) := by
  have hpass := (wirePass_runs all w.root w.directory).leads_set
    (fun left => .wire left all) (fun w f cell left hcell => ?_) (fun w e left hleft => ?_) h
  · cases hall : (wirePass all).all w.scopes w.flows with
    | error e =>
        rw [hall] at hpass
        obtain ⟨w₁, _, _, hyields, _⟩ := hpass
        exact ⟨w₁, hyields⟩
    | ok made =>
        rw [hall] at hpass
        obtain ⟨w₁, hleads, hbecame, _⟩ := hpass
        exact ⟨w₁, hleads.yields (yields_of_exit rfl rfl), hbecame⟩
  · change (w.flow? f).bind _ = _
    rw [hcell]
    rfl
  · cases left with
    | nil => rfl
    | cons f left =>
        obtain ⟨cell, hcell⟩ : ∃ cell, w.flow? f = some cell :=
          ⟨_, List.getElem?_eq_getElem (hleft f List.mem_cons_self)⟩
        change (w.flow? f).bind _ = _
        rw [hcell]
        rfl

/-- What a set-up makes of the scopes and flows. -/
def setUp (w : World) : Except Error (Scope.Store × List FlowCell) := do
  let (st, cells) ← (contextPass w.root w.directory).all w.scopes w.flows
  let (st, cells) ← preparePass.all st cells
  (wirePass (outflowsFrom 0 cells)).all st cells

/-- A thread that sets the flows up by itself comes to its end. -/
structure SetsUp (w w₁ : World) (out : Outcome) : Prop where
  way : Alone (w.opened (.setUpAll (.context w.set)) []) w₁
  ended : w₁.step 0 = none
  result : w₁.result? 0 = some out

theorem setsUp_of_yields (h : Yields w (.setUpAll (.context w.set)) (.ok .null) w₁ out) :
    ∃ w₂, SetsUp w w₂ out ∧ w₂.scopes = w₁.scopes ∧ w₂.flows = w₁.flows := by
  obtain ⟨answer, hway⟩ := h [] (List.forall_mem_nil _)
  exact ⟨w₁.took [] answer (.exit out), ⟨hway, rfl, rfl⟩, rfl, rfl⟩

/-- There is one way for a thread to set flows up by itself. -/
theorem SetsUp.unique {out' : Outcome} (h : SetsUp w w₁ out) (h' : SetsUp w w₂ out') :
    w₂ = w₁ ∧ out' = out := by
  have hsame : w₂ = w₁ := (h.way.to_over h'.way h'.ended).eq_of_over h.ended
  have hresult := h'.result
  rw [hsame, h.result] at hresult
  exact ⟨hsame, (Option.some.inj hresult).symm⟩

/-- A set-up by itself comes to what its passes make of the flows. -/
theorem Idle.yields_setUp (h : w.Idle .init) :
    match w.setUp with
    | .ok (st, cells) => ∃ w₁, Yields w (.setUpAll (.context w.set)) (.ok .null) w₁ (.ok .null) ∧
        w₁.scopes = st ∧ w₁.flows = cells
    | .error e => ∃ w₁, Yields w (.setUpAll (.context w.set)) (.ok .null) w₁ (.error e) := by
  have hcontext := h.leads_context
  simp only [setUp, bind]
  cases hall₁ : (contextPass w.root w.directory).all w.scopes w.flows with
  | error e =>
      rw [hall₁] at hcontext
      obtain ⟨w₁, _, _, hyields, _⟩ := hcontext
      exact ⟨w₁, hyields⟩
  | ok made =>
      rw [hall₁] at hcontext
      obtain ⟨w₁, hleads₁, hbecame₁, hidle₁⟩ := hcontext
      have hprepare := hidle₁.leads_prepare
      rw [hbecame₁.scopes, hbecame₁.flows, hbecame₁.set] at hprepare
      simp only [Except.bind]
      cases hall₂ : preparePass.all made.1 made.2 with
      | error e =>
          rw [hall₂] at hprepare
          obtain ⟨w₂, hyields⟩ := hprepare
          exact ⟨w₂, hleads₁.yields hyields⟩
      | ok made =>
          rw [hall₂] at hprepare
          obtain ⟨w₂, hleads₂, hbecame₂, hidle₂⟩ := hprepare
          have hwire := hidle₂.yields_wire (outflowsFrom 0 made.2)
          rw [hbecame₂.scopes, hbecame₂.flows] at hwire
          dsimp only
          cases hall₃ : (wirePass (outflowsFrom 0 made.2)).all made.1 made.2 with
          | error e =>
              rw [hall₃] at hwire
              obtain ⟨w₃, hyields⟩ := hwire
              exact ⟨w₃, (hleads₁.trans hleads₂).yields hyields⟩
          | ok made =>
              rw [hall₃] at hwire
              obtain ⟨w₃, hyields, hbecame₃⟩ := hwire
              exact ⟨w₃, (hleads₁.trans hleads₂).yields hyields, hbecame₃.scopes, hbecame₃.flows⟩

/-- A set-up by itself ends well exactly if its passes make something of the flows. -/
theorem Idle.setsUp_iff (h : w.Idle .init) {v : Value} :
    SetsUp w w₁ (.ok v) ↔ v = .null ∧ SetsUp w w₁ (.ok .null) ∧
      w.setUp = .ok (w₁.scopes, w₁.flows) := by
  have hyields := h.yields_setUp
  constructor
  · intro hsets
    cases hmade : w.setUp with
    | error e =>
        rw [hmade] at hyields
        obtain ⟨w₂, hyields⟩ := hyields
        obtain ⟨w₃, hsets', _⟩ := setsUp_of_yields hyields
        cases (hsets.unique hsets').2
    | ok made =>
        rw [hmade] at hyields
        obtain ⟨w₂, hyields, hscopes, hflows⟩ := hyields
        obtain ⟨w₃, hsets', hscopes', hflows'⟩ := setsUp_of_yields hyields
        obtain ⟨rfl, hout⟩ := hsets.unique hsets'
        cases hout
        exact ⟨rfl, hsets, by rw [hscopes', hflows', hscopes, hflows]⟩
  · rintro ⟨rfl, hsets, _⟩
    exact hsets

end World
end Engine
end PullFlow
