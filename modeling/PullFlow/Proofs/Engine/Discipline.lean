import PullFlow.Proofs.Engine.Payload

/-!
What a thread can rely on when it makes calls from within calls, whatever the evaluations inside
come to and whatever other threads do. It is turned away exactly from flows that it is in a call of,
and that touches no flow. While it is in a call, the source of the called flow yields the payload of
that call. When the call is over, the call stack is as it was before and the payload is gone.
-/

namespace PullFlow.Engine.World

variable {w w' start : World} {t : ThreadId} {f : FlowId} {a : Activity} {rest : List Activity}
  {trace : List Taken} {P : Plan} {name : String} {payload : Value} {first : Activity}
  {calls : List Activity} {fresh : Nat → String} {drafts : List FlowDraft}
  {scopes : Scope.Store} {root : ScopeId}

/-- A flow that can be called, under its name. -/
def Offers (w : World) (name : String) (f : FlowId) : Prop :=
  ∃ cell, w.flow? f = some cell ∧ cell.name = name ∧ cell.callable = true

/-- A thread has come back from the activity that it was busy with, for the first time. -/
structure CameBack (w : World) (t : ThreadId) (trace : List Taken) (w' : World) : Prop where
  inside : ∀ taken ∈ trace, taken.thread = t →
    (w.stackOf t).length ≤ (taken.before.stackOf t).length
  returns : (w'.stackOf t).length + 1 = (w.stackOf t).length

/-- What threads can rely on that make calls. -/
structure Disciplined (w : World) : Prop where
  /-- A call of a flow whose call the thread is in fails, and no flow is touched by it; every other
  call goes on. -/
  entry : ∀ t name f payload, w.doing? t = some (.call name f payload .enter) →
    ∃ w', w.step t = some w' ∧ w'.flows = w.flows ∧ (w.InCall t f → w' = w.turnedAway t name) ∧
      (¬ w.InCall t f → w'.doing? t = some (.call name f payload .lock))
  /-- Whenever a thread that is in a call of a flow reads the chain of the flow, the source yields
  the payload of the call. -/
  reads : ∀ t name f payload point q p, .call name f payload point ∈ w.stackOf t →
    w.doing? t = some (.pull f q) → w.pipeline? f = some p → p.slot? ≠ none →
    p.chain.source.body.begin.2 = .reply (.ok payload)
  /-- A call gives the lock of the flow back with nothing in the slot. -/
  emptied : ∀ t name f payload out, .call name f payload (.unlock out) ∈ w.stackOf t →
    ∀ slot, w.slot? f = some slot → slot = none
  /-- After a call the call stack is as it was before, and what is in the slot is the payload of a
  call of another thread, unless the flow was being called before. -/
  returned : ∀ t name f payload rest trace w', w.stackOf t = .call name f payload .latch :: rest →
    Run w trace w' → CameBack w t trace w' → w'.callsOf t = w.callsOf t ∧
      (¬ w.InCall t f → ∀ v, w'.slot? f = some (some v) →
        ∃ u, u ≠ t ∧ ∃ a ∈ w'.stackOf u, a.gives? f = some v)

theorem stackOf_of_doing (h : w.doing? t = some a) :
    ∃ th rest, w.threads[t]? = some th ∧ th.stack = a :: rest := by
  cases hth : w.threads[t]? with
  | none => simp [doing?, stackOf, hth] at h
  | some th =>
      rw [doing?, stackOf_of_get hth] at h
      obtain ⟨rest, hrest⟩ := List.head?_eq_some_iff.mp h
      exact ⟨th, rest, rfl, hrest⟩

theorem doing?_goto {th : Thread} (h : w.threads[t]? = some th) {out : Outcome} :
    (w.turn t (.goto a out)).doing? t = some a := by
  rw [doing?, stackOf_turn_self h]
  rfl

namespace CallsKept

/-- Whether a call is let in is decided by the call stack. -/
theorem entry (hw : CallsKept P w) (hnames : ∀ g target, P.Meets g target → P.name g = target)
    (h : w.doing? t = some (.call name f payload .enter)) :
    ∃ w', w.step t = some w' ∧ w'.flows = w.flows ∧ (w.InCall t f → w' = w.turnedAway t name) ∧
      (¬ w.InCall t f → w'.doing? t = some (.call name f payload .lock)) := by
  obtain ⟨th, rest, hth, hstack⟩ := stackOf_of_doing h
  obtain ⟨below, htasks⟩ := tasks_of_doing h
  have hmeets : P.Meets f name :=
    hw.met t (.call name f payload .enter) (htasks ▸ List.mem_cons_self)
  have hcalls : w.callsOf t = th.calls := by rw [callsOf, hth]; rfl
  have hstep : w.step t = (w.call t name f payload th.answer .enter).map fun r =>
      r.1.turn t r.2 := by
    simp only [step, hth, hstack]
    rfl
  rw [hw.inCall_iff hnames hmeets, hstep, hcalls]
  simp only [World.call, hth, Option.map_some]
  by_cases hin : name ∈ th.calls
  · rw [if_pos (List.contains_iff_mem.mpr hin)]
    refine ⟨_, rfl, rfl, fun _ => ?_, fun hnot => absurd hin hnot⟩
    rw [turnedAway, ← callNames_tasks, ← hw.calls, hcalls]
  · rw [if_neg (mt List.contains_iff_mem.mp hin)]
    have hthread :
        (w.modifyThread t fun th => { th with calls := th.calls ++ [name] }).threads[t]? =
          some { th with calls := th.calls ++ [name] } := by
      simp only [modifyThread, List.getElem?_modify, hth, if_true]
      rfl
    exact ⟨_, rfl, rfl, fun hmem => absurd hmem hin, fun _ => doing?_goto hthread⟩

/-- Where a thread stands below what it is busy with, its calls wait for their evaluations. -/
theorem reads (hw : CallsKept P w) (hslots : Slots w) {point : CallPoint} {q : PullPoint}
    {p : Pipeline} (hcall : .call name f payload point ∈ w.stackOf t)
    (h : w.doing? t = some (.pull f q)) (hp : w.pipeline? f = some p) (hslot : p.slot? ≠ none) :
    p.chain.source.body.begin.2 = .reply (.ok payload) := by
  obtain ⟨rest, htasks⟩ := tasks_of_doing h
  have hmem := mem_tasks_call.mpr hcall
  have hbelow : .call name f payload point ∈ rest := by
    rw [htasks] at hmem
    obtain hsame | hmem := List.mem_cons.mp hmem
    · cases hsame
    · exact hmem
  obtain rfl := (htasks ▸ hw.stacked t).call_below hbelow
  obtain ⟨slot, hfound⟩ := Option.ne_none_iff_exists'.mp hslot
  have hpayload := hslots.given t _ hmem f payload (by rw [Activity.gives?, if_pos rfl]) slot
    (by rw [slot?, hp]; exact hfound)
  exact SourceBody.begin_of_slot (hpayload ▸ hfound)

theorem emptied (hw : CallsKept P w) (hslots : Slots w) {out : Outcome} {slot : Option Value}
    (hcall : .call name f payload (.unlock out) ∈ w.stackOf t) (hslot : w.slot? f = some slot) :
    slot = none := by
  cases slot with
  | none => rfl
  | some v =>
      obtain ⟨u, b, hb, hgives⟩ := hslots.giver f v hslot
      obtain ⟨rest, htasks⟩ :=
        (hw.stacked t).call_top (mem_tasks_call.mpr hcall) CallPoint.noConfusion
      obtain ⟨rfl, hnot⟩ := hw.locked.sole htasks rfl hb (holds_of_gives hgives)
      rw [htasks] at hb
      obtain rfl := (List.mem_cons.mp hb).resolve_right hnot
      cases hgives

/-- The calls of a thread after it has come back are those of before. -/
theorem returned (hw : CallsKept P w) (hslots : Slots w) {trace : List Taken}
    (h : w.stackOf t = .call name f payload .latch :: rest) (hrun : Run w trace w')
    (hback : CameBack w t trace w') : w'.callsOf t = w.callsOf t ∧ (¬ w.InCall t f → ∀ v,
      w'.slot? f = some (some v) → ∃ u, u ≠ t ∧ ∃ a ∈ w'.stackOf u, a.gives? f = some v) := by
  have hlength (w : World) : (w.tasks t).length = (w.stackOf t).length := by
    rw [tasks_eq, List.length_map]
  have htasks : w.tasks t = [.call name f payload .latch] ++ rest.map quiet := by
    rw [tasks_eq, h]
    rfl
  obtain ⟨front, hfront⟩ := hrun.rest_stays htasks fun taken htaken hself => by
    have hinside := hback.inside taken htaken hself
    rw [h, List.length_cons] at hinside
    rw [hlength, List.length_map]
    exact hinside
  have hreturns := hback.returns
  rw [h, List.length_cons, Nat.add_right_cancel_iff, ← hlength, hfront, List.length_append,
    List.length_map] at hreturns
  obtain rfl := List.eq_nil_of_length_eq_zero (Nat.add_eq_right.mp hreturns)
  constructor
  · rw [(hrun.callsKept hw).calls, hfront, hw.calls, htasks, callNames_append [_]]
    exact (List.append_nil _).symm
  · intro hnot v hv
    obtain ⟨u, b, hb, hgives⟩ := (hrun.slots hw hslots).giver f v hv
    obtain ⟨name', point, rfl, hcalling⟩ := calling_of_gives hgives
    refine ⟨u, ?_, _, mem_tasks_call.mp hb, hgives⟩
    rintro rfl
    rw [hfront, List.nil_append] at hb
    exact hnot ⟨_, mem_tasks_call.mp (htasks ▸ List.mem_append_right _ hb), name', hcalling⟩

theorem disciplined (hw : CallsKept P w) (hslots : Slots w)
    (hnames : ∀ g target, P.Meets g target → P.name g = target) : Disciplined w where
  entry _ _ _ _ h := hw.entry hnames h
  reads _ _ _ _ _ _ _ hcall h hp hslot := hw.reads hslots hcall h hp hslot
  emptied _ _ _ _ _ hcall _ hslot := hw.emptied hslots hcall hslot
  returned _ _ _ _ _ _ _ h hrun hback := hw.returned hslots h hrun hback

end CallsKept

section Drafts

variable (hmade : ofDrafts fresh drafts scopes root = .ok start)

include hmade

theorem names_of_drafts (g : FlowId) (target : String) (h : start.plan.Meets g target) :
    start.plan.name g = target := by
  obtain ⟨peer, hpeer, _, rfl⟩ := h
  obtain ⟨cell, hcell, rfl, _⟩ := peer_of_ofDrafts hmade hpeer
  simp [plan, hcell]

theorem meets_of_offers (h : start.Offers name f) : start.plan.Meets f name := by
  obtain ⟨cell, hcell, rfl, hcallable⟩ := h
  refine ⟨_, ((assembled_of_ofDrafts hmade).entered f cell hcell).2, hcallable, ?_⟩
  exact Nat.zero_add f

/-- Before a run no thread is in a call. -/
theorem callsKept_of_drafts (hnew : ∀ p ∈ drafts, p.untouched = true)
    (hcalls : ∀ a ∈ first :: calls, a.begins = true)
    (hwire : ∀ g inflows, .wire g inflows .check ∉ first :: calls)
    (hoffered : ∀ name f payload p, .call name f payload p ∈ first :: calls → start.Offers name f) :
    CallsKept start.plan (start.opened first calls) := by
  refine ⟨wellLocked_of_drafts hmade hnew hcalls hwire, stacked_opened start hcalls, ?_, ?_⟩
  · intro t b hb
    obtain ⟨a, ha, rfl⟩ := mem_tasks_opened hb
    cases a with
    | call name f payload p => exact meets_of_offers hmade (hoffered name f payload p ha)
    | _ => trivial
  · intro t
    have hempty : (start.opened first calls).callsOf t = [] := by
      simp only [callsOf, opened, List.getElem?_map]
      cases (first :: calls)[t]? <;> rfl
    rw [hempty]
    obtain hnone | ⟨a, ha, hone⟩ := tasks_opened start first calls t
    · rw [hnone]
      rfl
    · rw [hone, callNames_cons, calling?_quiet, calling?_of_begins (hcalls a ha)]
      rfl

/-- Before a run all slots are empty. -/
theorem slots_of_drafts (hslots : ∀ p ∈ drafts, ∀ source ∈ p.source, source.body.slot? = none)
    (hcalls : ∀ a ∈ first :: calls, a.begins = true) : Slots (start.opened first calls) := by
  constructor
  · intro t b hb f v hgives
    obtain ⟨a, ha, rfl⟩ := mem_tasks_opened hb
    rw [gives?_quiet] at hgives
    obtain ⟨name, p, rfl, hcalling⟩ := calling_of_gives hgives
    rw [calling?_of_begins (hcalls _ ha)] at hcalling
    cases hcalling
  · intro f v hslot
    change start.slot? f = some (some v) at hslot
    obtain ⟨pipeline, hpipeline, hslot⟩ := Option.bind_eq_some_iff.mp hslot
    obtain ⟨cell, hcell, rfl⟩ := Option.map_eq_some_iff.mp hpipeline
    obtain ⟨p, hp, name, fed, rfl⟩ := draft_of_ofDrafts hmade hcell
    change (p.chooseSource fed).body.slot? = some (some v) at hslot
    unfold FlowDraft.chooseSource at hslot
    split at hslot
    · next source hsource =>
      rw [hslots p hp source hsource] at hslot
      cases hslot
    · split at hslot
      · cases hslot
      · split at hslot <;> cases hslot

/-- Threads that come with calls from outside, each of them to a flow under its name, can rely on
all calls, and in a set that an accepted document describes every call is let in. -/
theorem calls_disciplined (hnew : ∀ p ∈ drafts, p.untouched = true)
    (hslots : ∀ p ∈ drafts, ∀ source ∈ p.source, source.body.slot? = none)
    (hcalls : ∀ a ∈ first :: calls, a.begins = true)
    (hwire : ∀ g inflows, .wire g inflows .check ∉ first :: calls)
    (hoffered : ∀ name f payload p, .call name f payload p ∈ first :: calls → start.Offers name f)
    (hrun : Run (start.opened first calls) trace w) :
    Disciplined w ∧ ∀ fresh d vars, ofDocument Catalog.registry fresh d vars = .ok start →
      ∀ t name f payload, w.doing? t = some (.call name f payload .enter) →
        ∃ w', w.step t = some w' ∧ w'.doing? t = some (.call name f payload .lock) := by
  have hkept := hrun.callsKept (callsKept_of_drafts hmade hnew hcalls hwire hoffered)
  have hfilled := hrun.slots (callsKept_of_drafts hmade hnew hcalls hwire hoffered)
    (slots_of_drafts hmade hslots hcalls)
  refine ⟨hkept.disciplined hfilled (names_of_drafts hmade), ?_⟩
  intro fresh d vars haccepted t name f payload h
  obtain ⟨rest, htasks⟩ := tasks_of_doing h
  obtain ⟨w', hstep, _, _, hlet⟩ := hkept.entry (names_of_drafts hmade) h
  exact ⟨w', hstep, hlet (hkept.not_inCall haccepted htasks)⟩

end Drafts

/-- Two flows that call each other, which no check has seen. -/
def echoDrafts : List FlowDraft :=
  let caller (name target : String) : FlowDraft :=
    ⟨some name, none,
      [.make Blueprint.flowKind (.call .whole target none) ⟨[.flow target], []⟩], none,
      some (.make "call" .onCall .none)⟩
  [caller "a" "b", caller "b" "a"]

def echo : World :=
  (ofDrafts (fun _ => "") echoDrafts Scope.Store.empty.addRoot.1 0).toOption.getD empty

/-- One thread runs the flows, one calls the first of them. -/
def echoOpened : World := echo.opened (.runAll .begin) [.call "a" 0 (.int 1) .latch]

/-- The call has come back to its flow by way of the other one. -/
def echoReturns : World :=
  (echoOpened.replay [] (List.replicate 120 0 ++ List.replicate 15 1)).2

/-- The flow that a thread is about to be let into. -/
def enters? (w : World) (t : ThreadId) : Option (String × FlowId) :=
  (w.doing? t).bind fun a =>
    match a with
    | .call name f _ .enter => some (name, f)
    | _ => none

theorem doing_of_enters (h : w.enters? t = some (name, f)) :
    ∃ payload, w.doing? t = some (.call name f payload .enter) := by
  obtain ⟨a, ha, h⟩ := Option.bind_eq_some_iff.mp h
  rw [ha]
  split at h <;> cases h
  exact ⟨_, rfl⟩

/-- A call that comes back to a flow whose call is in progress is turned away. -/
theorem echo_turned_away : callNames (echoReturns.stackOf 1) = ["a", "b"] ∧
    echoReturns.enters? 1 = some ("a", 0) ∧
    echoReturns.step 1 = some (echoReturns.turnedAway 1 "a") := by
  have hmade : ofDrafts (fun _ => "") echoDrafts Scope.Store.empty.addRoot.1 0 = .ok echo :=
    made_of_isOk (by decide +kernel)
  have hoffers : (echo.flow? 0).map (fun cell => (cell.name, cell.callable)) =
      some ("a", true) := by decide +kernel
  have hnames : callNames (echoReturns.stackOf 1) = ["a", "b"] := by decide +kernel
  have henters : echoReturns.enters? 1 = some ("a", 0) := by decide +kernel
  have hinside : (echoReturns.stackOf 1).any (fun a => a.calling? = some ("a", 0)) = true := by
    decide +kernel
  have hoffered (name : String) (f : FlowId) (payload : Value) (p : CallPoint)
      (hcall : Activity.call name f payload p ∈
        [Activity.runAll .begin, .call "a" 0 (.int 1) .latch]) : echo.Offers name f := by
    obtain ⟨rfl, rfl, _⟩ : name = "a" ∧ f = 0 ∧ payload = .int 1 ∧ p = .latch := by
      simpa using hcall
    obtain ⟨cell, hcell, hsame⟩ := Option.map_eq_some_iff.mp hoffers
    exact ⟨cell, hcell, Prod.mk.inj hsame⟩
  have hrun : Run echoOpened _ echoReturns := run_replay .refl _
  obtain ⟨hkept, _⟩ := calls_disciplined hmade (by decide) (by simp [echoDrafts])
    (by simp [Activity.begins]) (by simp) hoffered hrun
  obtain ⟨payload, hdoing⟩ := doing_of_enters henters
  obtain ⟨w', hstep, _, haway, _⟩ := hkept.entry 1 "a" 0 payload hdoing
  obtain ⟨a, ha, hcalling⟩ := List.any_eq_true.mp hinside
  rw [haway ⟨a, ha, "a", of_decide_eq_true hcalling⟩] at hstep
  exact ⟨hnames, henters, hstep⟩

end PullFlow.Engine.World
