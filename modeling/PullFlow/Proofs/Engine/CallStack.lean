import PullFlow.Proofs.Engine.Latch

/-!
Calls of flows from within calls. A call puts the name of its flow on the call stack of its thread
when it is let in and takes it off at its end, whatever goes on in between. So the call stack of a
thread names the flows whose calls wait on its stack of activities, and a call of one of them is
turned away. Calls go along the connections that a set of flows is made with, so in a set whose
document has no ring of calls none is turned away.
-/

namespace PullFlow.Engine

open Relation

/-- The flow whose call an activity is, once the call was let in. -/
def Activity.calling? : Activity → Option (String × FlowId)
  | .call _ _ _ .latch | .call _ _ _ .enter => none
  | .call name f _ _ => some (name, f)
  | _ => none

/-- From where to where a call goes. -/
inductive CallPoint.Leads : CallPoint → CallPoint → Prop
  | latch : Leads .latch .enter
  | enter : Leads .enter .lock
  | lock : Leads .lock .inject
  | inject : Leads .inject .pulled
  | pulled {out : Outcome} : Leads .pulled (.clear out)
  | clear {out : Outcome} : Leads (.clear out) (.unlock out)
  | unlock {out : Outcome} : Leads (.unlock out) (.leave out)

/-- The names of the flows that are being called on a stack, the outermost first. -/
def callNames (stack : List Activity) : List String :=
  ((stack.filterMap Activity.calling?).map Prod.fst).reverse

/-- A call goes to the flow of its name. -/
def Activity.Met (P : Plan) : Activity → Prop
  | .call name f _ _ => P.Meets f name
  | _ => True

section Frames

variable {a b back : Activity} {rest : List Activity} {turn : Turn} {P : Plan} {name : String}
  {f : FlowId} {payload : Value} {p : CallPoint}

@[simp] theorem calling?_quiet (a : Activity) : (quiet a).calling? = a.calling? := by
  cases a <;> rfl

@[simp] theorem met_quiet : (quiet a).Met P ↔ a.Met P := by
  cases a <;> rfl

theorem eq_call_of_calling (h : a.calling? = some (name, f)) :
    ∃ payload p, a = .call name f payload p := by
  unfold Activity.calling? at h
  split at h <;> cases h
  exact ⟨_, _, rfl⟩

@[simp] theorem callNames_quiet (stack : List Activity) :
    callNames (stack.map quiet) = callNames stack := by
  have hsame : Activity.calling? ∘ quiet = Activity.calling? := funext calling?_quiet
  rw [callNames, List.filterMap_map, hsame, callNames]

theorem callNames_cons (a : Activity) (rest : List Activity) :
    callNames (a :: rest) = callNames rest ++ (a.calling?.map Prod.fst).toList := by
  cases h : a.calling? <;> simp [callNames, h]

theorem callNames_append (front rest : List Activity) :
    callNames (front ++ rest) = callNames rest ++ callNames front := by
  simp [callNames]

theorem mem_callNames {stack : List Activity} :
    name ∈ callNames stack ↔ ∃ a ∈ stack, ∃ f, a.calling? = some (name, f) := by
  simp only [callNames, List.mem_reverse, List.mem_map, List.mem_filterMap, Prod.exists]
  constructor
  · rintro ⟨_, f, ⟨a, ha, hf⟩, rfl⟩
    exact ⟨a, ha, f, hf⟩
  · rintro ⟨a, ha, f, hf⟩
    exact ⟨name, f, ⟨a, ha, hf⟩, rfl⟩

/-- A call that an activity asks for is yet to be let in. -/
theorem calling?_of_asks (h : back.Asks a) : a.calling? = none := by
  cases h with
  | chain hr | sink hr =>
      unfold Activity.requested at hr
      split at hr <;> first | rfl | cases hr
  | _ => rfl

/-- No thread comes with a call that was let in. -/
theorem calling?_of_begins (h : a.begins = true) : a.calling? = none := by
  unfold Activity.begins at h
  split at h <;> first | rfl | cases h

/-- Only a call goes on as a call. -/
theorem calling?_of_continues (h : a.Continues b)
    (ha : ∀ name f payload p, a ≠ .call name f payload p) : b.calling? = none := by
  cases h with
  | call => exact absurd rfl (ha _ _ _ _)
  | _ => rfl

/-- What is no call leaves no call in progress behind. -/
theorem callNames_frames (h : turn.Stacks a) (ha : ∀ name f payload p, a ≠ .call name f payload p) :
    callNames turn.frames = [] := by
  cases turn with
  | goto b out => simp [Turn.frames, callNames, calling?_of_continues h ha]
  | invoke callee back =>
      simp [Turn.frames, callNames, calling?_of_asks h.1, calling?_of_continues h.2 ha]
  | exit out => rfl

/-- A call asks for nothing but the evaluation of the chain of its flow. -/
theorem Stacked.call_below (h : Stacked (a :: rest)) (hmem : .call name f payload p ∈ rest) :
    p = .pulled := by
  induction rest generalizing a with
  | nil => cases hmem
  | cons back below ih =>
      cases h with
      | cons hawaits hrest =>
      obtain rfl | hmem := List.mem_cons.mp hmem
      · obtain ⟨callee, hasks, _⟩ := hawaits
        cases hasks with
        | call => rfl
        | move hmover => cases hmover
      · exact ih hrest hmem

theorem Stacked.call_top {stack : List Activity} (h : Stacked stack)
    (hmem : .call name f payload p ∈ stack) (hp : p ≠ .pulled) :
    ∃ rest, stack = .call name f payload p :: rest := by
  cases stack with
  | nil => cases hmem
  | cons a rest =>
      obtain rfl | hmem := List.mem_cons.mp hmem
      · exact ⟨rest, rfl⟩
      · exact absurd (h.call_below hmem) hp

/-- The way from a flow whose lock is had to the call or the read that stands above. -/
theorem Nested.path {E : FlowId → FlowId → Prop} {g : FlowId} (h : Nested E (a :: rest))
    (ha : a.layer = .entry f) (hmem : g ∈ locksOf rest) : TransGen E g f := by
  have hrests := h.rests
  rw [Rests, ha] at hrests
  obtain hnone | ⟨b, below, f', rfl, hb, hedge⟩ := hrests
  · rw [hnone] at hmem
    cases hmem
  · simp only [locksOf_cons, free_of_inside hb, Option.toList_none, List.nil_append] at hmem
    obtain rfl | hpath := h.tail.leads hb g hmem
    · exact .single hedge
    · exact hpath.tail hedge

end Frames

namespace World

variable {w w₁ w' start : World} {t u : ThreadId} {f g : FlowId} {a b : Activity} {answer : Outcome}
  {rest front : List Activity} {turn : Turn} {trace : List Taken} {P : Plan} {name : String}
  {payload : Value} {p : CallPoint}

/-- A thread is in a call of a flow. -/
def InCall (w : World) (t : ThreadId) (f : FlowId) : Prop :=
  ∃ a ∈ w.stackOf t, ∃ name, a.calling? = some (name, f)

/-- The call that a thread is about to make is turned away, with the flows that are being called. -/
def turnedAway (w : World) (t : ThreadId) (name : String) : World :=
  w.turn t (.exit (.error (.configuration (.callRing (callNames (w.stackOf t) ++ [name])))))

theorem mem_tasks_call :
    .call name f payload p ∈ w.tasks t ↔ .call name f payload p ∈ w.stackOf t := by
  rw [tasks_eq, List.mem_map]
  constructor
  · rintro ⟨a, ha, hsame⟩
    cases a <;> cases hsame
    exact ha
  · exact fun h => ⟨_, h, rfl⟩

theorem callNames_tasks (w : World) (t : ThreadId) :
    callNames (w.tasks t) = callNames (w.stackOf t) := by
  rw [tasks_eq, callNames_quiet]

/-! The call stack. -/

/-- A call goes on at its next point, with the evaluation of the chain first, or it is over. -/
theorem call_turn (h : w.call t name f payload answer p = some (w₁, turn)) :
    (∃ q, p.Leads q ∧ (p = .enter → name ∉ w.callsOf t) ∧
      (turn.frames = [.call name f payload q] ∨
        p = .inject ∧ turn.frames = [.pull f .enter, .call name f payload q])) ∨
    turn.frames = [] ∧ (p = .enter ∧ name ∈ w.callsOf t ∨ ∃ out, p = .leave out) := by
  cases p with
  | latch =>
      obtain ⟨cell, _, h⟩ := Option.bind_eq_some_iff.mp h
      split at h <;> cases h
      exact .inl ⟨_, .latch, CallPoint.noConfusion, .inl rfl⟩
  | enter =>
      obtain ⟨th, hget, h⟩ := Option.map_eq_some_iff.mp h
      have hcalls : w.callsOf t = th.calls := by rw [callsOf, hget]; rfl
      rw [hcalls]
      split at h
      · next hin =>
        cases h
        exact .inr ⟨rfl, .inl ⟨rfl, List.contains_iff_mem.mp hin⟩⟩
      · next hnot =>
        cases h
        exact .inl ⟨_, .enter, fun _ hmem => hnot (List.contains_iff_mem.mpr hmem), .inl rfl⟩
  | lock =>
      obtain ⟨w₂, _, h⟩ := Option.map_eq_some_iff.mp h
      cases h
      exact .inl ⟨_, .lock, CallPoint.noConfusion, .inl rfl⟩
  | inject =>
      obtain ⟨cell, _, h⟩ := Option.map_eq_some_iff.mp h
      refine .inl ⟨_, .inject, CallPoint.noConfusion, ?_⟩
      split at h <;> cases h
      · exact .inl rfl
      · exact .inr ⟨rfl, rfl⟩
  | pulled =>
      cases h
      exact .inl ⟨_, .pulled, CallPoint.noConfusion, .inl rfl⟩
  | clear out =>
      cases h
      exact .inl ⟨_, .clear, CallPoint.noConfusion, .inl rfl⟩
  | unlock out =>
      cases h
      exact .inl ⟨_, .unlock, CallPoint.noConfusion, .inl rfl⟩
  | leave out =>
      cases h
      exact .inr ⟨rfl, .inr ⟨out, rfl⟩⟩

/-- A thread comes into a call or out of one only where it is let in or where the call ends. -/
theorem Acts.callsOf (h : Acts w t answer a w₁) (hu : u = t → ∀ name f payload p,
    a = .call name f payload p → p ≠ .enter ∧ ∀ out, p ≠ .leave out) :
    w₁.callsOf u = w.callsOf u := by
  have hother (hself : u ≠ t) (change : Thread → Thread) :
      (w.modifyThread t change).callsOf u = w.callsOf u := by
    rw [callsOf_modifyThread, if_neg (Ne.symm hself)]
  cases h with
  | leaves _ hleaves | works _ _ hleaves => exact hleaves.calls u
  | enter _ => exact hother (fun hself => (hu hself _ _ _ _ rfl).1 rfl) _
  | leave => exact hother (fun hself => (hu hself _ _ _ _ rfl).2 _ rfl) _
  | _ => rfl

/-- The call stack after the calls of a thread were changed. -/
theorem callsOf_change (h : w.tasks t = a :: rest) (change : List String → List String) :
    (w.modifyThread t fun th => { th with calls := change th.calls }).callsOf t =
      change (w.callsOf t) := by
  rw [callsOf_modifyThread, if_pos rfl, callsOf]
  cases hth : w.threads[t]? with
  | some th => rfl
  | none =>
      rw [tasks_eq, stackOf, hth] at h
      cases h

theorem Acts.callsOf_enter (h : Acts w t answer (.call name f payload .enter) w₁)
    (htasks : w.tasks t = b :: rest) : w₁.callsOf t =
      if name ∈ w.callsOf t then w.callsOf t else w.callsOf t ++ [name] := by
  cases h with
  | enter hnot =>
      rw [if_neg hnot]
      exact callsOf_change htasks (· ++ [name])
  | refuse hin => rw [if_pos hin]
  | leaves hworks _ => cases hworks
  | works _ hworks _ => cases hworks
  | absent _ hpoint =>
      obtain ⟨_, _, _, hsame⟩ | ⟨_, _, hsame⟩ := hpoint <;> cases hsame

theorem Acts.callsOf_leave {out : Outcome}
    (h : Acts w t answer (.call name f payload (.leave out)) w₁) (htasks : w.tasks t = b :: rest) :
    w₁.callsOf t = (w.callsOf t).dropLast := by
  cases h with
  | leave => exact callsOf_change htasks List.dropLast
  | leaves hworks _ => cases hworks
  | works _ hworks _ => cases hworks
  | absent _ hpoint =>
      obtain ⟨_, _, _, hsame⟩ | ⟨_, _, hsame⟩ := hpoint <;> cases hsame

theorem Takes.call (h : Takes w t (.call name f payload p) rest w₁ turn) :
    w.call t name f payload (w.answerOf t) p = some (w₁, turn) := by
  obtain hstep | ⟨_, _, hhost, _⟩ := h.does
  · exact hstep
  · cases hhost

/-- A call is on the call stack from where it is let in up to its end. -/
theorem Takes.callStack (h : Takes w t a rest w₁ turn)
    (hcalls : w.callsOf t = callNames (w.tasks t)) :
    (w₁.turn t turn).callsOf t = callNames ((w₁.turn t turn).tasks t) := by
  have htasks := h.goes.tasks
  rw [callsOf_turn, h.goes.tasks_self, callNames_append, callNames_quiet]
  rw [htasks, callNames_cons, calling?_quiet] at hcalls
  by_cases hcall : ∃ name f payload p, a = .call name f payload p
  · obtain ⟨name, f, payload, p, rfl⟩ := hcall
    obtain ⟨q, hleads, hfree, hframes⟩ | ⟨hframes, ⟨rfl, hin⟩ | ⟨out, rfl⟩⟩ := call_turn h.call
    · have hnames : callNames turn.frames =
          ((Activity.call name f payload q).calling?.map Prod.fst).toList := by
        obtain hframes | ⟨_, hframes⟩ := hframes
        · rw [hframes, callNames_cons]
          rfl
        · rw [hframes, callNames_cons, callNames_cons]
          exact List.append_nil _
      rw [hnames]
      have hkept (henter : p ≠ .enter) (hleave : ∀ out, p ≠ .leave out) :
          w₁.callsOf t = w.callsOf t := by
        refine h.acts.callsOf fun _ _ _ _ _ hsame => ?_
        cases hsame
        exact ⟨henter, hleave⟩
      cases hleads with
      | enter =>
          rw [h.acts.callsOf_enter htasks, if_neg (hfree rfl), hcalls]
          exact congrArg (· ++ [name]) (List.append_nil _)
      | _ => exact (hkept CallPoint.noConfusion fun _ => CallPoint.noConfusion).trans hcalls
    · rw [hframes, h.acts.callsOf_enter htasks, if_pos hin, hcalls]
      rfl
    · rw [hframes, h.acts.callsOf_leave htasks, hcalls]
      exact List.dropLast_concat.trans (List.append_nil _).symm
  · have hother (name : String) (f : FlowId) (payload : Value) (p : CallPoint) :
        a ≠ .call name f payload p := fun hsame => hcall ⟨name, f, payload, p, hsame⟩
    have hnone : a.calling? = none := by
      cases a <;> first | rfl | exact absurd rfl (hother _ _ _ _)
    rw [h.acts.callsOf fun _ _ _ _ _ hsame => absurd hsame (hother _ _ _ _), hcalls, hnone,
      callNames_frames h.stacks hother]
    rfl

/-! Where calls go. -/

/-- What a component asks for on behalf of a chain is met by the flow of its name. -/
theorem serve_met {request : Request} {back : Activity} (hrequest : request.Tied (P.ties f))
    (hback : back.Met P) : ∀ b ∈ (w.serve request back).2.frames, b.Met P := by
  have hinvoke {callee : Activity} (hcallee : callee.Met P) :
      ∀ b ∈ (Turn.invoke callee back).frames, b.Met P :=
    List.forall_mem_cons.mpr ⟨hcallee, List.forall_mem_singleton.mpr hback⟩
  have hgoto {out : Outcome} : ∀ b ∈ (Turn.goto back out).frames, b.Met P :=
    List.forall_mem_singleton.mpr hback
  cases request with
  | payload o =>
      simp only [serve]
      split
      · exact hinvoke trivial
      · exact hgoto
  | stopAll =>
      simp only [serve]
      split
      · exact hinvoke trivial
      · exact hgoto
  | call name g payload => exact hinvoke hrequest.2
  | note notes => exact hgoto
  | _ => exact hinvoke trivial

theorem pull_met (hw : w.Tied P) {q : PullPoint} (ha : (Activity.pull f q).Tied P)
    (h : w.pull f q answer = some (w₁, turn)) : ∀ b ∈ turn.frames, b.Met P := by
  obtain ⟨cell, hcell, heq⟩ := Option.map_eq_some_iff.mp h
  obtain ⟨_, hmove⟩ := (hw.cell f cell hcell).pipeline.chain.step tied_nodes ha w.clock answer
  generalize cell.pipeline.chain.step w.clock q answer = result at hmove heq
  obtain ⟨chain, move⟩ := result
  cases move with
  | go q =>
      cases heq
      exact List.forall_mem_singleton.mpr trivial
  | ask request q =>
      have hserved : ∀ b ∈ ((w.setPipeline f { cell.pipeline with chain := chain }).serve request
          (.pull f q)).2.frames, b.Met P := serve_met hmove.1 trivial
      dsimp only at heq
      rw [heq] at hserved
      exact hserved
  | done out =>
      cases heq
      exact List.forall_mem_nil _

/-- A sink calls no flow. -/
theorem afterSink_met {v : Value} {cell : FlowCell} {m : SinkBody × SinkMove}
    (hask : ∀ r wait, m.2 = .ask r wait → r.leaf) :
    ∀ b ∈ (w.afterSink f v cell m).2.frames, b.Met P := by
  obtain ⟨body, move⟩ := m
  cases move with
  | done d => exact List.forall_mem_singleton.mpr trivial
  | ask request wait => exact serve_met (f := f) (.of_leaf (hask request wait rfl)) trivial

theorem push_met (hw : w.Tied P) {v : Value} {q : PushPoint} {r : World × Turn}
    (h : w.push t f v answer q = some r) : ∀ b ∈ r.2.frames, b.Met P := by
  unfold push at h
  split at h
  · obtain ⟨w₁, _, rfl⟩ := Option.map_eq_some_iff.mp h
    exact List.forall_mem_singleton.mpr trivial
  · obtain ⟨cell, hcell, rfl⟩ := Option.map_eq_some_iff.mp h
    exact afterSink_met (SinkBody.tied_perform _ v (hw.cell f cell hcell).pipeline.sink).2
  · next wait =>
    obtain ⟨cell, hcell, rfl⟩ := Option.map_eq_some_iff.mp h
    exact afterSink_met (SinkBody.tied_resume _ wait answer (hw.cell f cell hcell).pipeline.sink).2
  · cases h
    exact List.forall_mem_singleton.mpr trivial
  · cases h
    exact List.forall_mem_nil _
  · obtain ⟨cell, _, rfl⟩ := Option.map_eq_some_iff.mp h
    exact List.forall_mem_nil _

theorem step_met (hw : w.Tied P) (ha : a.Tied P) (hmet : a.Met P)
    (h : a.step w t answer = some (w₁, turn)) : ∀ b ∈ turn.frames, b.Met P := by
  intro b hb
  obtain hgoes | ⟨back, _, hasks, hgoes⟩ := (step_stacks h).of_mem hb
  · cases hgoes with
    | call => exact hmet
    | _ => trivial
  · cases hasks with
    | chain hr =>
        cases hgoes with
        | pull => exact pull_met hw ha h b hb
    | sink hr =>
        cases hgoes with
        | push => exact push_met hw h b hb
    | _ => trivial

/-- The call stacks of the threads name the calls in progress, which go to the flows of their
names. -/
structure CallsKept (P : Plan) (w : World) : Prop where
  locked : WellLocked P w
  stacked : ∀ t, Stacked (w.tasks t)
  met : ∀ t, ∀ a ∈ w.tasks t, a.Met P
  calls : ∀ t, w.callsOf t = callNames (w.tasks t)

theorem Takes.wellLocked (h : Takes w t a rest w₁ turn) (hw : WellLocked P w) :
    WellLocked P (w₁.turn t turn) := by
  refine hw.goes h.goes ?_
  obtain hstep | ⟨r, out, rfl, rfl, rfl⟩ := h.does
  · exact step_bounded hw.tied (tied_quiet.mp (hw.frames t _ h.top)) hstep
  · exact .exit hw.tied (.refl w₁) rfl

namespace CallsKept

theorem takes (hw : CallsKept P w) (h : Takes w t a rest w₁ turn) :
    CallsKept P (w₁.turn t turn) := by
  refine ⟨h.wellLocked hw.locked, h.stacked hw.stacked, fun u b hb => ?_, fun u => ?_⟩
  · obtain hb | ⟨rfl, c, hc, rfl⟩ | ⟨g, m, _, rfl, _⟩ := h.mem hb
    · exact hw.met u b hb
    · have htied := tied_quiet.mp (hw.locked.frames u _ h.top)
      have hmet := met_quiet.mp (hw.met u _ h.top)
      exact met_quiet.mpr (step_met hw.locked.tied htied hmet (h.step_of_mem hc) c hc)
    · trivial
  · by_cases hu : u = t
    · subst hu
      exact h.callStack (hw.calls u)
    · rw [callsOf_turn, h.acts.callsOf fun hself => absurd hself hu, hw.calls]
      obtain hsame | ⟨hnew, g, m, _, _, htasks⟩ := h.goes.tasks_of_ne hu
      · rw [hsame]
      · rw [htasks, tasks, List.getElem?_eq_none (Nat.le_of_eq hnew.symm)]
        rfl

/-- A flow that a thread calls while it is in a call of it has its lock had by that thread. -/
theorem mem_locks (hw : CallsKept P w) (h : w.tasks t = .call name f payload .enter :: rest)
    (hin : w.InCall t f) : f ∈ locksOf rest := by
  obtain ⟨a, ha, name', hcalling⟩ := hin
  obtain ⟨payload', q, rfl⟩ := eq_call_of_calling hcalling
  have hmem := mem_tasks_call.mpr ha
  rw [h] at hmem
  obtain hsame | hmem := List.mem_cons.mp hmem
  · cases hsame
    cases hcalling
  · obtain rfl := (h ▸ hw.stacked t).call_below hmem
    exact List.mem_filterMap.mpr ⟨_, hmem, rfl⟩

/-- A thread is in a call of a flow exactly if the name of the flow is on its call stack. -/
theorem inCall_iff (hw : CallsKept P w) (hnames : ∀ g target, P.Meets g target → P.name g = target)
    (hmeets : P.Meets f name) : w.InCall t f ↔ name ∈ w.callsOf t := by
  rw [hw.calls, mem_callNames]
  constructor
  · rintro ⟨a, ha, name', hcalling⟩
    obtain ⟨payload, q, rfl⟩ := eq_call_of_calling hcalling
    have hmem := mem_tasks_call.mpr ha
    obtain rfl : name' = name :=
      (hnames f name' (hw.met t _ hmem)).symm.trans (hnames f name hmeets)
    exact ⟨_, hmem, f, hcalling⟩
  · rintro ⟨a, ha, g, hcalling⟩
    obtain ⟨payload, q, rfl⟩ := eq_call_of_calling hcalling
    obtain ⟨peer, hpeer, _, rfl⟩ := hw.met t _ ha
    obtain ⟨peer', hpeer', _, rfl⟩ := hmeets
    cases hpeer.symm.trans hpeer'
    exact ⟨_, mem_tasks_call.mp ha, name, hcalling⟩

/-- In a set that an accepted document describes a thread never calls a flow that it is in a call
of. -/
theorem not_inCall {start : World} {fresh : Nat → String} {d : Blueprint.Document}
    {vars : List (String × Value)} (hw : CallsKept start.plan w)
    (hmade : ofDocument Catalog.registry fresh d vars = .ok start)
    (h : w.tasks t = .call name f payload .enter :: rest) : ¬ w.InCall t f := by
  intro hin
  have hmeets : start.plan.Meets f name :=
    hw.met t (.call name f payload .enter) (h ▸ List.mem_cons_self)
  exact no_ring_of_called hmade hmeets
    ((h ▸ hw.locked.nested t).path rfl (hw.mem_locks h hin))

end CallsKept

theorem CallsKept.tick (h : CallsKept P w) (nanos : Nat) : CallsKept P (w.tick nanos) :=
  ⟨h.locked.tick nanos, h.stacked, h.met, h.calls⟩

theorem Run.callsKept (h : Run start trace w) (hstart : CallsKept P start) : CallsKept P w :=
  h.every (P := fun _ w => CallsKept P w) hstart (fun _ _ nanos hw => hw.tick nanos)
    fun _ _ _ _ _ _ _ htakes hw => hw.takes htakes

/-! What lies below an activity. -/

/-- What lies below an activity stays there while its thread is busy with what is above. -/
theorem Run.rest_stays (h : Run w trace w') (hfront : w.tasks t = front ++ rest)
    (habove : ∀ taken ∈ trace, taken.thread = t → rest.length < (taken.before.tasks t).length) :
    ∃ front', w'.tasks t = front' ++ rest := by
  refine h.every (P := fun trace w => (∀ taken ∈ trace, taken.thread = t →
    rest.length < (taken.before.tasks t).length) → ∃ front, w.tasks t = front ++ rest)
    (fun _ => ⟨front, hfront⟩) (fun _ _ _ hw => hw) ?_ habove
  intro trace w u a below w₁ turn htakes hw habove
  obtain ⟨front, hfront⟩ := hw fun taken htaken => habove taken (List.mem_cons_of_mem _ htaken)
  by_cases hu : t = u
  · subst hu
    have hlonger := habove _ List.mem_cons_self rfl
    rw [hfront, List.length_append] at hlonger
    cases front with
    | nil => simp at hlonger
    | cons b front =>
        rw [htakes.goes.tasks, List.cons_append] at hfront
        cases hfront
        refine ⟨turn.frames.map quiet ++ front, ?_⟩
        rw [htakes.goes.tasks_self, List.append_assoc]
  · obtain hsame | ⟨hnew, g, m, _, _, htasks⟩ := htakes.goes.tasks_of_ne hu
    · exact ⟨front, hsame.trans hfront⟩
    · have hnone : w.tasks t = [] := by
        rw [tasks, List.getElem?_eq_none (Nat.le_of_eq hnew.symm)]
      obtain ⟨_, rfl⟩ := List.append_eq_nil_iff.mp (hfront.symm.trans hnone)
      exact ⟨_, (List.append_nil _).symm⟩

end World
end PullFlow.Engine
