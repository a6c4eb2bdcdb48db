import PullFlow.Proofs.Engine.CallStack

/-!
The payload of a call. A call puts its payload into the source of the called flow once it has the
lock of the flow, and takes it out before it gives the lock back. Nothing else touches the slot, so
whoever reads the source meanwhile reads the payload of the one call in progress, and in between
calls the slot is empty. Together with the call stack this is what a thread can rely on when calls
are made from within calls.
-/

namespace PullFlow

/-- What is in the slot for payloads, of a source that has one. -/
def SourceBody.slot? : SourceBody → Option (Option Value)
  | injected v => some v
  | _ => none

namespace SourceBody

theorem slot?_of_plain {b : SourceBody} (h : b.plain = true) : b.slot? = none := by
  cases b <;> first | rfl | cases h

theorem slot?_attach (ctx : Context) (b : SourceBody) :
    (Hooks.attach ctx b).body.slot? = b.slot? := by
  cases b <;> rfl

theorem slot?_initialise (st : Scope.Store) (ctx : Context) (params : Params) (b : SourceBody) :
    (Hooks.initialise st ctx params b).body.slot? = b.slot? := by
  change (initialise ctx params b).body.slot? = b.slot?
  cases b with
  | injected v => rfl
  | inflow named inflows =>
      simp only [initialise]
      cases params.bool "named" <;> rfl
  | _ => exact slot?_of_plain (plain_initialise ctx params _ rfl)

theorem slot?_start (b : SourceBody) : (Hooks.start b).body.slot? = b.slot? := by
  cases b <;> rfl

theorem slot?_stop (b : SourceBody) : (Hooks.stop b).body.slot? = b.slot? := by
  cases b <;> rfl

theorem slot?_wire (inflows : List Outflow) (b : SourceBody) :
    (b.wire inflows).body.slot? = b.slot? := by
  cases b with
  | recorder r =>
      simp only [wire]
      split <;> rfl
  | _ => rfl

theorem slot?_begin (b : SourceBody) : b.begin.1.slot? = b.slot? := by
  unfold begin
  split <;> rfl

theorem slot?_resume (b : SourceBody) (w : SourceWait) (answer : Outcome) :
    (b.resume w answer).1.slot? = b.slot? := by
  unfold resume
  split
  · rfl
  · rfl
  · split
    · rfl
    · split <;> rfl
  · rfl

/-- A source with a payload in its slot yields it. -/
theorem begin_of_slot {b : SourceBody} {v : Value} (h : b.slot? = some (some v)) :
    b.begin.2 = .reply (.ok v) := by
  cases b <;> cases h
  rfl

end SourceBody

/-- A read leaves the slot of its source. -/
theorem slot_nodes (slot : Option (Option Value)) :
    Nodes (fun b => b.slot? = slot) (fun _ => True) (fun _ => True) (fun _ => True) where
  sourceBegin b h := ⟨(b.slot?_begin).trans h, fun _ _ _ => ⟨trivial, trivial⟩⟩
  sourceResume b w answer h _ :=
    ⟨(b.slot?_resume w answer).trans h, fun _ _ _ => ⟨trivial, trivial⟩⟩
  operatorBegin _ _ _ _ := ⟨trivial, fun _ _ _ => trivial⟩
  operatorResume _ _ _ _ _ := ⟨trivial, fun _ _ _ => trivial⟩

namespace Pipeline

/-- What is in the slot of the source of a flow. -/
def slot? (p : Pipeline) : Option (Option Value) := p.chain.source.body.slot?

variable {slot : Option (Option Value)} {p : Pipeline}

/-- A property of pipelines that says what is in the slot. -/
def Slot (slot : Option (Option Value)) (p : Pipeline) : Prop :=
  p.Holds (fun b => b.slot? = slot) (fun _ => True) (fun _ => True)

theorem slot_self (p : Pipeline) : p.Slot p.slot? :=
  ⟨⟨rfl, fun _ _ => trivial⟩, trivial⟩

theorem slot?_setInjected (v : Option Value) (p : Pipeline) :
    (Engine.setInjected v p).slot? = p.slot?.map fun _ => v := by
  unfold Engine.setInjected
  split
  · next slot hbody =>
    rw [slot?, slot?, hbody]
    rfl
  · next hbody =>
    have hnone : p.slot? = none := by
      rw [slot?]
      cases h : p.chain.source.body with
      | injected slot => exact absurd h (hbody slot)
      | _ => rfl
    rw [hnone]
    rfl

end Pipeline

namespace Engine

/-- The payload that a call has put into the slot of a flow. -/
def Activity.gives? (f : FlowId) : Activity → Option Value
  | .call _ g payload .pulled | .call _ g payload (.clear _) => if g = f then some payload else none
  | _ => none

/-- Whether an activity puts a payload into the slot of a flow or takes it out. -/
def Activity.fills (f : FlowId) : Activity → Bool
  | .call _ g _ .inject | .call _ g _ (.clear _) => decide (g = f)
  | _ => false

section Gifts

variable {a b : Activity} {f : FlowId} {v : Value}

@[simp] theorem gives?_quiet (f : FlowId) (a : Activity) : (quiet a).gives? f = a.gives? f := by
  cases a <;> rfl

theorem eq_call_of_gives (h : a.gives? f = some v) :
    ∃ name, a = .call name f v .pulled ∨ ∃ out, a = .call name f v (.clear out) := by
  unfold Activity.gives? at h
  split at h
  · split at h <;> cases h
    next hgf =>
      subst hgf
      exact ⟨_, .inl rfl⟩
  · split at h <;> cases h
    next hgf =>
      subst hgf
      exact ⟨_, .inr ⟨_, rfl⟩⟩
  · cases h

theorem calling_of_gives (h : a.gives? f = some v) : ∃ name p, a = .call name f v p ∧
    (Activity.call name f v p).calling? = some (name, f) := by
  obtain ⟨name, rfl | ⟨out, rfl⟩⟩ := eq_call_of_gives h <;> exact ⟨_, _, rfl, rfl⟩

/-- Whoever has put a payload into the slot of a flow has the lock of the flow. -/
theorem holds_of_gives (h : a.gives? f = some v) : a.holds? = some f := by
  obtain ⟨name, rfl | ⟨out, rfl⟩⟩ := eq_call_of_gives h <;> rfl

theorem eq_call_of_fills (h : a.fills f = true) : ∃ name payload,
    a = .call name f payload .inject ∨ ∃ out, a = .call name f payload (.clear out) := by
  unfold Activity.fills at h
  split at h
  · obtain rfl := of_decide_eq_true h
    exact ⟨_, _, .inl rfl⟩
  · obtain rfl := of_decide_eq_true h
    exact ⟨_, _, .inr ⟨_, rfl⟩⟩
  · cases h

theorem holds_of_fills (h : a.fills f = true) : a.holds? = some f := by
  obtain ⟨name, payload, rfl | ⟨out, rfl⟩⟩ := eq_call_of_fills h <;> rfl

end Gifts

namespace World

variable {w w₁ w' start : World} {t u : ThreadId} {f g : FlowId} {a b : Activity} {answer : Outcome}
  {rest : List Activity} {turn : Turn} {trace : List Taken} {P : Plan} {name : String}
  {payload v : Value} {p : Pipeline} {cell : FlowCell}

/-- What is in the slot of a flow, if its source has one. -/
def slot? (w : World) (f : FlowId) : Option (Option Value) := (w.pipeline? f).bind Pipeline.slot?

theorem slot?_of_flow? (h : w.flow? f = some cell) : w.slot? f = cell.pipeline.slot? := by
  rw [slot?, pipeline?, h]
  rfl

/-- Only calls put anything into a slot, or take it out. -/
theorem Works.slot {parked : Option Monitor} (h : Works w answer f cell a p parked)
    (ha : a.fills f = false) : p.slot? = cell.pipeline.slot? := by
  have hbefore := cell.pipeline.slot_self
  cases h with
  | pull =>
      exact (hbefore.chain.step (slot_nodes _) (PullPoint.within_true _) w.clock answer).1.source
  | perform | resume => rfl
  | inject | clear => simp [Activity.fills] at ha
  | start =>
      exact (hbefore.start (fun b h => b.slot?_start.trans h) (fun _ _ => trivial)
        fun _ _ => trivial).chain.source
  | stop =>
      exact (hbefore.stop (fun b h => b.slot?_stop.trans h) (fun _ _ => trivial)
        fun _ _ => trivial).chain.source
  | attach =>
      exact (hbefore.setContext (fun b h => (b.slot?_attach _).trans h) (fun _ _ => trivial)
        fun _ _ => trivial).chain.source
  | monitor =>
      unfold attachMonitor
      split <;> rfl
  | setUp =>
      exact (hbefore.setUp (fun _ _ b h => (b.slot?_initialise _ _ _).trans h)
        (fun _ _ _ _ => trivial) fun _ _ _ _ => trivial).chain.source
  | wire => exact (hbefore.wire fun b h => (b.slot?_wire _).trans h).chain.source
  | _ => rfl

theorem Acts.slot (h : Acts w t answer a w₁) (ha : a.fills f = false) : w₁.slot? f = w.slot? f := by
  obtain ⟨hsame, _⟩ | ⟨cell, p, parked, hcell, hworks, hp, _⟩ := h.parts f
  · rw [slot?, hsame, slot?]
  · rw [slot?, hp, slot?_of_flow? hcell]
    exact hworks.slot ha

theorem slot?_setParts (hcell : w.flow? f = some cell) (m : Option Monitor) :
    (w.setParts f p m).slot? f = p.slot? := by
  rw [slot?, pipeline?_setParts hcell, if_pos rfl]
  rfl

theorem Leaves.slot (h : Leaves w w₁) (f : FlowId) : w₁.slot? f = w.slot? f := by
  rw [slot?, h.pipeline, slot?]

theorem Acts.slot_inject (h : Acts w t answer (.call name f payload .inject) w₁) :
    w₁.slot? f = (w.slot? f).map fun _ => some payload := by
  cases h with
  | leaves hworks _ => cases hworks
  | works hcell hworks hleaves =>
      cases hworks
      rw [hleaves.slot, slot?_setParts hcell, Pipeline.slot?_setInjected, slot?_of_flow? hcell]
  | absent _ hpoint =>
      obtain ⟨_, _, _, hsame⟩ | ⟨_, _, hsame⟩ := hpoint <;> cases hsame

theorem Acts.slot_clear {out : Outcome}
    (h : Acts w t answer (.call name f payload (.clear out)) w₁) :
    w₁.slot? f = (w.slot? f).map fun _ => none := by
  cases h with
  | leaves hworks _ => cases hworks
  | works hcell hworks hleaves =>
      cases hworks
      rw [hleaves.slot, slot?_setParts hcell, Pipeline.slot?_setInjected, slot?_of_flow? hcell]
  | absent hnone hpoint =>
      obtain ⟨_, _, _, hsame⟩ | ⟨_, _, hsame⟩ := hpoint <;> cases hsame
      rw [slot?, pipeline?, hnone]
      rfl

/-- Nobody has a lock twice, and no two threads have it. -/
theorem WellLocked.sole (h : WellLocked P w) (htasks : w.tasks t = a :: rest)
    (ha : a.holds? = some f) (hb : b ∈ (w.tasks u)) (hbholds : b.holds? = some f) :
    u = t ∧ b ∉ rest := by
  have hheld : w.holderOf f = some t :=
    h.holder_of_mem (List.mem_filterMap.mpr ⟨a, htasks ▸ List.mem_cons_self, ha⟩)
  have hother : w.holderOf f = some u := h.holder_of_mem (List.mem_filterMap.mpr ⟨b, hb, hbholds⟩)
  refine ⟨Option.some.inj (hother.symm.trans hheld), fun hmem => ?_⟩
  have hcount := h.locks t f
  rw [if_pos hheld, htasks, locksOf_cons, ha, Option.toList_some, List.singleton_append,
    List.count_cons_self] at hcount
  have hpos : 0 < (locksOf rest).count f :=
    List.count_pos_iff.mpr (List.mem_filterMap.mpr ⟨b, hmem, hbholds⟩)
  omega

/-- A slot holds the payload that a call has put there, and nothing when no call has. -/
structure Slots (w : World) : Prop where
  given : ∀ t, ∀ a ∈ w.tasks t, ∀ f v, a.gives? f = some v → ∀ slot, w.slot? f = some slot →
    slot = some v
  giver : ∀ f v, w.slot? f = some (some v) → ∃ t, ∃ a ∈ w.tasks t, a.gives? f = some v

/-- Only a call goes on as a call. -/
theorem Takes.call_of_mem {q : CallPoint} (h : Takes w t a rest w₁ turn)
    (hb : .call name f payload q ∈ turn.frames) (hq : q ≠ .latch) :
    ∃ p, a = .call name f payload p ∧ p.Leads q := by
  obtain hgoes | ⟨back, _, hasks, _⟩ := h.stacks.of_mem hb
  · cases hgoes with
    | call =>
        refine ⟨_, rfl, ?_⟩
        obtain ⟨q', hleads, _, hframes | ⟨_, hframes⟩⟩ | ⟨hframes, _⟩ := call_turn h.call
        · rw [hframes, List.mem_singleton] at hb
          cases hb
          exact hleads
        · rw [hframes] at hb
          obtain hsame | hb := List.mem_cons.mp hb
          · cases hsame
          · cases List.mem_singleton.mp hb
            exact hleads
        · rw [hframes] at hb
          cases hb
  · cases hasks with
    | chain hr | sink hr =>
        cases q <;> first | exact absurd rfl hq | cases hr

/-- A payload that is in a slot after a turn of a call was there before, or the turn has put it
there. -/
theorem Takes.gives_of_mem (h : Takes w t a rest w₁ turn) (hb : b ∈ turn.frames)
    (hgives : b.gives? f = some v) :
    a.gives? f = some v ∧ a.fills f = false ∨ ∃ name, a = .call name f v .inject := by
  obtain ⟨name, rfl | ⟨out, rfl⟩⟩ := eq_call_of_gives hgives
  · obtain ⟨p, rfl, hleads⟩ := h.call_of_mem hb CallPoint.noConfusion
    cases hleads
    exact .inr ⟨name, rfl⟩
  · obtain ⟨p, rfl, hleads⟩ := h.call_of_mem hb CallPoint.noConfusion
    cases hleads
    exact .inl ⟨if_pos rfl, rfl⟩

/-- A payload stays with its call up to where the call takes it out. -/
theorem Takes.gives_goes (h : Takes w t a rest w₁ turn) (hgives : a.gives? f = some v)
    (hfills : a.fills f = false) : ∃ b ∈ turn.frames, b.gives? f = some v := by
  obtain ⟨name, rfl | ⟨out, rfl⟩⟩ := eq_call_of_gives hgives
  · obtain ⟨q, hleads, _, hframes | ⟨hp, _⟩⟩ | ⟨_, ⟨hp, _⟩ | ⟨_, hp⟩⟩ := call_turn h.call
    · cases hleads
      exact ⟨_, hframes ▸ List.mem_singleton_self _, by rw [Activity.gives?, if_pos rfl]⟩
    · cases hp
    · cases hp
    · cases hp
  · simp [Activity.fills] at hfills

theorem slot?_turn (w : World) (t : ThreadId) (turn : Turn) (f : FlowId) :
    (w.turn t turn).slot? f = w.slot? f := rfl

/-- A frame of a thread is one that was there below the top, or the turn has put it there. -/
theorem Takes.mem_below (h : Takes w t a rest w₁ turn) (hb : b ∈ (w₁.turn t turn).tasks u) :
    (b ∈ w.tasks u ∧ (u = t → b ∈ rest)) ∨ (u = t ∧ ∃ c ∈ turn.frames, b = quiet c) ∨
      ∃ g m, b = .run g m .lock := by
  by_cases hu : u = t
  · subst hu
    obtain hb | hb := h.mem_self hb
    · exact .inl ⟨h.goes.tasks ▸ List.mem_cons_of_mem _ hb, fun _ => hb⟩
    · exact .inr (.inl ⟨rfl, hb⟩)
  · obtain hb | ⟨g, m, _, hrun, _⟩ := h.mem_other hu hb
    · exact .inl ⟨hb, fun hself => absurd hself hu⟩
    · exact .inr (.inr ⟨g, m, hrun⟩)

/-- An activity that is not at the top of its stack stays on the stack. -/
theorem Takes.mem_stays (h : Takes w t a rest w₁ turn) (hb : b ∈ w.tasks u)
    (hbelow : u = t → b ∈ rest) : b ∈ (w₁.turn t turn).tasks u := by
  by_cases hu : u = t
  · subst hu
    rw [h.goes.tasks_self]
    exact List.mem_append_right _ (hbelow rfl)
  · rw [h.goes.tasks_of_busy hu (List.ne_nil_of_mem hb)]
    exact hb

/-- With its payload in the slot a call waits for the evaluation of the chain. -/
theorem Takes.pulled_of_inject (h : Takes w t (.call name f payload .inject) rest w₁ turn) :
    .call name f payload .pulled ∈ (w₁.turn t turn).tasks t := by
  rw [h.goes.tasks_self]
  refine List.mem_append_left _ (List.mem_map.mpr ⟨.call name f payload .pulled, ?_, rfl⟩)
  obtain ⟨q, hleads, _, hframes⟩ | ⟨_, ⟨hp, _⟩ | ⟨_, hp⟩⟩ := call_turn h.call
  · cases hleads
    obtain hframes | ⟨_, hframes⟩ := hframes <;> simp [hframes]
  · cases hp
  · cases hp

namespace Slots

theorem takes (hw : Slots w) (hlocked : WellLocked P w) (h : Takes w t a rest w₁ turn) :
    Slots (w₁.turn t turn) := by
  have htasks := h.goes.tasks
  have htop := h.top
  constructor
  · intro u b hb f v hgives slot hslot
    rw [slot?_turn] at hslot
    obtain ⟨hb, hbelow⟩ | ⟨rfl, c, hc, rfl⟩ | ⟨g, m, rfl⟩ := h.mem_below hb
    · cases hfills : a.fills f with
      | false => exact hw.given u b hb f v hgives slot ((h.acts.slot hfills).symm.trans hslot)
      | true =>
          -- the lock of the flow, which the turn has, would be had twice
          obtain ⟨rfl, hnot⟩ := hlocked.sole htasks
            ((holds?_quiet a).trans (holds_of_fills hfills)) hb (holds_of_gives hgives)
          exact absurd (hbelow rfl) hnot
    · rw [gives?_quiet] at hgives
      obtain ⟨hgives, hfills⟩ | ⟨name, rfl⟩ := h.gives_of_mem hc hgives
      · rw [← gives?_quiet] at hgives
        exact hw.given u _ htop f v hgives slot ((h.acts.slot hfills).symm.trans hslot)
      · rw [h.acts.slot_inject] at hslot
        obtain ⟨_, _, rfl⟩ := Option.map_eq_some_iff.mp hslot
        rfl
    · cases hgives
  · intro f v hslot
    rw [slot?_turn] at hslot
    cases hfills : a.fills f with
    | false =>
        obtain ⟨u, b, hb, hgives⟩ := hw.giver f v ((h.acts.slot hfills).symm.trans hslot)
        by_cases hbelow : u = t → b ∈ rest
        · exact ⟨u, b, h.mem_stays hb hbelow, hgives⟩
        · obtain ⟨rfl, hnot⟩ := Classical.not_imp.mp hbelow
          rw [htasks] at hb
          obtain rfl := (List.mem_cons.mp hb).resolve_right hnot
          rw [gives?_quiet] at hgives
          obtain ⟨c, hc, hgives⟩ := h.gives_goes hgives hfills
          refine ⟨u, quiet c, ?_, (gives?_quiet f c).trans hgives⟩
          rw [h.goes.tasks_self]
          exact List.mem_append_left _ (List.mem_map_of_mem hc)
    | true =>
        obtain ⟨name, payload, rfl | ⟨out, rfl⟩⟩ := eq_call_of_fills hfills
        · rw [h.acts.slot_inject] at hslot
          obtain ⟨_, _, hsame⟩ := Option.map_eq_some_iff.mp hslot
          cases hsame
          refine ⟨t, _, h.pulled_of_inject, ?_⟩
          rw [Activity.gives?, if_pos rfl]
        · rw [h.acts.slot_clear] at hslot
          obtain ⟨_, _, hsame⟩ := Option.map_eq_some_iff.mp hslot
          cases hsame

end Slots

theorem Run.slots (h : Run start trace w) (hkept : CallsKept P start) (hstart : Slots start) :
    Slots w := by
  refine (h.every (P := fun _ w => CallsKept P w ∧ Slots w) ⟨hkept, hstart⟩ ?_ ?_).2
  · exact fun _ _ nanos hw =>
      ⟨⟨hw.1.locked.tick nanos, hw.1.stacked, hw.1.met, hw.1.calls⟩, hw.2.given, hw.2.giver⟩
  · exact fun _ _ _ _ _ _ _ htakes hw => ⟨hw.1.takes htakes, hw.2.takes hw.1.locked htakes⟩

end World
end Engine
end PullFlow
