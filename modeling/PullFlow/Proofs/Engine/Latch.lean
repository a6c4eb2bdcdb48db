import PullFlow.Proofs.Engine.Bracketing
import PullFlow.Proofs.Engine.Dormant

/-!
What a peer finds when it evaluates the chain of a flow. Peers wait at the latch of the flow, which
is opened when the flow starts, under its lock, or when it is stopped. So whoever is past the latch
and has the lock finds the components started, unless the flow was stopped before that, its start
has failed, or its components were stopped again.
-/

namespace PullFlow.Engine

/-- Whether an activity is past the latch of a flow. -/
def Activity.admitted (f : FlowId) : Activity → Bool
  | .read g _ => decide (g = f)
  | .call _ _ _ .latch => false
  | .call _ g _ _ => decide (g = f)
  | .run g _ .start | .run g _ .monitor | .run g _ (.drive _) | .run g _ (.acting _) =>
      decide (g = f)
  | _ => false

/-- Whether an activity releases the waits of a flow. -/
def Activity.frees (f : FlowId) : Activity → Bool
  | .interrupt g _ => decide (g = f)
  | _ => false

/-- Whether an activity releases the waits of a flow next, if it is told to. -/
def Activity.toFree (f : FlowId) : Activity → Bool
  | .stop g .advanced => decide (g = f)
  | .run g _ (.interrupt _) => decide (g = f)
  | _ => false

section Sorts

variable {f : FlowId} {a : Activity}

theorem admitted_quiet (f : FlowId) (a : Activity) : (quiet a).admitted f = a.admitted f := by
  cases a <;> rfl

theorem frees_quiet (f : FlowId) (a : Activity) : (quiet a).frees f = a.frees f := by
  cases a <;> rfl

theorem toFree_quiet (f : FlowId) (a : Activity) : (quiet a).toFree f = a.toFree f := by
  cases a <;> rfl

/-- Threads come with nothing that is past a latch or that opens one. -/
theorem waits_of_begins (h : a.begins = true) :
    a.admitted f = false ∧ a.frees f = false ∧ a.toFree f = false := by
  unfold Activity.begins at h
  split at h <;> first | exact ⟨rfl, rfl, rfl⟩ | cases h

theorem admitted_of_requested (h : a.requested = true) : a.admitted f = false := by
  unfold Activity.requested at h
  split at h <;> first | rfl | cases h

theorem admitted_of_leads {m m' : Monitor} {q q' : RunPoint} (h : q.leads q' = true)
    (hadmitted : (Activity.run f m' q').admitted f = true) :
    (Activity.run f m q).admitted f = true ∨ q = .release := by
  cases q' with
  | start | monitor | drive _ | acting _ =>
      cases q <;> first | exact .inl (decide_eq_true rfl) | exact .inr rfl | cases h
  | _ => cases hadmitted

end Sorts

namespace World

variable {w w₁ start : World} {t u : ThreadId} {f : FlowId} {a b : Activity} {answer : Outcome}
  {cell : FlowCell} {p : Pipeline} {m m₁ : Monitor} {turn : Turn} {rest : List Activity}
  {trace : List Taken}

/-- The components of a flow have been started, with whatever success. -/
def WasStarted (f : FlowId) (trace : List Taken) : Prop :=
  ∃ taken ∈ trace, ∃ m, taken.activity = .run f m .start

/-- A turn that does not stop the components of a flow, and with which no start of them fails. -/
def Taken.proper (f : FlowId) (taken : Taken) : Bool :=
  match taken.activity with
  | .finish g _ .components => !decide (g = f)
  | .run g _ .start =>
      !decide (g = f) || (taken.before.pipeline? f).all fun p => p.start.result.isOk
  | _ => true

/-- Whether a thread evaluates the chain of a flow. -/
def evaluates (w : World) (t : ThreadId) (f : FlowId) : Bool :=
  (w.stackOf t).any fun a =>
    match a with
    | .pull g _ => decide (g = f)
    | _ => false

theorem evaluates_iff : w.evaluates t f = true ↔ ∃ q, .pull f q ∈ w.stackOf t := by
  rw [evaluates, List.any_eq_true]
  constructor
  · rintro ⟨a, ha, hpull⟩
    cases a with
    | pull g q => exact ⟨q, of_decide_eq_true hpull ▸ ha⟩
    | _ => cases hpull
  · rintro ⟨q, hq⟩
    exact ⟨_, hq, decide_eq_true rfl⟩

/-- The latch of a flow, and who is past it. -/
structure Latched (f : FlowId) (trace : List Taken) (w : World) : Prop where
  flow : ∃ cell, w.flow? f = some cell
  admitted : ∀ t, ∀ a ∈ w.tasks t, a.admitted f = true → w.releasedOf f = true
  frees : ∀ t, ∀ a ∈ w.tasks t, a.frees f = true → w.stopping f = true
  toFree : ∀ t, ∀ a ∈ w.tasks t, a.toFree f = true →
    w.stopping f = true ∨ ∃ rest, w.tasks t = .advance f .ending .swap :: rest
  released : w.releasedOf f = true →
    w.stopping f = true ∨ WasStarted f trace ∨ ∃ t m, .run f m .start ∈ w.tasks t
  running : WasStarted f trace → (∀ taken ∈ trace, taken.proper f = true) → ∀ x ∈ w.marksOf f, x.2 = .running

/-- A change of a flow beside its latch. -/
theorem releasedOf_modifyRest {change : FlowCell → FlowCell}
    (h : ∀ cell, (change cell).released = cell.released) (f g : FlowId) :
    (w.modifyFlow f change).releasedOf g = w.releasedOf g := by
  rw [releasedOf, map_modifyFlow, releasedOf]
  split
  · simp only [h]
  · rfl

theorem releasedOf_open (hflow : ∃ cell, w.flow? f = some cell) :
    (w.modifyFlow f fun cell => { cell with released := true }).releasedOf f = true := by
  obtain ⟨cell, hcell⟩ := hflow
  rw [releasedOf, flow?_modifyFlow, if_pos rfl, hcell]
  rfl

theorem releasedOf_open_of_ne {g : FlowId} (h : g ≠ f) :
    (w.modifyFlow g fun cell => { cell with released := true }).releasedOf f = w.releasedOf f := by
  rw [releasedOf, flow?_modifyFlow, if_neg h, releasedOf]

/-- A latch is opened by a run or by whoever releases the waits of the flow, and stays open. -/
theorem Acts.released (h : Acts w t answer a w₁) : w₁.releasedOf f = w.releasedOf f ∨
    ((∃ m, a = .run f m .release) ∨ a = .interrupt f .latch) ∧
      w₁ = w.modifyFlow f fun cell => { cell with released := true } := by
  cases h with
  | leaves _ hleaves => exact .inl (hleaves.released f)
  | works _ _ hleaves =>
      refine .inl ((hleaves.released f).trans (releasedOf_modifyRest ?_ _ _))
      exact fun _ => rfl
  | @release g m =>
      by_cases hgf : g = f
      · subst hgf
        exact .inr ⟨.inl ⟨m, rfl⟩, rfl⟩
      · exact .inl (releasedOf_open_of_ne hgf)
  | @unlatch g =>
      by_cases hgf : g = f
      · subst hgf
        exact .inr ⟨.inr rfl, rfl⟩
      · exact .inl (releasedOf_open_of_ne hgf)
  | cut | record =>
      refine .inl (releasedOf_modifyRest ?_ _ _)
      exact fun _ => rfl
  | _ => exact .inl rfl

theorem Acts.released_mono (h : Acts w t answer a w₁) (hflow : ∃ cell, w.flow? f = some cell)
    (hreleased : w.releasedOf f = true) : w₁.releasedOf f = true := by
  obtain hsame | ⟨_, rfl⟩ := h.released (f := f)
  · exact hsame.trans hreleased
  · exact releasedOf_open hflow

/-- Whoever comes past a latch has been there, finds it open or opens it. -/
theorem admitted_of_step (h : a.step w t answer = some (w₁, turn)) (hb : b ∈ turn.frames)
    (hadmitted : b.admitted f = true) : a.admitted f = true ∨ w.releasedOf f = true ∨
      ∃ m, a = .run f m .release := by
  have hfound {g : FlowId} {cell : FlowCell} (hcell : w.flow? g = some cell)
      (hreleased : cell.released = true) : w.releasedOf g = true := by
    rw [releasedOf, hcell]
    exact hreleased
  have hrun {g : FlowId} {m m' : Monitor} {q q' : RunPoint}
      (h : (Activity.run g m q).step w t answer = some (w₁, turn))
      (hb : .run g m' q' ∈ turn.frames) (hadmitted : (Activity.run g m' q').admitted f = true) :
      (Activity.run g m q).admitted f = true ∨ w.releasedOf f = true ∨
        ∃ m₀, Activity.run g m q = .run f m₀ .release := by
    obtain rfl : g = f := by
      cases q' <;> first | exact of_decide_eq_true hadmitted | cases hadmitted
    obtain ⟨_, _, hsame, hleads⟩ | hcalls := run_leads h hb
    · cases hsame
      obtain hq | rfl := admitted_of_leads hleads hadmitted
      · exact .inl hq
      · exact .inr (.inr ⟨m, rfl⟩)
    · cases hcalls
      next hcallee => exact absurd hcallee actionOf?_ne_run
  obtain hgoes | ⟨back, hback, hasks, hgoes⟩ := (step_stacks h).of_mem hb
  · cases hgoes with
    | read => exact .inl hadmitted
    | @demand g =>
        obtain rfl : g = f := of_decide_eq_true hadmitted
        obtain ⟨cell, hcell, h⟩ := Option.bind_eq_some_iff.mp h
        split at h
        · next hreleased => exact .inr (.inl (hfound hcell hreleased))
        · cases h
    | @call name g payload q q' =>
        obtain rfl : g = f := by
          cases q' <;> first | exact of_decide_eq_true hadmitted | cases hadmitted
        cases q with
        | latch =>
            obtain ⟨cell, hcell, h⟩ := Option.bind_eq_some_iff.mp h
            split at h
            · next hreleased => exact .inr (.inl (hfound hcell hreleased))
            · cases h
        | _ => exact .inl (decide_eq_true rfl)
    | run => exact hrun h hb hadmitted
    | _ => cases hadmitted
  · cases hasks with
    | chain hr | sink hr =>
        rw [admitted_of_requested hr] at hadmitted
        cases hadmitted
    | runRead =>
        cases hgoes with
        | run => exact hrun h hback hadmitted
    | _ => cases hadmitted

/-- The waits of a flow are released by who was to do that. -/
theorem frees_of_step (h : a.step w t answer = some (w₁, turn)) (hb : b ∈ turn.frames)
    (hfrees : b.frees f = true) : a.frees f = true ∨ a.toFree f = true := by
  obtain hgoes | ⟨back, hback, hasks, hgoes⟩ := (step_stacks h).of_mem hb
  · cases hgoes with
    | interrupt => exact .inl hfrees
    | _ => cases hfrees
  · cases hasks with
    | chain hr | sink hr =>
        cases b <;> first | cases hfrees | cases hr
    | stopRelease =>
        cases hgoes with
        | @stop _ q _ =>
            have hsame := of_decide_eq_true hfrees
            subst hsame
            cases q with
            | begin =>
                cases h
                simp [Turn.frames] at hb
            | advanced => exact .inr (decide_eq_true rfl)
            | interrupted =>
                obtain ⟨cell, _, heq⟩ := Option.map_eq_some_iff.mp h
                split at heq <;> cases heq <;> simp [Turn.frames, Turn.done] at hb
            | finished =>
                cases h
                cases hb
    | runRelease =>
        cases hgoes with
        | @run _ _ _ q _ =>
            have hsame := of_decide_eq_true hfrees
            subst hsame
            obtain ⟨_, _, hsame, _⟩ | hcalls := run_leads h hb
            · cases hsame
            · cases hcalls with
              | interrupt => exact .inr (decide_eq_true rfl)
              | @act w' action _ _ hcallee =>
                  unfold actionOf? at hcallee
                  split at hcallee <;> cases hcallee
    | _ => cases hfrees

/-- Who is to release the waits of a flow has it moved to its end first. -/
theorem toFree_of_step (h : a.step w t answer = some (w₁, turn)) (hb : b ∈ turn.frames)
    (htoFree : b.toFree f = true) : ∃ back, turn = .invoke (.advance f .ending .swap) back := by
  have hrun {g : FlowId} {m m' : Monitor} {q q' : RunPoint}
      (h : (Activity.run g m q).step w t answer = some (w₁, turn))
      (hb : .run g m' q' ∈ turn.frames) (htoFree : (Activity.run g m' q').toFree f = true) :
      ∃ back, turn = .invoke (.advance f .ending .swap) back := by
    obtain rfl : g = f := by
      cases q' <;> first | exact of_decide_eq_true htoFree | cases htoFree
    obtain ⟨_, _, hsame, hleads⟩ | hcalls := run_leads h hb
    · cases hsame
      cases q' with
      | interrupt d =>
          cases q with
          | ending d' =>
              cases h
              exact ⟨_, rfl⟩
          | _ => cases hleads
      | _ => cases htoFree
    · cases hcalls
      next hcallee => exact absurd hcallee actionOf?_ne_run
  obtain hgoes | ⟨back, hback, hasks, hgoes⟩ := (step_stacks h).of_mem hb
  · cases hgoes with
    | @stop g q q' =>
        cases q' with
        | advanced =>
            obtain rfl : g = f := of_decide_eq_true htoFree
            cases q with
            | begin =>
                cases h
                exact ⟨_, rfl⟩
            | advanced =>
                cases h
                cases hyes : MonitorBody.yes answer <;> simp [hyes, Turn.frames, Turn.done] at hb
            | interrupted =>
                obtain ⟨cell, _, heq⟩ := Option.map_eq_some_iff.mp h
                split at heq <;> cases heq <;> simp [Turn.frames, Turn.done] at hb
            | finished =>
                cases h
                cases hb
        | _ => cases htoFree
    | run => exact hrun h hb htoFree
    | _ => cases htoFree
  · cases hasks with
    | chain hr | sink hr =>
        cases b <;> first | cases htoFree | cases hr
    | _ => cases htoFree

namespace Latched

theorem takes (h : Latched f trace w) (htakes : Takes w t a rest w₁ turn) :
    Latched f (⟨w, t, a⟩ :: trace) (w₁.turn t turn) := by
  have htasks := htakes.goes.tasks
  have hself := htakes.goes.tasks_self
  have htop := htakes.top
  have hmono : w.releasedOf f = true → w₁.releasedOf f = true :=
    htakes.acts.released_mono h.flow
  have hstops : w.stopping f = true → w₁.stopping f = true := htakes.goes.moves.stopping
  refine ⟨htakes.goes.moves.flow? h.flow, ?_, ?_, ?_, ?_, ?_⟩
  · intro u b hb hadmitted
    change w₁.releasedOf f = true
    obtain hb | ⟨rfl, c, hc, rfl⟩ | ⟨g, m, _, rfl, _⟩ := htakes.mem hb
    · exact hmono (h.admitted u b hb hadmitted)
    · rw [admitted_quiet] at hadmitted
      obtain hbefore | hopen | ⟨m, rfl⟩ := admitted_of_step (htakes.step_of_mem hc) hc hadmitted
      · exact hmono (h.admitted u _ htop (by rw [admitted_quiet]; exact hbefore))
      · exact hmono hopen
      · cases htakes.step_of_mem hc
        exact releasedOf_open h.flow
    · cases hadmitted
  · intro u b hb hfrees
    change w₁.stopping f = true
    obtain hb | ⟨rfl, c, hc, rfl⟩ | ⟨g, m, _, rfl, _⟩ := htakes.mem hb
    · exact hstops (h.frees u b hb hfrees)
    · rw [frees_quiet] at hfrees
      obtain hbefore | hbefore := frees_of_step (htakes.step_of_mem hc) hc hfrees
      · exact hstops (h.frees u _ htop (by rw [frees_quiet]; exact hbefore))
      · obtain hstopping | ⟨below, hmoving⟩ := h.toFree u _ htop (by rw [toFree_quiet]; exact hbefore)
        · exact hstops hstopping
        · rw [htasks] at hmoving
          injection hmoving with hsame
          obtain rfl := eq_of_quiet hsame rfl
          cases hbefore
    · cases hfrees
  · intro u b hb htoFree
    change w₁.stopping f = true ∨ _
    obtain hb | ⟨rfl, c, hc, rfl⟩ | ⟨g, m, _, rfl, _⟩ := htakes.mem hb
    · obtain hstopping | ⟨below, hmoving⟩ := h.toFree u b hb htoFree
      · exact .inl (hstops hstopping)
      · by_cases hu : u = t
        · subst hu
          rw [htasks] at hmoving
          injection hmoving with hsame
          obtain rfl := eq_of_quiet hsame rfl
          exact .inl htakes.goes.moves.swap_stopping
        · rw [htakes.goes.tasks_of_busy hu (List.ne_nil_of_mem hb)]
          exact .inr ⟨below, hmoving⟩
    · rw [toFree_quiet] at htoFree
      obtain ⟨back, rfl⟩ := toFree_of_step (htakes.step_of_mem hc) hc htoFree
      exact .inr ⟨_, hself⟩
    · cases htoFree
  · intro hreleased
    change w₁.releasedOf f = true at hreleased
    change w₁.stopping f = true ∨ _
    obtain hsame | ⟨⟨m, rfl⟩ | rfl, _⟩ := htakes.acts.released (f := f)
    · obtain hstopping | ⟨taken, htaken, hstarted⟩ | ⟨u, m, hmem⟩ := h.released (hsame ▸ hreleased)
      · exact .inl (hstops hstopping)
      · exact .inr (.inl ⟨taken, List.mem_cons_of_mem _ htaken, hstarted⟩)
      · by_cases hu : u = t
        · subst hu
          rw [htasks] at hmem
          obtain hsame | hmem := List.mem_cons.mp hmem
          · obtain rfl := eq_of_quiet hsame.symm rfl
            exact .inr (.inl ⟨_, List.mem_cons_self, m, rfl⟩)
          · refine .inr (.inr ⟨u, m, ?_⟩)
            rw [hself]
            exact List.mem_append_right _ hmem
        · refine .inr (.inr ⟨u, m, ?_⟩)
          rw [htakes.goes.tasks_of_busy hu (List.ne_nil_of_mem hmem)]
          exact hmem
    · refine .inr (.inr ⟨t, m, ?_⟩)
      obtain hstep | ⟨_, _, hhost, _⟩ := htakes.does
      · cases hstep
        rw [hself]
        exact List.mem_cons_self
      · cases hhost
    · exact .inl (hstops (h.frees t _ htop (decide_eq_true rfl)))
  · intro hstarted hproper
    change ∀ x ∈ w₁.marksOf f, x.2 = .running
    have hnow := hproper _ List.mem_cons_self
    by_cases hstart : ∃ m, a = .run f m .start
    · obtain ⟨m, rfl⟩ := hstart
      obtain ⟨cell, hcell⟩ := h.flow
      have hp : w.pipeline? f = some cell.pipeline := by rw [pipeline?, hcell]; rfl
      have hresult := (Pipeline.start_starting cell.pipeline).result
      simp only [Taken.proper, hp, decide_true, Bool.not_true, Bool.false_or, Option.all_some]
        at hnow
      rw [hnow] at hresult
      rw [marksOf_of_pipeline? (htakes.acts.pipeline_start hp), Pipeline.marks,
        (Pipeline.start_starting _).marks]
      exact started_running hresult.symm
    · obtain ⟨taken, htaken, m, hm⟩ := hstarted
      have hbefore : WasStarted f trace := by
        obtain rfl | htaken := List.mem_cons.mp htaken
        · exact absurd ⟨m, hm⟩ hstart
        · exact ⟨taken, htaken, m, hm⟩
      have hrunning := h.running hbefore fun taken htaken => hproper taken (List.mem_cons_of_mem _ htaken)
      have heased := htakes.acts.marks_eased (f := f) (fun m hsame => hstart ⟨m, hsame⟩)
        (by rintro m rfl; simp [Taken.proper] at hnow)
      rw [heased.eq_of_ready fun x hx => by rw [hrunning x hx]; rfl]
      exact hrunning

theorem tick (h : Latched f trace w) (nanos : Nat) : Latched f trace (w.tick nanos) :=
  ⟨h.flow, h.admitted, h.frees, h.toFree, h.released, h.running⟩

/-- Nobody is past the latch of a flow when threads are yet to begin. -/
theorem init (hcell : w.flow? f = some cell) (hlatch : cell.released = false)
    (hbegins : ∀ u, ∀ b ∈ w.tasks u, ∃ a : Activity, a.begins = true ∧ b = quiet a) :
    Latched f [] w := by
  refine ⟨⟨cell, hcell⟩, ?_, ?_, ?_, ?_, ?_⟩
  · intro u b hb hadmitted
    obtain ⟨a, ha, rfl⟩ := hbegins u b hb
    rw [admitted_quiet, (waits_of_begins ha).1] at hadmitted
    cases hadmitted
  · intro u b hb hfrees
    obtain ⟨a, ha, rfl⟩ := hbegins u b hb
    rw [frees_quiet, (waits_of_begins ha).2.1] at hfrees
    cases hfrees
  · intro u b hb htoFree
    obtain ⟨a, ha, rfl⟩ := hbegins u b hb
    rw [toFree_quiet, (waits_of_begins ha).2.2] at htoFree
    cases htoFree
  · intro hreleased
    rw [releasedOf, hcell, Option.map_some, Option.getD_some, hlatch] at hreleased
    cases hreleased
  · rintro ⟨taken, htaken, _⟩
    cases htaken

end Latched

theorem Run.latched (h : Run start trace w) (hstart : Latched f [] start) : Latched f trace w :=
  h.every (P := Latched f) hstart (fun _ _ nanos hw => hw.tick nanos)
    fun _ _ _ _ _ _ _ htakes hw => hw.takes htakes

/-- The chain of a flow is evaluated only once the flow has started its components or was stopped:
whoever evaluates it has the lock that a start keeps until then. -/
theorem Latched.pulled {P : Plan} {q : PullPoint} (h : Latched f trace w)
    (hstacked : Stacked (w.tasks t)) (hlocked : WellLocked P w)
    (hpull : .pull f q ∈ w.tasks t) : w.stopping f = true ∨ WasStarted f trace := by
  obtain ⟨front, below, htasks⟩ := List.append_of_mem hpull
  obtain ⟨back, deeper, rfl, hadmitted, hholds, hother⟩ : ∃ back deeper, below = back :: deeper ∧
      back.admitted f = true ∧ back.holds? = some f ∧ ∀ m, .run f m .start ≠ back := by
    obtain ⟨deeper, rfl | ⟨_, _, rfl⟩⟩ := (htasks ▸ hstacked).of_append.pull
    · exact ⟨_, deeper, rfl, decide_eq_true rfl, rfl, fun _ => Activity.noConfusion⟩
    · exact ⟨_, deeper, rfl, decide_eq_true rfl, rfl, fun _ => Activity.noConfusion⟩
  have hback : back ∈ w.tasks t := by
    rw [htasks]
    exact List.mem_append_right _ (List.mem_cons_of_mem _ List.mem_cons_self)
  obtain hstopping | hstarted | ⟨u, m, hstart⟩ := h.released (h.admitted t back hback hadmitted)
  · exact .inl hstopping
  · exact .inr hstarted
  · have hown : w.holderOf f = some t :=
      hlocked.holder_of_mem (List.mem_filterMap.mpr ⟨back, hback, hholds⟩)
    have hstarts : w.holderOf f = some u :=
      hlocked.holder_of_mem (List.mem_filterMap.mpr ⟨_, hstart, rfl⟩)
    obtain rfl : t = u := Option.some.inj (hown.symm.trans hstarts)
    -- the thread would have the lock twice
    have hcount := hlocked.locks t f
    rw [if_pos hown, htasks, locksOf_append, locksOf_cons, locksOf_cons, hholds] at hcount
    have htwice : 0 < (locksOf front).count f + (locksOf deeper).count f := by
      have hmem : .run f m .start ∈ front ∨ .run f m .start ∈ deeper := by
        rw [htasks] at hstart
        simpa [hother m] using hstart
      have hlock {l : List Activity} (hmem : .run f m .start ∈ l) : 0 < (locksOf l).count f :=
        List.count_pos_iff.mpr (List.mem_filterMap.mpr ⟨_, hmem, rfl⟩)
      exact hmem.elim (fun hmem => Nat.add_pos_left (hlock hmem) _)
        fun hmem => Nat.add_pos_right _ (hlock hmem)
    have hfree : (Activity.pull f q).holds? = none := rfl
    simp only [hfree, Option.toList_none, Option.toList_some, List.nil_append, List.count_append,
      List.count_singleton_self] at hcount
    omega

section Drafts

variable {fresh : Nat → String} {drafts : List FlowDraft} {scopes : Scope.Store} {root : ScopeId}
  {first : Activity} {calls : List Activity}

theorem wellLocked_of_drafts (hmade : ofDrafts fresh drafts scopes root = .ok start)
    (hnew : ∀ p ∈ drafts, p.untouched = true) (hcalls : ∀ a ∈ first :: calls, a.begins = true)
    (hwire : ∀ g inflows, .wire g inflows .check ∉ first :: calls) :
    WellLocked start.plan (start.opened first calls) := by
  refine wellLocked_of_calls (tied_of_drafts hmade hnew) (free_of_drafts hmade hnew) fun a ha => ?_
  have hbegins := hcalls a ha
  unfold Activity.begins at hbegins
  split at hbegins
  all_goals first
    | exact ⟨trivial, rfl, fun f => Layer.noConfusion⟩
    | exact absurd ha (hwire _ _)
    | cases hbegins

/-- Whoever evaluates the chain of a flow finds its source and all its operators running, while no
start of them has failed, they were not stopped again, and the flow was not stopped before its
start. -/
theorem peers_find_running (hmade : ofDrafts fresh drafts scopes root = .ok start)
    (hnew : ∀ p ∈ drafts, p.untouched = true) (hcalls : ∀ a ∈ first :: calls, a.begins = true)
    (hwire : ∀ g inflows, .wire g inflows .check ∉ first :: calls)
    (hrun : Run (start.opened first calls) trace w) (hcell : start.flow? f = some cell)
    (hpull : w.evaluates t f = true) (hproper : ∀ taken ∈ trace, taken.proper f = true)
    (hunstopped : w.stopping f = true → WasStarted f trace) :
    ∃ p, w.pipeline? f = some p ∧ p.chain.source.stage = .running ∧
      ∀ op ∈ p.chain.operators, op.stage = .running := by
  have hbegins := begins_opened start hcalls
  have hlatch : cell.released = false := by
    obtain ⟨p, _, name, fed, rfl⟩ := draft_of_ofDrafts hmade hcell
    rfl
  have hlatched : Latched f trace w := hrun.latched (.init hcell hlatch hbegins)
  have hstacked := hrun.stacked (stacked_opened start hcalls) t
  have hlocked := hrun.reach.wellLocked (wellLocked_of_drafts hmade hnew hcalls hwire)
  obtain ⟨q, hq⟩ := evaluates_iff.mp hpull
  have hmem : .pull f q ∈ w.tasks t := by
    rw [tasks_eq]
    exact List.mem_map.mpr ⟨_, hq, rfl⟩
  have hstarted : WasStarted f trace :=
    (hlatched.pulled hstacked hlocked hmem).elim hunstopped id
  obtain ⟨cell', hcell'⟩ := hlatched.flow
  have hp : w.pipeline? f = some cell'.pipeline := by rw [pipeline?, hcell']; rfl
  have hrunning := hlatched.running hstarted hproper
  rw [marksOf_of_pipeline? hp] at hrunning
  exact ⟨_, hp, Pipeline.running_of_marks hrunning⟩

/-- A flow that is called, and gives back its payload. -/
def serverDrafts : List FlowDraft :=
  [⟨some "c", none, [.make "noop" (.apply .noop) .none], none,
    some (.make "call" .onCall .none)⟩]

def server : World :=
  (ofDrafts (fun _ => "") serverDrafts Scope.Store.empty.addRoot.1 0).toOption.getD empty

/-- One thread runs the flow, one stops it, one calls it. -/
def serverOpened : World :=
  server.opened (.runAll .begin) [.stop 0 .begin, .call "c" 0 (.int 1) .latch]

/-- The call comes once the flow has started. -/
def serverCalled : List Taken × World :=
  serverOpened.replay [] (List.replicate 60 0 ++ List.replicate 5 2)

/-- The call comes once the flow was stopped. -/
def serverLate : List Taken × World :=
  serverOpened.replay [] (List.replicate 60 0 ++ List.replicate 18 1 ++ List.replicate 5 2)

theorem server_finds_running : serverCalled.2.evaluates 2 0 = true ∧
    ∃ p, serverCalled.2.pipeline? 0 = some p ∧ p.chain.source.stage = .running ∧
      ∀ op ∈ p.chain.operators, op.stage = .running := by
  have hmade : ofDrafts (fun _ => "") serverDrafts Scope.Store.empty.addRoot.1 0 = .ok server :=
    made_of_isOk (by decide +kernel)
  have hpull : serverCalled.2.evaluates 2 0 = true := by decide +kernel
  have hproper : serverCalled.1.all (Taken.proper 0) = true := by decide +kernel
  have hunstopped : serverCalled.2.stopping 0 = false := by decide +kernel
  obtain ⟨cell, hcell⟩ : ∃ cell, server.flow? 0 = some cell := ⟨_, rfl⟩
  have hrun : Run serverOpened serverCalled.1 serverCalled.2 := run_replay .refl _
  refine ⟨hpull, peers_find_running hmade (by decide) (by simp [Activity.begins]) (by simp) hrun
    hcell hpull (List.all_eq_true.mp hproper) fun hstopping => ?_⟩
  rw [hunstopped] at hstopping
  cases hstopping

/-- A flow that was stopped is called, and its chain is evaluated although source and operators
have been stopped. -/
theorem server_evaluated_stopped : Reach serverOpened serverLate.2 ∧
    serverLate.2.evaluates 2 0 = true ∧
    ((serverLate.2.pipeline? 0).map fun p =>
      (p.chain.source.stage, p.chain.operators.map (·.stage))) = some (.stopped, [.stopped]) :=
  ⟨(run_replay .refl _).reach, by decide +kernel, by decide +kernel⟩

end Drafts

end World
end PullFlow.Engine
