import PullFlow.Proofs.Rounds
import PullFlow.Proofs.Engine.Delivery
import PullFlow.Proofs.Engine.Release

/-!
What a monitor still does after a stop of its flow. The sleeper of a flow that is stopped stays so,
and every look of the monitor finds that. So from the stop on, wherever the monitor is then and
whatever its reads and pushes come to, it does at most what is left of one round. A monitor that
makes its flow callable asks its flow for nothing at all.
-/

namespace PullFlow.Engine

/-- Whether the monitor has asked for something, or is about to. -/
def RunPoint.asks : RunPoint → Bool
  | .drive (.act ..) | .acting _ => true
  | _ => false

namespace World

variable {start ready mid w w₁ : World} {before trace later : List Taken} {first : Activity}
  {calls : List Activity} {f g : FlowId} {t : ThreadId} {a : Activity} {m₀ m m₁ : Monitor}
  {q q' : RunPoint} {answer : Outcome} {turn : Turn} {rest : List Activity} {stopped s : Bool}

/-! Looks after a stop. -/

theorem Run.append (h : Run start trace mid) (hlater : Run mid later w) :
    Run start (later ++ trace) w := by
  induction hlater with
  | refl => exact h
  | step _ ha hstep ih => exact ih.step ha hstep
  | host _ ha ih => exact ih.host ha
  | tick _ ih => exact ih.tick

theorem deeds_append (f : FlowId) (later trace : List Taken) :
    deeds f (later ++ trace) = deeds f later ++ deeds f trace :=
  List.filterMap_append

/-- A look finds what the sleeper says. -/
theorem eq_of_finds (h : a.deed? f stopped answer = some (.finds s)) : s = stopped := by
  unfold Activity.deed? at h
  split at h
  · split at h
    · unfold RunPoint.deed? at h
      split at h <;> cases h
      rfl
    · cases h
  · split at h <;> cases h
    rfl
  · split at h <;> cases h
  · split at h <;> cases h
  · cases h

/-- A stopped sleeper stays stopped. -/
theorem Run.stopped_throughout (h : Run mid later w) (hstop : mid.stoppedOf f = true) :
    w.stoppedOf f = true ∧ ∀ taken ∈ later, taken.before.stoppedOf f = true :=
  h.every (P := fun trace w =>
      w.stoppedOf f = true ∧ ∀ taken ∈ trace, taken.before.stoppedOf f = true)
    ⟨hstop, List.forall_mem_nil _⟩ (fun _ _ _ hw => hw)
    fun _ _ _ _ _ _ _ htakes hw =>
      ⟨htakes.acts.stopped_mono hw.1, List.forall_mem_cons.mpr ⟨hw.1, hw.2⟩⟩

theorem Run.finds_stop (h : Run mid later w) (hstop : mid.stoppedOf f = true) :
    .finds false ∉ deeds f later := by
  intro hmem
  obtain ⟨taken, htaken, hfinds⟩ := List.mem_filterMap.mp hmem
  have hfalse := eq_of_finds hfinds
  rw [(h.stopped_throughout hstop).2 taken htaken] at hfalse
  cases hfalse

/-! Monitors that run nothing. -/

/-- The run of a monitor that makes its flow callable comes to no action. -/
theorem asks_of_run {r : World × Turn} (h : w.run t f m answer q = some r)
    (hb : .run g m₁ q' ∈ r.2.frames) (hq : q.asks = false)
    (hbody : q.gone = false → m.body = .onCall) : q'.asks = false := by
  obtain ⟨m', q'', hsame, hleads⟩ | hcalls := run_leads h hb
  · cases hsame
    cases q with
    | monitor =>
        cases h
        have hstart : m.start.body.body = .onCall := (body_start m).trans (hbody rfl)
        obtain hsame := List.mem_singleton.mp hb
        split at hsame <;> cases hsame
        · rw [hstart]
          rfl
        · rfl
    | drive move =>
        cases move with
        | act a w => cases hq
        | finish d =>
            obtain ⟨cell, _, hsome⟩ := Option.bind_eq_some_iff.mp h
            cases hsome
            cases List.mem_singleton.mp hb
            rfl
    | acting wait => cases hq
    | _ => cases q' <;> first | rfl | cases hleads
  · cases hcalls
    next hcallee => exact absurd hcallee actionOf?_ne_run

/-- The monitor of a flow asks for nothing, it only comes to its end. -/
structure Silent (f : FlowId) (trace : List Taken) (w : World) : Prop where
  runs : ∀ t m q, .run f m q ∈ w.tasks t → q.asks = false
  ended : ∀ d ∈ deeds f trace, ∃ done, d = .ends done

namespace Silent

theorem takes (h : Silent f trace w) (hdriven : Driven f MonitorBody.onCall.sort w)
    (hstacked : Stacked (w.tasks t)) (htakes : Takes w t a rest w₁ turn) :
    Silent f (⟨w, t, a⟩ :: trace) (w₁.turn t turn) := by
  have hbody {u : ThreadId} {m : Monitor} {q : RunPoint} (hmem : .run f m q ∈ w.tasks u)
      (hq : q.gone = false) : m.body = .onCall := by
    have hsort := hdriven.runs u m q hmem hq
    cases hm : m.body <;> rw [hm] at hsort <;> first | rfl | cases hsort
  refine ⟨fun u m₁ q' hmem => ?_, fun d hd => ?_⟩
  · obtain hmem | ⟨rfl, c, hc, hsame⟩ | ⟨g, m, _, hsame, _⟩ := htakes.mem hmem
    · exact h.runs u m₁ q' hmem
    · obtain rfl := eq_of_quiet_eq hsame fun _ _ _ _ => Activity.noConfusion
      obtain hgoes | ⟨back, _, hasks, _⟩ := htakes.stacks.of_mem hc
      · cases hgoes with
        | @run _ m _ q _ =>
            exact asks_of_run (htakes.step_of_mem hc) hc (h.runs u m q htakes.top)
              (hbody htakes.top)
        | launch => rfl
      · cases hasks with
        | chain hr | sink hr => cases hr
    · cases hsame
      rfl
  · rw [deeds_cons] at hd
    obtain hd | hd := List.mem_append.mp hd
    · have htasks := htakes.goes.tasks
      have hdeed := Option.mem_toList.mp hd
      have hquiet : quiet a = a := by
        cases a <;> first | rfl | cases hdeed
      rw [hquiet] at htasks
      obtain ⟨m, q, rfl, _⟩ | ⟨m, wait, below, rfl⟩ := World.run_of_deed (htasks ▸ hstacked) hdeed
      · have hq := h.runs t m q htakes.top
        have hown : q.deed? (w.stoppedOf f) (w.answerOf t) = some d := (if_pos rfl).symm.trans hdeed
        cases q with
        | drive move =>
            cases move with
            | act a w => cases hq
            | finish done => exact ⟨done, (Option.some.inj hown).symm⟩
        | acting wait => cases hq
        | _ => cases hown
      · have hbelow : .run f m (.acting wait) ∈ w.tasks t :=
          htasks ▸ List.mem_cons_of_mem _ List.mem_cons_self
        cases h.runs t m _ hbelow
    · exact h.ended d hd

theorem tick (h : Silent f trace w) (nanos : Nat) : Silent f trace (w.tick nanos) :=
  ⟨h.runs, h.ended⟩

/-- Nothing is asked for while nobody runs the flow. -/
theorem init (hfree : ∀ t m q, .run f m q ∈ w.tasks t → q.gone = true) : Silent f [] w := by
  refine ⟨fun t m q hmem => ?_, List.forall_mem_nil _⟩
  have hgone := hfree t m q hmem
  cases q <;> first | rfl | cases hgone

theorem legs_eq_nil (h : Silent f (later ++ trace) w) : (deeds f later).legs = [] := by
  have hnone : (deeds f later).filterMap Deed.leg? = [] :=
    List.filterMap_eq_nil_iff.mpr fun d hd => by
      obtain ⟨done, rfl⟩ := h.ended d (deeds_append f later trace ▸ List.mem_append_left _ hd)
      rfl
  rw [Dealings.legs, Dealings.collected, hnone, List.reverse_nil]

end Silent

theorem Run.silent (h : Run start trace w) (hstacked : ∀ u, Stacked (start.tasks u))
    (hdriven : Driven f MonitorBody.onCall.sort start) (hstart : Silent f [] start) :
    Silent f trace w :=
  (h.every (P := fun trace w => (∀ u, Stacked (w.tasks u)) ∧
      Driven f MonitorBody.onCall.sort w ∧ Silent f trace w)
    ⟨hstacked, hdriven, hstart⟩ (fun _ _ nanos hw => ⟨hw.1, hw.2.1.tick nanos, hw.2.2.tick nanos⟩)
    fun _ _ t _ _ _ _ htakes hw =>
      ⟨htakes.stacked hw.1, hw.2.1.takes htakes, hw.2.2.takes hw.2.1 (hw.1 t) htakes⟩).2.2

/-- Whenever the sleeper of a flow is stopped, its monitor does at most what is left of one round
from then on: it reads at most once more and pushes at most once more, and the read comes first. That
holds of every monitor but the one that obeys orders, in every state, and whatever its reads and
pushes come to. -/
theorem stop_leaves_one_round (hcalls : ∀ a ∈ first :: calls, a.begins = true)
    (hplaced : start.parked? f = some m₀) (hbefore : Run (start.opened first calls) before ready)
    (hparked : ready.parked? f = some m) (hready : m.stage.ready = true) (hkind : m.body ≠ .probe)
    (hrun : Run ready trace mid) (hstop : mid.stoppedOf f = true) (hlater : Run mid later w) :
    (deeds f later).legs.Sublist [.pull, .pulled, .push, .pushed] ∧
    (deeds f later).legs.count .pull ≤ 1 ∧ (deeds f later).legs.count .push ≤ 1 := by
  have hlegs : (deeds f later).legs.Sublist Leg.round := by
    cases hends : m.body.endsFlow with
    | true =>
        obtain ⟨_, _, hplays⟩ :=
          (Run.dealt hplaced hcalls hbefore hparked hready hends (hrun.append hlater)).plays
        rw [deeds_append] at hplays
        exact hplays.legs_sublist_round hkind (hlater.finds_stop hstop)
    | false =>
        have hbody : m.body = .onCall := by
          cases hm : m.body <;> rw [hm] at hends <;> first | rfl | cases hends
        obtain ⟨hstacked, _, hdriven, hfree⟩ := Run.parked_alone hplaced hcalls hbefore hparked
        have hsilent := (hrun.append hlater).silent hstacked (hbody ▸ hdriven) (.init hfree)
        rw [hsilent.legs_eq_nil]
        exact List.nil_sublist _
  exact ⟨hlegs, hlegs.count_le _, hlegs.count_le _⟩

/-- A loop that would read and push for ever. -/
def endlessSet : World :=
  pickySet [pickyDraft "a" [.bool true] .null
    (loop "interval" (.interval ⟨0⟩ []) [zeroSleep, ("exit_on_none", .bool false)])]

/-- The set once it is set up, with somebody about to stop the flow. -/
def endlessReady : World :=
  ((endlessSet.opened (.runAll .begin) [.stop 0 .begin]).replay [] (List.replicate 43 0)).2

/-- The sleeper is stopped when the loop has slept for the first time and goes on. -/
def endlessStopped : List Taken × World :=
  endlessReady.replay [] (List.replicate 2 0 ++ List.replicate 24 2 ++ List.replicate 5 1)

def endlessRest : List Taken × World := endlessStopped.2.replay [] (List.replicate 34 2)

/-- A stop right after a sleep leaves a whole round. -/
theorem stop_leaves_whole_round :
    endlessStopped.2.stoppedOf 0 = true ∧
    (deeds 0 endlessRest.1).legs.Sublist [.pull, .pulled, .push, .pushed] ∧
    (deeds 0 endlessStopped.1).legs = [.pull, .pulled, .push, .pushed] ∧
    (deeds 0 endlessRest.1).legs = [.pull, .pulled, .push, .pushed] := by
  have hcalls : ∀ a ∈ [Activity.runAll .begin, .stop 0 .begin], a.begins = true := by
    simp [Activity.begins]
  obtain ⟨m₀, hplaced⟩ := Option.isSome_iff_exists.mp
    (by decide +kernel : (endlessSet.parked? 0).isSome = true)
  have hmonitor : (endlessReady.parked? 0).map (fun m => (loop? m.body, m.stage.ready)) =
      some (some (.interval []), true) := by decide +kernel
  obtain ⟨m, hparked, hm⟩ := Option.map_eq_some_iff.mp hmonitor
  injection hm with hbody hready
  have hkind : m.body ≠ .probe := by
    rw [body_of_loop? hbody]
    rintro ⟨⟩
  have hstop : endlessStopped.2.stoppedOf 0 = true := by decide +kernel
  exact ⟨hstop, (stop_leaves_one_round hcalls hplaced (run_replay .refl _) hparked hready hkind
    (run_replay .refl _) hstop (run_replay .refl _)).1, by decide +kernel, by decide +kernel⟩

end World
end PullFlow.Engine
