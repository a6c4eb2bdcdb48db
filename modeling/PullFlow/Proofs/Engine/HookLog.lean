import PullFlow.Proofs.Engine.Readiness

/-!
The hooks that are called for a flow in the course of a run, and what the calls come to from the
start of its components to their end. A start goes through source, operators and sink and then comes
to the monitor; the first failure ends it. A stop goes through the monitor, source, operators and
sink, and calls the hook of each one that is running.
-/

namespace PullFlow

/-- The places of a flow in the order of the start. -/
def startOrder (n : Nat) : List Place := places n ++ [.monitor]

/-- The places of a flow in the order of the stop. -/
def stopOrder (n : Nat) : List Place := .monitor :: places n

/-- What was started by some calls is stopped by others, each component once. For a flow that was not
started nothing is called. -/
structure Bracketed (n : Nat) (started : Prop) (starts stops : List HookCall) : Prop where
  order : started → StartsInOrder (startOrder n) starts
  none : ¬ started → starts = []
  hook : ∀ c ∈ stops, c.hook = .stop
  stopped : stops.map (·.place) = (stopOrder n).filter (succeeded starts)

/-- Components that were not started. -/
structure Cold (log : List HookCall) (marks : List (Place × Stage)) : Prop where
  log : log = []
  marks : ∀ x ∈ marks, x.2.begun = false

/-- Components that are about to be started. -/
structure Primed (log : List HookCall) (marks : List (Place × Stage)) : Prop where
  log : log = []
  marks : ∀ x ∈ marks, x.2 = .initialised

/-- Components that were started in an order, up to the first failure. -/
structure Warm (order : List Place) (log : List HookCall) (marks : List (Place × Stage)) :
    Prop where
  starts : StartsInOrder order log
  marks : ∀ x ∈ marks, x.2 = if succeeded log x.1 then .running else .initialised

/-- Components that are to be stopped, with the monitor. -/
def Standing (n : Nat) (started : Prop) (log : List HookCall) (marks : List (Place × Stage)) :
    Prop :=
  ¬ started ∧ Cold log marks ∨ started ∧ Warm (startOrder n) log marks

/-- Components that are to be stopped once the monitor was. -/
structure Closing (n : Nat) (started : Prop) (starts stops : List HookCall)
    (marks : List (Place × Stage)) : Prop where
  order : started → StartsInOrder (startOrder n) starts
  none : ¬ started → starts = []
  hook : ∀ c ∈ stops, c.hook = .stop
  stopped : stops.map (·.place) = [Place.monitor].filter (succeeded starts)
  marks : ∀ x ∈ marks, x.2 = .running ↔ succeeded starts x.1 = true

section Calls

variable {n : Nat} {started' : Prop} {log starts stops : List HookCall}
  {marks marks' : List (Place × Stage)} {place : Place} {stage : Stage} {ls : List Leaf} {l : Leaf}
  {order : List Place}

theorem succeeded_append (calls calls' : List HookCall) (place : Place) :
    succeeded (calls ++ calls') place = (succeeded calls place || succeeded calls' place) := by
  simp [succeeded]

/-- Nothing was started at a place that no call names. -/
theorem not_succeeded (h : place ∉ log.map (·.place)) : succeeded log place = false := by
  refine Bool.eq_false_iff.mpr fun hany => ?_
  obtain ⟨c, hc, hsame⟩ := List.any_eq_true.mp hany
  simp only [Bool.and_eq_true, decide_eq_true_eq] at hsame
  exact h (List.mem_map.mpr ⟨c, hc, hsame.1.2⟩)

theorem monitor_not_mem_places (n : Nat) : Place.monitor ∉ places n := by
  simp [places]

/-! Being set up leaves what was started. -/

theorem Cold.eased (h : Cold log marks) (heased : Eased marks marks') : Cold log marks' :=
  ⟨h.log, heased.begun h.marks⟩

theorem Primed.eq_of_eased (h : Primed log marks) (heased : Eased marks marks') : marks' = marks :=
  heased.eq_of_ready fun x hx => by
    rw [h.marks x hx]
    rfl

theorem Warm.eq_of_eased (h : Warm order log marks) (heased : Eased marks marks') :
    marks' = marks :=
  heased.eq_of_ready fun x hx => by
    rw [h.marks x hx]
    split <;> rfl

theorem Standing.eased (h : Standing n started' log marks) (heased : Eased marks marks') :
    Standing n started' log marks' := by
  obtain ⟨hnot, hcold⟩ | ⟨hstarted, hwarm⟩ := h
  · exact .inl ⟨hnot, hcold.eased heased⟩
  · exact .inr ⟨hstarted, hwarm.eq_of_eased heased ▸ hwarm⟩

theorem Closing.eased (h : Closing n started' starts stops marks) (heased : Eased marks marks') :
    Closing n started' starts stops marks' := by
  refine ⟨h.order, h.none, h.hook, h.stopped, ?_⟩
  have hmarks := h.marks
  clear h
  induction heased with
  | nil => exact List.forall_mem_nil _
  | @cons x x' _ _ hx _ ih =>
      obtain ⟨hfirst, hrest⟩ := List.forall_mem_cons.mp hmarks
      refine List.forall_mem_cons.mpr ⟨?_, ih hrest⟩
      obtain ⟨hplace, hstage | ⟨hready, hbegun⟩⟩ := hx
      · rw [hplace, hstage]
        exact hfirst
      · rw [hplace, ← hfirst]
        have hnot : x.2 ≠ .running := fun hrunning => by
          rw [hrunning] at hready
          cases hready
        have hnot' : x'.2 ≠ .running := fun hrunning => by
          rw [hrunning] at hbegun
          cases hbegun
        exact iff_of_false hnot' hnot

/-! What the calls of a start and of a stop come to. -/

/-- Components after the calls of their start. -/
theorem warm_startCalls (h : ∀ l ∈ ls, l.stage = .initialised) (hnodup : (ls.map (·.place)).Nodup) :
    Warm (ls.map (·.place)) (startCalls ls) (started ls) := by
  refine ⟨startsInOrder_startCalls h, fun x hx => ?_⟩
  have hrunning := running_started h hnodup x hx
  split
  · next hsucceeded => exact hrunning.mpr hsucceeded
  · next hfailed =>
    have hstage : x.2 = .running ∨ x.2 = .initialised := by
      clear hrunning hfailed hnodup
      induction ls with
      | nil => cases hx
      | cons l ls ih =>
          obtain ⟨hl, hls⟩ := List.forall_mem_cons.mp h
          rw [started] at hx
          split at hx
          · obtain rfl | hx := List.mem_cons.mp hx
            · exact .inl rfl
            · exact ih hls hx
          · obtain ⟨l', hl', rfl⟩ := List.mem_map.mp hx
            exact .inr (h l' hl')
    exact hstage.resolve_left (mt hrunning.mp hfailed)

/-- A start that has failed does not come to the monitor. -/
theorem Warm.failed (h : Warm (places n) log marks)
    (hfailed : ¬ ∀ c ∈ log, c.result.isOk = true) :
    Warm (startOrder n) log (marks ++ [(.monitor, .initialised)]) := by
  refine ⟨h.starts.failed hfailed _, fun x hx => ?_⟩
  obtain hx | hx := List.mem_append.mp hx
  · exact h.marks x hx
  · rw [List.mem_singleton.mp hx, if_neg]
    rw [not_succeeded fun hmem => monitor_not_mem_places n (h.starts.inOrder.subset hmem)]
    exact Bool.false_ne_true

/-- The monitor is started after all components. -/
theorem Warm.monitor (h : Warm (places n) log marks) (hplaces : marks.map Prod.fst = places n)
    (hall : ∀ c ∈ log, c.result.isOk = true) (l : Leaf) (hplace : l.place = .monitor) :
    Warm (startOrder n) (log ++ [l.startCall])
      (marks ++ [(.monitor, if l.start.1.isOk then .running else .initialised)]) := by
  have hstarts := h.starts.snoc hall l.startCall rfl
  refine ⟨?_, fun x hx => ?_⟩
  · rw [startOrder, ← hplace]
    exact hstarts
  · rw [succeeded_append]
    have hone : succeeded [l.startCall] x.1 = (decide (Place.monitor = x.1) && l.start.1.isOk) := by
      simp [succeeded, Leaf.startCall, hplace]
    obtain hx | hx := List.mem_append.mp hx
    · have hne : Place.monitor ≠ x.1 := fun hsame =>
        monitor_not_mem_places n (hplaces ▸ List.mem_map.mpr ⟨x, hx, hsame.symm⟩)
      rw [hone, decide_eq_false hne, Bool.false_and, Bool.or_false]
      exact h.marks x hx
    · rw [hone, List.mem_singleton.mp hx,
        not_succeeded fun hmem => monitor_not_mem_places n (h.starts.inOrder.subset hmem)]
      simp

theorem hook_stopCalls (ls : List Leaf) : ∀ c ∈ stopCalls ls, c.hook = .stop :=
  List.forall_mem_map.mpr fun _ _ => rfl

/-- The monitor is stopped first. -/
theorem Standing.stopMonitor (h : Standing n started' log (marks ++ [(.monitor, l.stage)]))
    (hplace : l.place = .monitor) : Closing n started' log (stopCalls [l]) marks := by
  obtain ⟨hnot, hcold⟩ | ⟨hstarted, hwarm⟩ := h
  · have hidle (stage : Stage) (hbegun : stage.begun = false) : stage ≠ .running := fun hrunning => by
      rw [hrunning] at hbegun
      cases hbegun
    obtain ⟨rfl, hmarks⟩ := hcold
    obtain ⟨hcomponents, hmonitor⟩ := List.forall_mem_append.mp hmarks
    refine ⟨fun hstarted => absurd hstarted hnot, fun _ => rfl, hook_stopCalls _, ?_, fun x hx => ?_⟩
    · have hl := hidle l.stage (hmonitor _ (List.mem_singleton.mpr rfl))
      simp [stopCalls, hl, succeeded]
    · exact iff_of_false (hidle x.2 (hcomponents x hx)) Bool.false_ne_true
  · obtain ⟨hcomponents, hmonitor⟩ := List.forall_mem_append.mp hwarm.marks
    have hl := List.forall_mem_singleton.mp hmonitor
    dsimp only at hl
    refine ⟨fun _ => hwarm.starts, fun hnot => absurd hstarted hnot, hook_stopCalls _, ?_, fun x hx => ?_⟩
    · cases hsucceeded : succeeded log .monitor with
      | true => simp [stopCalls, hl, hsucceeded, Leaf.stopCall, hplace]
      | false => simp [stopCalls, hl, hsucceeded]
    · rw [hcomponents x hx]
      cases succeeded log x.1 <;> simp

/-- What runs is stopped, in order. -/
theorem places_stopCalls (ls : List Leaf) : (stopCalls ls).map (·.place) =
    ((ls.map Leaf.mark).filter fun x => decide (x.2 = .running)).map Prod.fst := by
  induction ls with
  | nil => rfl
  | cons l ls ih =>
      by_cases hl : l.stage = .running
      · simp [stopCalls, Leaf.mark, Leaf.stopCall, hl] at ih ⊢
        exact ih
      · simp [stopCalls, Leaf.mark, hl] at ih ⊢
        exact ih

theorem Closing.stopComponents (h : Closing n started' starts stops (ls.map Leaf.mark))
    (hplaces : (ls.map Leaf.mark).map Prod.fst = places n) :
    Bracketed n started' starts (stops ++ stopCalls ls) := by
  refine ⟨h.order, h.none, List.forall_mem_append.mpr ⟨h.hook, hook_stopCalls ls⟩, ?_⟩
  have hfilter : (ls.map Leaf.mark).filter (fun x => decide (x.2 = .running)) =
      (ls.map Leaf.mark).filter (succeeded starts ∘ Prod.fst) := by
    refine List.filter_congr fun x hx => ?_
    rw [Function.comp_apply, Bool.eq_iff_iff, decide_eq_true_iff]
    exact h.marks x hx
  rw [List.map_append, h.stopped, places_stopCalls, hfilter, ← List.filter_map, hplaces]
  exact (List.filter_append [Place.monitor] (places n)).symm

end Calls

end PullFlow
