import PullFlow.Proofs.Deliveries
import PullFlow.Proofs.Engine.Events
import PullFlow.Proofs.Engine.SingleWriter

/-!
What the scheduled loops deliver in the runs of a set of flows. From when its monitor is set up, a
flow does in every run what the loop of its monitor does with the outcomes of its reads and pushes,
wherever the other threads step in between, and observers are told so.
-/

namespace PullFlow.Engine.World

variable {start ready w : World} {before trace : List Taken} {first : Activity}
  {calls : List Activity} {f : FlowId} {name : String} {m₀ m : Monitor} {b : MonitorBody} {p : Params}

/-- A loop with exit conditions tries to push what it pulls before the first payload that meets one
of them, then reports the first condition that is met and pulls no more. A loop with a target tries
to push what equals it; unless it pushes always, only what comes behind another payload. Both report
each failure once and go on, and observers are told of what the sink took, of every report, and of
nothing else. -/
theorem scheduled_loops_deliver (hname : ∀ g, ready.nameOf? g = some name ↔ g = f)
    (hcalls : ∀ a ∈ first :: calls, a.begins = true) (hplaced : start.parked? f = some m₀)
    (hbefore : Run (start.opened first calls) before ready) (hparked : ready.parked? f = some m)
    (hready : m.stage.ready = true) (hset : MonitorBody.initialise p b = .pass m.body)
    (hrun : Run ready trace w) :
    (∀ sleep conditions, b = .interval sleep conditions →
      Delivers (ExitCondition.upTo (ExitCondition.enabled p))
        (ExitCondition.leaving (ExitCondition.enabled p)) (deeds f trace)) ∧
    (∀ target always sleep met, b = .onValue target always sleep met →
      Delivers (matching (p.value "value") (p.flag "always")) (fun _ => []) (deeds f trace)) ∧
    deliveries name w.events = deliveries name ready.events ++
      (deeds f trace).collected (eventOf? name) := by
  refine ⟨?_, ?_, hrun.deliveries hname⟩
  · rintro sleep conditions rfl
    obtain ⟨_, _, _, _, hbody⟩ := MonitorBody.initialise_interval.mp hset
    have hends : m.body.endsFlow = true := by rw [hbody]; rfl
    obtain ⟨_, _, hplays⟩ := (Run.dealt hplaced hcalls hbefore hparked hready hends hrun).plays
    exact hplays.delivers_interval hset
  · rintro target always sleep met rfl
    obtain ⟨_, _, _, _, hbody⟩ := MonitorBody.initialise_onValue.mp hset
    have hends : m.body.endsFlow = true := by rw [hbody]; rfl
    obtain ⟨_, _, hplays⟩ := (Run.dealt hplaced hcalls hbefore hparked hready hends hrun).plays
    exact hplays.delivers_onValue hset

/-- A flow that reads given values and pushes to a sink that rejects one. -/
def pickyDraft (name : String) (steps : List Value) (rejected : Value) (monitor : Monitor) :
    FlowDraft :=
  ⟨some name,
    some (.make "script" (.script [] false true) ⟨[], [("steps", .literal (.list steps))]⟩), [],
    some (.make "picky" (.picky .null) ⟨[], [("reject", .literal rejected)]⟩), some monitor⟩

/-- A set of such flows. -/
def pickySet (drafts : List FlowDraft) : World :=
  (ofDrafts (fun _ => "") drafts Scope.Store.empty.addRoot.1 0).toOption.getD empty

/-- A set once it is set up. -/
def setUpIn (turns : Nat) (set : World) : World :=
  ((set.opened (.runAll .begin) []).replay [] (List.replicate turns 0)).2

def zeroSleep : String × Value := ("sleep", .number (.int 0))

/-- A monitor with parameters. -/
def loop (kind : String) (b : MonitorBody) (values : List (String × Value)) : Monitor :=
  .make kind b ⟨[], values.map fun (name, v) => (name, .literal v)⟩

/-- A loop that does not sleep and whose parameters hold no number. -/
inductive Loop where
  | interval (conditions : List ExitCondition)
  | onValue (target always met : Bool)
  | change
  deriving DecidableEq

def Loop.body : Loop → MonitorBody
  | interval conditions => .interval ⟨0⟩ conditions
  | onValue target always met => .onValue (.bool target) always ⟨0⟩ met
  | change => .change ⟨0⟩ none

def loop? : MonitorBody → Option Loop
  | .interval ⟨0⟩ conditions => some (.interval conditions)
  | .onValue (.bool target) always ⟨0⟩ met => some (.onValue target always met)
  | .change ⟨0⟩ none => some .change
  | _ => none

theorem body_of_loop? {l : Loop} (h : loop? b = some l) : b = l.body := by
  unfold loop? at h
  split at h <;> cases h <;> rfl

theorem duration_of_nanos {key : String} (h : (p.duration key).toOption.map (·.nanos) = some 0) :
    p.duration key = .ok ⟨0⟩ := by
  obtain ⟨⟨nanos⟩, hd, hnanos⟩ := Option.map_eq_some_iff.mp h
  cases hnanos
  exact eq_ok_of_toOption hd

theorem nameOf?_iff {names : List String} (hnames : w.flows.map (·.name) = names)
    (hnodup : names.Nodup) (hf : names[f]? = some name) (g : FlowId) :
    w.nameOf? g = some name ↔ g = f := by
  have hlookup (g : FlowId) : w.nameOf? g = names[g]? := by
    rw [← hnames, List.getElem?_map]
    rfl
  rw [hlookup, ← hf]
  have hbound : f < names.length := (List.getElem?_eq_some_iff.mp hf).1
  exact ⟨fun h => ((List.getElem?_inj hbound hnodup).mp h.symm).symm, fun h => by rw [h]⟩

/-- A loop with an exit condition and a loop with a target. -/
def loopDrafts : List FlowDraft :=
  [pickyDraft "a" [.bool true, .bool false, .null] (.bool false)
      (loop "interval" (.interval ⟨0⟩ []) [zeroSleep, ("exit_on_none", .bool true)]),
    pickyDraft "b" [.bool true, .bool true, .bool false, .bool true] .null
      (loop "onvalue" (.onValue .null false ⟨0⟩ false) [zeroSleep, ("value", .bool true)])]

def loopsReady : World := setUpIn 77 (pickySet loopDrafts)

def loopsRun : List Taken × World :=
  loopsReady.replay [] (List.replicate 11 0 ++ List.replicate 70 1 ++ List.replicate 70 2)

/-- What is set on a loop that exits on null. -/
def exitOnNull : Params :=
  ⟨[zeroSleep, ("exit_on_none", .bool true), ("exit_on_false", .bool false),
    ("exit_on_empty", .bool false)], []⟩

/-- What is set on a loop that waits for true. -/
def onTrue : Params := ⟨[zeroSleep, ("value", .bool true), ("always", .bool false)], []⟩

def texts (vs : List Value) : List String := vs.map Value.plain

/-- The first loop tries two payloads, of which its sink takes one, and leaves because of the third;
the second one leaves out what equals the payload before it. -/
theorem loops_deliver_texts :
    (Delivers (ExitCondition.upTo (ExitCondition.enabled exitOnNull))
        (ExitCondition.leaving (ExitCondition.enabled exitOnNull)) (deeds 0 loopsRun.1) ∧
      deliveries "a" loopsRun.2.events = deliveries "a" loopsReady.events ++
        (deeds 0 loopsRun.1).collected (eventOf? "a") ∧
      texts (deeds 0 loopsRun.1).pulled = ["true", "false", "null"] ∧
      texts (deeds 0 loopsRun.1).attempted = ["true", "false"] ∧
      texts (deeds 0 loopsRun.1).accepted = ["true"] ∧
      (deeds 0 loopsRun.1).exits = [.anyNull]) ∧
    Delivers (matching (onTrue.value "value") (onTrue.flag "always")) (fun _ => [])
        (deeds 1 loopsRun.1) ∧
      texts (deeds 1 loopsRun.1).pulled = ["true", "true", "false", "true"] ∧
      texts (deeds 1 loopsRun.1).attempted = ["true", "true"] := by
  have hnames : loopsReady.flows.map (·.name) = ["a", "b"] := by decide +kernel
  have hbefore : Run ((pickySet loopDrafts).opened (.runAll .begin) []) _ loopsReady :=
    run_replay .refl _
  have hrun : Run loopsReady loopsRun.1 loopsRun.2 := run_replay .refl _
  have hcalls : ∀ a ∈ [Activity.runAll .begin], a.begins = true := by simp [Activity.begins]
  have hslots : ∀ f ∈ [0, 1], ((pickySet loopDrafts).parked? f).isSome = true := by decide +kernel
  obtain ⟨m₀, hplaced⟩ := Option.isSome_iff_exists.mp (hslots 0 (by simp))
  obtain ⟨m₀', hplaced'⟩ := Option.isSome_iff_exists.mp (hslots 1 (by simp))
  have hmonitor : (loopsReady.parked? 0).map (fun m => (loop? m.body, m.stage.ready)) =
      some (some (.interval [.anyNull]), true) := by decide +kernel
  have hmonitor' : (loopsReady.parked? 1).map (fun m => (loop? m.body, m.stage.ready)) =
      some (some (.onValue true false false), true) := by decide +kernel
  obtain ⟨m, hparked, hm⟩ := Option.map_eq_some_iff.mp hmonitor
  obtain ⟨m', hparked', hm'⟩ := Option.map_eq_some_iff.mp hmonitor'
  injection hm with hbody hready
  injection hm' with hbody' hready'
  have hset : MonitorBody.initialise exitOnNull (.interval ⟨0⟩ []) = .pass m.body :=
    MonitorBody.initialise_interval.mpr ⟨⟨0⟩, [.anyNull],
      duration_of_nanos (by decide +kernel), rfl, body_of_loop? hbody⟩
  have hset' : MonitorBody.initialise onTrue (.onValue .null false ⟨0⟩ false) = .pass m'.body :=
    MonitorBody.initialise_onValue.mpr ⟨false, ⟨0⟩, rfl,
      duration_of_nanos (by decide +kernel), body_of_loop? hbody'⟩
  obtain ⟨hinterval, _, htold⟩ := scheduled_loops_deliver (nameOf?_iff hnames (by decide) rfl)
    hcalls hplaced hbefore hparked hready hset hrun
  obtain ⟨_, honValue, _⟩ := scheduled_loops_deliver (nameOf?_iff hnames (by decide) rfl)
    hcalls hplaced' hbefore hparked' hready' hset' hrun
  exact ⟨⟨hinterval _ _ rfl, htold, by decide +kernel, by decide +kernel, by decide +kernel,
      by decide +kernel⟩, honValue _ _ _ _ rfl, by decide +kernel, by decide +kernel⟩

/-- A loop that looks for changes tries to push a payload that it pulled just if it never tried to
push one, or another one last, whatever came of that. So it never tries to push two equal payloads
one right after the other. -/
theorem change_delivers {last : Option Value} {sleep : Duration}
    (hcalls : ∀ a ∈ first :: calls, a.begins = true) (hplaced : start.parked? f = some m₀)
    (hbefore : Run (start.opened first calls) before ready) (hparked : ready.parked? f = some m)
    (hready : m.stage.ready = true)
    (hset : MonitorBody.initialise p (.change sleep last) = .pass m.body)
    (hrun : Run ready trace w) :
    (∀ later next v earlier, deeds f trace = later ++ next :: .told .cycle (.ok v) :: earlier →
      (next = .asks (.push v) ↔
        ∀ u ∈ (Dealings.attempted earlier).getLast?, Differs u v)) ∧
    (deeds f trace).attempted.IsChain Differs ∧
    Delivers (List.destutter Differs) (fun _ => []) (deeds f trace) := by
  obtain ⟨_, _, hbody⟩ := MonitorBody.initialise_change.mp hset
  have hends : m.body.endsFlow = true := by rw [hbody]; rfl
  obtain ⟨_, _, hplays⟩ := (Run.dealt hplaced hcalls hbefore hparked hready hends hrun).plays
  have hdelivers := hplays.delivers_change hset
  refine ⟨fun later next v earlier hlog => ?_, ?_, hdelivers⟩
  · rw [hbody, hlog] at hplays
    obtain ⟨_, _, hplays⟩ := hplays.of_append
    exact hplays.pushes_iff_differs
  · obtain ⟨after, hafter⟩ := hdelivers.attempts
    exact (List.isChain_append.mp (hafter ▸ List.isChain_destutter Differs _)).1

/-- A loop that looks for changes, before a sink that rejects false. -/
def changeDrafts : List FlowDraft :=
  [pickyDraft "c" [.bool true, .bool false, .bool false, .bool true] (.bool false)
    (loop "change" (.change ⟨0⟩ none) [zeroSleep])]

def changeReady : World := setUpIn 44 (pickySet changeDrafts)

def changeRun : List Taken × World :=
  changeReady.replay [] (List.replicate 1 0 ++ List.replicate 71 1)

theorem change_delivers_texts :
    (deeds 0 changeRun.1).attempted.IsChain Differs ∧
    Delivers (List.destutter Differs) (fun _ => []) (deeds 0 changeRun.1) ∧
    texts (deeds 0 changeRun.1).pulled = ["true", "false", "false", "true"] ∧
    texts (deeds 0 changeRun.1).attempted = ["true", "false", "true"] := by
  have hbefore : Run ((pickySet changeDrafts).opened (.runAll .begin) []) _ changeReady :=
    run_replay .refl _
  have hrun : Run changeReady changeRun.1 changeRun.2 := run_replay .refl _
  have hcalls : ∀ a ∈ [Activity.runAll .begin], a.begins = true := by simp [Activity.begins]
  obtain ⟨m₀, hplaced⟩ := Option.isSome_iff_exists.mp
    (by decide +kernel : ((pickySet changeDrafts).parked? 0).isSome = true)
  have hmonitor : (changeReady.parked? 0).map (fun m => (loop? m.body, m.stage.ready)) =
      some (some .change, true) := by decide +kernel
  obtain ⟨m, hparked, hm⟩ := Option.map_eq_some_iff.mp hmonitor
  injection hm with hbody hready
  have hset : MonitorBody.initialise ⟨[zeroSleep], []⟩ (.change ⟨0⟩ none) = .pass m.body :=
    MonitorBody.initialise_change.mpr ⟨⟨0⟩, duration_of_nanos (by decide +kernel),
      body_of_loop? hbody⟩
  obtain ⟨_, hchain, hdelivers⟩ :=
    change_delivers hcalls hplaced hbefore hparked hready hset hrun
  exact ⟨hchain, hdelivers, by decide +kernel, by decide +kernel⟩

/-- The sink of this flow takes true twice in a row, and false is not tried again after the sink
rejected it. -/
theorem change_repeats_accepted :
    Run changeReady changeRun.1 changeRun.2 ∧
    texts (deeds 0 changeRun.1).pulled = ["true", "false", "false", "true"] ∧
    texts (deeds 0 changeRun.1).attempted = ["true", "false", "true"] ∧
    texts (deeds 0 changeRun.1).accepted = ["true", "true"] ∧
    ¬ (deeds 0 changeRun.1).accepted.IsChain Differs :=
  ⟨run_replay .refl _, by decide +kernel, by decide +kernel, by decide +kernel, by decide +kernel⟩

end PullFlow.Engine.World
