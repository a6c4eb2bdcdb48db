import PullFlow.Proofs.Gathering
import PullFlow.Proofs.Engine.Errands
import PullFlow.Proofs.Engine.Latch
import PullFlow.Proofs.Engine.SingleWriter

/-!
What a flow gets from the flows that feed it. A thread that evaluates the chain of the fed flow
asks the inflows one after the other for their payloads. A payload that is kept is there at once;
one on demand is what a read of the feeding flow comes to, for which the thread takes the lock of
that flow.
-/

namespace PullFlow.Engine.World

open Chain (Beat requests answers Gathering Collected)

/-- What an inflow gives to one who asks: the payload that its sink was given last, or on demand
what one read of the chain of its flow comes to. -/
inductive Gives (t : ThreadId) (n : Nat) (asks : Taken) (o : Outflow) (turns : List Taken) :
    Outcome → Prop where
  | kept : o.onDemand = false → Gives t n asks o turns (.ok (asks.before.lastPayload o))
  | read {out : Outcome} : o.onDemand = true → Comes t (.demand o.flow) n turns out →
      Gives t n asks o turns out

/-- How far a thread is that asked an inflow for its payload above `rest`. -/
inductive Giving (w : World) (t : ThreadId) (asks : Taken) (o : Outflow) (rest : List Activity)
    (turns : List Taken) : Prop where
  | kept : o.onDemand = false → w.tasks t = rest →
      w.answerOf t = .ok (asks.before.lastPayload o) → Giving w t asks o rest turns
  | read : o.onDemand = true → (Errand.demand o.flow).Stage w t rest turns →
      Giving w t asks o rest turns

/-- What a request of a source comes to that is fed: it is for the payload of an inflow, and the
outcome is what that gives. -/
def PayloadOutcome (t : ThreadId) (back : List Activity) (inflows : List Outflow) (asks : Taken)
    (r : Request) (turns : List Taken) (out : Outcome) : Prop :=
  ∃ o ∈ inflows, r = .payload o ∧ Gives t (back.length + 1) asks o turns out

variable {start w w₁ w' : World} {t u : ThreadId} {f : FlowId} {a first : Activity}
  {rest below back calls : List Activity} {turn : Turn} {turns trace : List Taken} {P : Plan}
  {o : Outflow} {asks : Taken} {c : Chain} {named : Bool} {inflows : List Outflow}
  {fresh : Nat → String} {drafts : List FlowDraft} {scopes : Scope.Store} {root : ScopeId}

namespace Giving

theorem tick (h : Giving w t asks o rest turns) (nanos : Nat) :
    Giving (w.tick nanos) t asks o rest turns := by
  cases h with
  | kept hkept htasks hanswer => exact .kept hkept htasks hanswer
  | read hdemand hstage => exact .read hdemand (hstage.tick nanos)

theorem takes (h : Giving w t asks o rest turns) (hw : WellLocked P w)
    (htakes : Takes w u a below w₁ turn) (hrest : rest ≠ [])
    (habove : u = t → rest.length < (w.tasks t).length) :
    Giving (w₁.turn u turn) t asks o rest (⟨w, u, a⟩ :: turns) := by
  cases h with
  | kept hkept htasks hanswer =>
      have hu : u ≠ t := fun hself => by
        have hlonger := habove hself
        rw [htasks] at hlonger
        exact absurd hlonger (Nat.lt_irrefl _)
      obtain ⟨hsame, hanswer', _⟩ := htakes.other hu (htasks ▸ hrest) o.flow 0
      exact .kept hkept (hsame.trans htasks) (hanswer'.trans hanswer)
  | read hdemand hstage =>
      exact .read hdemand
        (hstage.takes (proper_demand (WellLocked P) _ _) hw hw hrest htakes habove)

theorem gives (h : Giving w t asks o rest turns) (hlength : (w.tasks t).length = rest.length) :
    Gives t rest.length asks o turns (w.answerOf t) := by
  cases h with
  | kept hkept _ hanswer => exact hanswer ▸ .kept hkept
  | read hdemand hstage => exact .read hdemand (hstage.comes hlength)

end Giving

/-- The payloads that a source asks for are given one by one. -/
theorem answering_payloads (P : Plan) (t : ThreadId) (f : FlowId) (back : List Activity)
    (hidle : c.idle = []) (hbody : c.source.body = .inflow named inflows) :
    Answering P (WellLocked P) t f back c .enter
      (fun log => ∀ b ∈ log.dropLast, ∃ x, b.point = .source x)
      (fun asks r w rest turns => ∃ o ∈ inflows, r = .payload o ∧ Giving w t asks o rest turns)
      (PayloadOutcome t back inflows) where
  locked _ hw := hw
  keeps_tick _ nanos hw := hw.tick nanos
  keeps _ _ _ _ _ _ htakes hw := htakes.wellLocked hw
  asked _ _ _ hlog hasked htold := hlog.inflows_before hidle hasked htold
  begins w a w₁ turn b log r q w₂ hlog hasked hmove htakes hserve hsame := by
    obtain ⟨hafter, hstands⟩ :=
      (hlog.goes (congrArg PullMove.next? hmove)).gathering hidle hbody hasked
    have hearlier := (Chain.open_gathering c).earlier b log hasked
    obtain ⟨hbefore, _⟩ := hlog.gathering hidle hbody hearlier
    obtain rfl := hsame (hafter.trans hbefore.symm)
    rw [Chain.requests_cons_of_ask hmove] at hstands
    obtain ⟨o, ho, rfl⟩ :=
      hstands.asks_inflows (List.mem_append_right _ (List.mem_singleton_self r))
    refine ⟨o, ho, rfl, ?_⟩
    rw [serve] at hserve
    split at hserve
    · next hdemand =>
      cases hserve
      exact .read hdemand (.before List.mem_cons_self htakes.goes.tasks_self rfl)
    · next hkept =>
      cases hserve
      exact .kept (Bool.eq_false_iff.mpr hkept) htakes.goes.tasks_self htakes.goes.answerOf_self
  tick _ _ _ _ _ nanos := fun ⟨o, ho, hr, hgiving⟩ => ⟨o, ho, hr, hgiving.tick nanos⟩
  takes _ _ _ _ _ _ _ _ _ _ hw htakes hrest habove := fun ⟨o, ho, hr, hgiving⟩ =>
    ⟨o, ho, hr, hgiving.takes hw htakes hrest habove⟩
  comes _ _ _ _ _ := fun ⟨o, ho, hr, hgiving⟩ hlength => ⟨o, ho, hr, hgiving.gives hlength⟩

/-- In a run, a thread that reads the source of a flow which is fed asks each inflow once for its
payload, in order, and the first inflow that fails is the last one that is asked: the read fails
with its error. Otherwise the value has the payloads in it, but where they are kept by producers and
a later inflow has the same producer. What is told of an inflow is what it gives, whatever other
threads do meanwhile. -/
theorem inflows_asked_in_order (hmade : ofDrafts fresh drafts scopes root = .ok start)
    (hnew : ∀ p ∈ drafts, p.untouched = true) (hcalls : ∀ a ∈ first :: calls, a.begins = true)
    (hwire : ∀ g inflows, .wire g inflows .check ∉ first :: calls)
    (hreach : Reach (start.opened first calls) w) (htasks : w.tasks t = .pull f .enter :: back)
    (hchain : w.chain? f = some c) (hidle : c.idle = [])
    (hbody : c.source.body = .inflow named inflows) (hrun : Run w trace w')
    (hasked : ∀ b ∈ (beats t f back.length trace).dropLast, ∃ x, b.point = .source x) :
    (∃ above p, w'.tasks t = above ++ .pull f p :: back ∧ w'.chain? f = some c ∧
      Gathering c.source named inflows (requests (beats t f back.length trace))
        (answers (beats t f back.length trace)) p ∧
      ∀ v, p = .reply (.ok v) → Collected named inflows (requests (beats t f back.length trace))
        (answers (beats t f back.length trace)) v) ∧
    Told t f back trace (PayloadOutcome t back inflows) := by
  have hw := hreach.wellLocked (wellLocked_of_drafts hmade hnew hcalls hwire)
  have hanswering := answering_payloads start.plan t f back hidle hbody
  have hopen := Chain.open_gathering c
  obtain ⟨⟨above, p, c', htasks', hchain', hlog⟩, _⟩ :=
    hrun.lastAsked hanswering hw htasks hchain hopen hasked
  obtain ⟨rfl, hstands⟩ := hlog.gathering hidle hbody hasked
  exact ⟨⟨above, p, htasks', hchain', hstands, fun v hp => hstands.collected hp⟩,
    hrun.told hanswering hw htasks hchain hopen hasked⟩

/-- Two flows, the first of which feeds the second one twice: with a truth value on the way and with
the opposite at its end. -/
def twiceFlows (named : Bool) : List Blueprint.Flow :=
  [⟨some "a", some (.bare "bool.true"),
      [.tee ⟨Blueprint.flowKind, none, [.flow "b"], []⟩, .operator (.bare "not")],
      some ⟨Blueprint.flowKind, none, [.flow "b"], []⟩, some (.bare "once")⟩,
    ⟨some "b", some ⟨"inflow", none, [], [("named", .literal (.bool named))]⟩, [],
      some (.bare "none"), some (.bare "once")⟩]

def twiceDrafts (named : Bool) : List FlowDraft :=
  ((twiceFlows named).mapM (FlowDraft.ofFlow Catalog.registry)).toOption.getD []

def twice (named : Bool) : World :=
  (ofDrafts (fun _ => "") (twiceDrafts named) Scope.Store.empty.addRoot.1 0).toOption.getD empty

/-- The state after the turn in which the set-up hands a flow its inflows, where they come in the
order of their producers. -/
def handsOn? (w : World) (t : ThreadId) : Option World :=
  match w.doing? t, w.answerOf t with
  | some (.setUpAll (.wire (flow :: left) all)), .ok _ =>
      (w.flow? flow).bind fun cell =>
        let inflows := all.filter (·.target == cell.name)
        if (inflows.map (·.producer)).Pairwise (· ≤ ·) then
          some (w.turn t (.invoke (.wire flow inflows .check) (.setUpAll (.wire left all))))
        else none
  | _, _ => none

theorem step_of_handsOn (h : w.handsOn? t = some w') : w.step t = some w' := by
  unfold handsOn? at h
  split at h
  · next flow left all v hdoing hanswer =>
    obtain ⟨cell, hcell, h⟩ := Option.bind_eq_some_iff.mp h
    dsimp only at h
    split at h
    · next hsorted =>
      cases h
      have hinflows : inflowsOf cell.name all = all.filter (·.target == cell.name) :=
        List.mergeSort_of_pairwise
          ((List.pairwise_map.mp hsorted).imp fun hle => decide_eq_true hle)
      rw [step_of_doing hdoing, hanswer]
      simp only [Activity.step, setUpAll, hcell, Option.bind_some, hinflows, unlessFailed,
        Option.map_some]
    · cases h
  · cases h

/-- The set-up is about to hand the second flow its inflows. -/
def twiceWires (named : Bool) : World :=
  (((twice named).opened (.runAll .begin) []).replay [] (List.replicate 69 0)).2

/-- The first flow has run, and the second one is about to ask its source. -/
def twiceReads (named : Bool) : World :=
  ((((twiceWires named).handsOn? 0).getD empty).replay []
    (List.replicate 18 0 ++ List.replicate 48 1 ++ List.replicate 11 2)).2

/-- Its source has answered. -/
def twiceRun (named : Bool) : List Taken × World := (twiceReads named).replay [] [2, 2, 2]

/-- The source that a thread is about to ask, if it is fed: of which flow, with how much below, and
whether and by which flows. -/
def feeds? (w : World) (t : ThreadId) : Option (FlowId × Nat × Bool × List Outflow) :=
  match w.tasks t with
  | .pull f .enter :: back =>
      (w.chain? f).bind fun c =>
        match c.idle, c.source.body with
        | [], .inflow named inflows => some (f, back.length, named, inflows)
        | _, _ => none
  | _ => none

theorem of_feeds {n : Nat} (h : w.feeds? t = some (f, n, named, inflows)) :
    ∃ back c, w.tasks t = .pull f .enter :: back ∧ back.length = n ∧ w.chain? f = some c ∧
      c.idle = [] ∧ c.source.body = .inflow named inflows := by
  unfold feeds? at h
  split at h
  · next f back htasks =>
    obtain ⟨c, hchain, h⟩ := Option.bind_eq_some_iff.mp h
    split at h
    · next hidle hbody =>
      cases h
      exact ⟨back, c, htasks, rfl, hchain, hidle, hbody⟩
    · cases h
  · cases h

/-- Whether a step is told an outcome that the source has asked for. -/
def isSource (b : Beat) : Bool :=
  match b.point with
  | .source _ => true
  | _ => false

theorem point_of_isSource {b : Beat} (h : isSource b = true) : ∃ x, b.point = .source x := by
  unfold isSource at h
  split at h
  · next x hpoint => exact ⟨x, hpoint⟩
  · cases h

/-- The value with which a thread comes back from a read, and how much is below. -/
def replies? (w : World) (t : ThreadId) : Option (Nat × Value) :=
  match w.tasks t with
  | .pull _ (.reply (.ok v)) :: back => some (back.length, v)
  | _ => none

theorem of_replies {n : Nat} {v : Value} (h : w.replies? t = some (n, v)) :
    ∃ f back, w.tasks t = .pull f (.reply (.ok v)) :: back ∧ back.length = n := by
  unfold replies? at h
  split at h
  · next f v back htasks =>
    cases h
    exact ⟨f, back, htasks, rfl⟩
  · cases h

/-- The truth value that an outcome is. -/
def bool? : Outcome → Option Bool
  | .ok (.bool b) => some b
  | _ => none

theorem eq_of_bool {out : Outcome} {b : Bool} (h : bool? out = some b) : out = .ok (.bool b) := by
  unfold bool? at h
  split at h <;> cases h
  rfl

theorem twice_made (named : Bool) : ofDrafts (fun _ => "") (twiceDrafts named)
    Scope.Store.empty.addRoot.1 0 = .ok (twice named) := by
  cases named <;> exact made_of_isOk (by decide +kernel)

/-- What is seen of the run: that the set-up goes on, that the source is about to be asked for what
two flows give it that are one, and what it is told before it answers. -/
theorem twice_seen (named : Bool) : ((twiceWires named).handsOn? 0).isSome = true ∧
    ((twiceReads named).feeds? 2).map (fun (f, n, named, inflows) =>
      (f, n, named, inflows.map Outflow.producer)) = some (1, 2, named, ["a", "a"]) ∧
    (beats 2 1 2 (twiceRun named).1).dropLast.all isSource = true ∧
    (answers (beats 2 1 2 (twiceRun named).1)).map bool? = [some true, some false] ∧
    ((twiceRun named).2.replies? 2).map (·.1) = some 2 := by
  cases named <;> decide +kernel

theorem twice_payloads {payloads : List Value} (named : Bool)
    (h : answers (beats 2 1 2 (twiceRun named).1) = payloads.map .ok) :
    payloads = [.bool true, .bool false] := by
  obtain ⟨_, _, _, htruths, _⟩ := twice_seen named
  rw [h, List.map_map] at htruths
  obtain ⟨x, _, rfl, hx, hrest⟩ := List.map_eq_cons_iff.mp htruths
  obtain ⟨y, _, rfl, hy, hrest⟩ := List.map_eq_cons_iff.mp hrest
  obtain rfl := List.map_eq_nil_iff.mp hrest
  obtain rfl := Except.ok.inj (eq_of_bool hx)
  obtain rfl := Except.ok.inj (eq_of_bool hy)
  rfl

theorem twice_reached (named : Bool) :
    Reach ((twice named).opened (.runAll .begin) []) (twiceReads named) := by
  obtain ⟨hhands, _⟩ := twice_seen named
  obtain ⟨wired, hwired⟩ := Option.isSome_iff_exists.mp hhands
  have hreach : Reach ((twice named).opened (.runAll .begin) []) (twiceWires named) :=
    (run_replay .refl _).reach
  refine (hreach.step (step_of_handsOn hwired)).trans ?_
  rw [twiceReads, hwired]
  exact (run_replay .refl _).reach

/-- The thread comes back from the source with a value. -/
theorem twice_replies {named : Bool} {p : PullPoint}
    (h : (twiceRun named).2.tasks 2 = above ++ .pull 1 p :: back) (hlength : back.length = 2) :
    above = [] ∧ ∃ v, p = .reply (.ok v) := by
  obtain ⟨_, _, _, _, hreplies⟩ := twice_seen named
  obtain ⟨⟨n, v⟩, hreplies, rfl⟩ := Option.map_eq_some_iff.mp hreplies
  obtain ⟨f, back', htasks, hback⟩ := of_replies hreplies
  rw [htasks] at h
  obtain rfl : above = [] := List.eq_nil_of_length_eq_zero (by
    have hsame := congrArg List.length h
    simp only [List.length_append, List.length_cons] at hsame
    omega)
  cases h
  exact ⟨rfl, v, rfl⟩

/-- The source of the second flow is asked in the run, and two flows feed it that are one. -/
theorem twice_reads (named : Bool) : ∃ back c inflows,
    (twiceReads named).tasks 2 = .pull 1 .enter :: back ∧ back.length = 2 ∧
      (twiceReads named).chain? 1 = some c ∧ c.idle = [] ∧
      c.source.body = .inflow named inflows ∧ inflows.map (·.producer) = ["a", "a"] ∧
      ∀ b ∈ (beats 2 1 back.length (twiceRun named).1).dropLast, ∃ x, b.point = .source x := by
  obtain ⟨_, hfeeds, hall, _, _⟩ := twice_seen named
  obtain ⟨⟨f, n, named', inflows⟩, hfeeds, hsame⟩ := Option.map_eq_some_iff.mp hfeeds
  obtain ⟨rfl, rfl, rfl, hproducers⟩ : f = 1 ∧ n = 2 ∧ named' = named ∧
      inflows.map Outflow.producer = ["a", "a"] := by simpa using hsame
  obtain ⟨back, c, htasks, hlength, hchain, hidle, hbody⟩ := of_feeds hfeeds
  refine ⟨back, c, inflows, htasks, hlength, hchain, hidle, hbody, hproducers, ?_⟩
  intro b hb
  rw [hlength] at hb
  exact point_of_isSource (List.all_eq_true.mp hall b hb)

/-- Where the payloads of the two inflows are kept in a list, both are in the value. -/
theorem twice_fed_listed :
    ∃ (back : List Activity) (c : Chain) (inflows : List Outflow) (v : Value),
    (twiceReads false).tasks 2 = .pull 1 .enter :: back ∧
    inflows.map (·.producer) = ["a", "a"] ∧
    (twiceRun false).2.tasks 2 = .pull 1 (.reply (.ok v)) :: back ∧
    Gathering c.source false inflows (requests (beats 2 1 2 (twiceRun false).1))
      (answers (beats 2 1 2 (twiceRun false).1)) (.reply (.ok v)) ∧
    Told 2 1 back (twiceRun false).1 (PayloadOutcome 2 back inflows) ∧
    v.Has (.bool true) ∧ v.Has (.bool false) := by
  obtain ⟨back, c, inflows, htasks, hlength, hchain, hidle, hbody, hproducers, hasked⟩ :=
    twice_reads false
  obtain ⟨⟨above, p, htasks', _, hstands, hcollected⟩, htold⟩ :=
    inflows_asked_in_order (twice_made false) (by decide +kernel) (by simp [Activity.begins])
      (by simp) (twice_reached false) htasks hchain hidle hbody
      (run_replay .refl _ : Run (twiceReads false) (twiceRun false).1 (twiceRun false).2) hasked
  obtain ⟨rfl, v, rfl⟩ := twice_replies htasks' hlength
  obtain ⟨_, payloads, hpayloads, _, _, hhas⟩ := hcollected v rfl
  rw [hlength] at hpayloads hstands
  obtain rfl := twice_payloads false hpayloads
  obtain ⟨o, o', rfl⟩ := List.length_eq_two.mp
    ((List.length_map _).symm.trans (congrArg List.length hproducers))
  exact ⟨back, c, _, v, htasks, hproducers, htasks', hstands, htold, hhas 0 o _ rfl rfl (.inl rfl),
    hhas 1 o' _ rfl rfl (.inl rfl)⟩

/-- Where the payloads are kept by the producers, the one of the first inflow is asked for and is
not in the value. -/
theorem twice_fed_loses :
    ∃ (back : List Activity) (c : Chain) (inflows : List Outflow) (v : Value),
    ofDrafts (fun _ => "") (twiceDrafts true) Scope.Store.empty.addRoot.1 0 = .ok (twice true) ∧
    Reach ((twice true).opened (.runAll .begin) []) (twiceReads true) ∧
    (twiceReads true).tasks 2 = .pull 1 .enter :: back ∧ (twiceReads true).chain? 1 = some c ∧
    c.idle = [] ∧ c.source.body = .inflow true inflows ∧
    Run (twiceReads true) (twiceRun true).1 (twiceRun true).2 ∧
    (twiceRun true).2.tasks 2 = .pull 1 (.reply (.ok v)) :: back ∧
    requests (beats 2 1 2 (twiceRun true).1) = inflows.map .payload ∧
    answers (beats 2 1 2 (twiceRun true).1) = [.ok (.bool true), .ok (.bool false)] ∧
    ¬ v.Has (.bool true) := by
  obtain ⟨back, c, inflows, htasks, hlength, hchain, hidle, hbody, hproducers, hasked⟩ :=
    twice_reads true
  have hrun : Run (twiceReads true) (twiceRun true).1 (twiceRun true).2 := run_replay .refl _
  have hw := (twice_reached true).wellLocked
    (wellLocked_of_drafts (twice_made true) (by decide +kernel) (by simp [Activity.begins])
      (by simp))
  obtain ⟨⟨above, p, _, htasks', _, hlog⟩, _⟩ := hrun.lastAsked
    (answering_payloads _ _ _ _ hidle hbody) hw htasks hchain (Chain.open_gathering c) hasked
  obtain ⟨rfl, v, rfl⟩ := twice_replies htasks' hlength
  obtain ⟨_, hstands⟩ := hlog.gathering hidle hbody hasked
  rw [hlength] at hstands
  obtain ⟨hrequests, payloads, hpayloads, _, hv, _⟩ := hstands.collected rfl
  obtain rfl := twice_payloads true hpayloads
  refine ⟨back, c, inflows, v, twice_made true, twice_reached true, htasks, hchain, hidle, hbody,
    hrun, htasks', hrequests, hpayloads, ?_⟩
  rw [hv, SourceBody.fed_several (by decide), hproducers]
  have hobject : SourceBody.gathered true (["a", "a"].zip [.bool true, .bool false]) =
      .object [("a", .bool false)] := rfl
  rw [hobject]
  intro hhas
  generalize htrue : Value.bool true = x at hhas
  cases hhas with
  | self => cases htrue
  | @field key fields x hfound =>
      subst htrue
      cases List.mem_singleton.mp (Fields.mem_of_get? hfound)

end PullFlow.Engine.World
