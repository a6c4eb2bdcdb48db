import PullFlow.Proofs.ItemCalls
import PullFlow.Proofs.Engine.Errands
import PullFlow.Proofs.Engine.Discipline

/-!
Calls of another flow with the items of a list, made by an operator of a chain that a thread
evaluates. The operator calls with one item after the other, and what it is told of a call is what
that call came to: the chain of the other flow was read once for it, with the item in its slot. This
is so whatever the other threads do, be it that they call the same flow.
-/

namespace PullFlow.Engine.World

open Chain (Beat requests answers Calling)

variable {start w w' : World} {t : ThreadId} {f callee : FlowId} {first : Activity}
  {back calls : List Activity} {trace : List Taken} {P : Plan} {target : String} {c : Chain}
  {b : Beat} {n : Nat} {op : Operator} {under : List (Operator × OperatorWait)} {mode : CallMode}
  {items : List Value} {fresh : Nat → String} {drafts : List FlowDraft} {scopes : Scope.Store}
  {root : ScopeId}

/-- What a request of an operator comes to that calls a flow: it is a call, and the outcome is that
of the call. -/
def CallOutcome (t : ThreadId) (back : List Activity) (target : String) (callee : FlowId)
    (_ : Taken) (r : Request) (turns : List Taken) (out : Outcome) : Prop :=
  ∃ v, r = .call target callee v ∧
    Comes t (.call target callee v (callNames back)) (back.length + 1) turns out

/-- The calls of an operator that is handed a list are served one by one. -/
theorem answering_calls (items : List Value) (P : Plan) (t : ThreadId) (f : FlowId)
    (back : List Activity)
    (hwaiting : c.waiting = (op, .above) :: under)
    (hbody : op.body = .call mode target (some callee)) (hmode : mode ≠ .whole) :
    Answering P (CallsKept P) t f back c (.reply (.ok (.list items)))
      (fun log => ∀ b ∈ log.dropLast, b.point = .asked)
      (fun _ r w rest turns => ∃ v, r = .call target callee v ∧
        (Errand.call target callee v (callNames rest)).Stage w t rest turns)
      (CallOutcome t back target callee) where
  locked _ hw := hw.locked
  keeps_tick _ nanos hw := hw.tick nanos
  keeps _ _ _ _ _ _ htakes hw := hw.takes htakes
  asked _ _ _ hlog hasked htold := hlog.calls_before hasked htold
  begins w a w₁ turn b log r q w₂ hlog hasked hmove htakes hserve _ := by
    have hstands := (hlog.goes (congrArg PullMove.next? hmove)).calling hmode hwaiting hbody hasked
    rw [Chain.requests_cons_of_ask hmove] at hstands
    obtain ⟨v, rfl⟩ := hstands.asks_calls (List.mem_append_right _ (List.mem_singleton_self r))
    cases hserve
    exact ⟨v, rfl, .before List.mem_cons_self htakes.goes.tasks_self rfl⟩
  tick _ _ _ _ _ nanos := fun ⟨v, hr, hstage⟩ => ⟨v, hr, hstage.tick nanos⟩
  takes _ _ _ _ _ _ _ _ _ _ hw htakes hrest habove := fun ⟨v, hr, hstage⟩ =>
    ⟨v, hr, hstage.takes (proper_call P _ _ _ _) hw hw.locked hrest htakes habove⟩
  comes _ _ _ _ _ := fun ⟨v, hr, hstage⟩ hlength => ⟨v, hr, hstage.comes hlength⟩

/-- An operator that a thread hands a list calls the flow with the items in order, one call after
the other, until one fails. What it is told of a call is what the chain of the other flow gave when
it was read for that call, whatever other threads do. -/
theorem CallsKept.item_calls (hw : CallsKept P w)
    (htasks : w.tasks t = .pull f (.reply (.ok (.list items))) :: back)
    (hchain : w.chain? f = some c) (hwaiting : c.waiting = (op, .above) :: under)
    (hbody : op.body = .call mode target (some callee)) (hmode : mode ≠ .whole)
    (hrun : Run w trace w')
    (hasked : ∀ b ∈ (beats t f back.length trace).dropLast, b.point = .asked) :
    (∃ above p c', w'.tasks t = above ++ .pull f p :: back ∧ w'.chain? f = some c' ∧
      Calling c op under mode target callee items (requests (beats t f back.length trace))
        (answers (beats t f back.length trace)) c' p) ∧
    Told t f back trace (CallOutcome t back target callee) := by
  have hopen := Chain.open_calling items hmode hwaiting hbody
  have hanswering := answering_calls items P t f back hwaiting hbody hmode
  obtain ⟨⟨above, p, c', htasks', hchain', hlog⟩, _⟩ :=
    hrun.lastAsked hanswering hw htasks hchain hopen hasked
  exact ⟨⟨above, p, c', htasks', hchain', hlog.calling hmode hwaiting hbody hasked⟩,
    hrun.told hanswering hw htasks hchain hopen hasked⟩

/-- In a run of threads that come with calls from outside, each of them to a flow under its name, an
operator that is handed a list calls its flow with the items in order, one call after the other,
until one fails, and answers with that error or with what is made of the results. What it is told of
a call is what the chain of that flow gave when it was read with the item, whatever other threads
do meanwhile. -/
theorem items_called_in_order (hmade : ofDrafts fresh drafts scopes root = .ok start)
    (hnew : ∀ p ∈ drafts, p.untouched = true) (hcalls : ∀ a ∈ first :: calls, a.begins = true)
    (hwire : ∀ g inflows, .wire g inflows .check ∉ first :: calls)
    (hoffered : ∀ name f payload p, .call name f payload p ∈ first :: calls → start.Offers name f)
    (hreach : Reach (start.opened first calls) w)
    (htasks : w.tasks t = .pull f (.reply (.ok (.list items))) :: back)
    (hchain : w.chain? f = some c) (hwaiting : c.waiting = (op, .above) :: under)
    (hbody : op.body = .call mode target (some callee)) (hmode : mode ≠ .whole)
    (hrun : Run w trace w')
    (hasked : ∀ b ∈ (beats t f back.length trace).dropLast, b.point = .asked) :
    (∃ above p c', w'.tasks t = above ++ .pull f p :: back ∧ w'.chain? f = some c' ∧
      Calling c op under mode target callee items (requests (beats t f back.length trace))
        (answers (beats t f back.length trace)) c' p) ∧
    Told t f back trace (CallOutcome t back target callee) := by
  obtain ⟨_, hbefore⟩ := hreach.run
  exact (hbefore.callsKept (callsKept_of_drafts hmade hnew hcalls hwire hoffered)).item_calls htasks
    hchain hwaiting hbody hmode hrun hasked

/-- Two flows, the first of which keeps the items of a list that the second one finds false. -/
def siftDrafts : List FlowDraft :=
  [⟨some "a", none, [.make Blueprint.flowKind (.call .keep "b" none) ⟨[.flow "b"], []⟩], none,
      some (.make "call" .onCall .none)⟩,
    ⟨some "b", none, [.make "not" (.apply .negate) .none], none,
      some (.make "call" .onCall .none)⟩]

def sift : World :=
  (ofDrafts (fun _ => "") siftDrafts Scope.Store.empty.addRoot.1 0).toOption.getD empty

/-- One thread runs the flows, one calls the first of them with a list, one the second. -/
def siftOpened : World :=
  sift.opened (.runAll .begin) [.call "a" 0 (.list [.bool true, .bool false]) .latch,
    .call "b" 1 (.bool true) .latch]

/-- The list has come to the operator. -/
def siftHands : World :=
  (siftOpened.replay [] (List.replicate 120 0 ++ List.replicate 6 1)).2

/-- The second flow is called with both items, and in between by the other thread. -/
def siftRun : List Taken × World :=
  siftHands.replay [] (List.replicate 15 1 ++ List.replicate 6 2 ++ [1] ++ List.replicate 6 2 ++
    List.replicate 11 1)

/-- The calls that are about to begin where a thread hands a list to an operator: in which flow,
with how much below, in which mode, of which target and with which items. -/
def handed? (w : World) (t : ThreadId) :
    Option (FlowId × Nat × CallMode × String × FlowId × List Value) :=
  match w.tasks t with
  | .pull f (.reply (.ok (.list items))) :: back =>
      (w.chain? f).bind fun c =>
        match c.waiting with
        | (op, .above) :: _ =>
            match op.body with
            | .call mode target (some callee) => some (f, back.length, mode, target, callee, items)
            | _ => none
        | _ => none
  | _ => none

theorem of_handed (h : w.handed? t = some (f, n, mode, target, callee, items)) :
    ∃ back c op under, w.tasks t = .pull f (.reply (.ok (.list items))) :: back ∧
      back.length = n ∧ w.chain? f = some c ∧ c.waiting = (op, .above) :: under ∧
      op.body = .call mode target (some callee) := by
  unfold handed? at h
  split at h
  · next f items back htasks =>
    obtain ⟨c, hchain, h⟩ := Option.bind_eq_some_iff.mp h
    split at h
    · next op under hwaiting =>
      split at h
      · next hbody =>
        cases h
        exact ⟨back, c, op, under, htasks, rfl, hchain, hwaiting, hbody⟩
      · cases h
    · cases h
  · cases h

/-- Whether a step is told an outcome that an operator has asked for. -/
def isAsked (b : Beat) : Bool :=
  match b.point with
  | .asked => true
  | _ => false

theorem point_of_isAsked (h : isAsked b = true) : b.point = .asked := by
  unfold isAsked at h
  split at h
  · assumption
  · cases h

/-- The operator is told what its own two calls came to, and not what the call in between did. -/
theorem sift_items_called : ∃ back c op under items c' p,
    siftHands.chain? 0 = some c ∧
    Calling c op under .keep "b" 1 items (requests (beats 1 0 1 siftRun.1))
      (answers (beats 1 0 1 siftRun.1)) c' p ∧
    Told 1 0 back siftRun.1 (CallOutcome 1 back "b" 1) ∧ items.map Value.plain = ["true", "false"] ∧
    (answers (beats 1 0 1 siftRun.1)).map (fun out => out.toOption.map Value.plain) =
      [some "false", some "true"] := by
  have hmade : ofDrafts (fun _ => "") siftDrafts Scope.Store.empty.addRoot.1 0 = .ok sift :=
    made_of_isOk (by decide +kernel)
  have hoffers : (sift.flow? 0).map (fun cell => (cell.name, cell.callable)) = some ("a", true) ∧
      (sift.flow? 1).map (fun cell => (cell.name, cell.callable)) = some ("b", true) := by
    decide +kernel
  have hoffered (name : String) (f : FlowId) (payload : Value) (p : CallPoint)
      (hcall : Activity.call name f payload p ∈ [Activity.runAll .begin,
        .call "a" 0 (.list [.bool true, .bool false]) .latch, .call "b" 1 (.bool true) .latch]) :
      sift.Offers name f := by
    have hflow : name = "a" ∧ f = 0 ∨ name = "b" ∧ f = 1 := by
      obtain ⟨rfl, rfl, _⟩ | ⟨rfl, rfl, _⟩ : _ ∨ _ := by simpa using hcall
      · exact .inl ⟨rfl, rfl⟩
      · exact .inr ⟨rfl, rfl⟩
    obtain ⟨rfl, rfl⟩ | ⟨rfl, rfl⟩ := hflow
    · obtain ⟨cell, hcell, hsame⟩ := Option.map_eq_some_iff.mp hoffers.1
      exact ⟨cell, hcell, Prod.mk.inj hsame⟩
    · obtain ⟨cell, hcell, hsame⟩ := Option.map_eq_some_iff.mp hoffers.2
      exact ⟨cell, hcell, Prod.mk.inj hsame⟩
  have hhanded : (siftHands.handed? 1).map (fun (f, n, mode, target, callee, _) =>
      (f, n, mode, target, callee)) = some (0, 1, .keep, "b", 1) := by decide +kernel
  have hitems : (siftHands.handed? 1).map (fun (_, _, _, _, _, items) => items.map Value.plain) =
      some ["true", "false"] := by decide +kernel
  obtain ⟨⟨f, n, mode, target, callee, items⟩, hhanded, hsame⟩ := Option.map_eq_some_iff.mp hhanded
  cases hsame
  rw [hhanded] at hitems
  obtain ⟨back, c, op, under, htasks, hlength, hchain, hwaiting, hbody⟩ := of_handed hhanded
  have hall : (beats 1 0 1 siftRun.1).dropLast.all isAsked = true := by decide +kernel
  have hasked (b : Beat) (hb : b ∈ (beats 1 0 back.length siftRun.1).dropLast) :
      b.point = .asked := by
    rw [hlength] at hb
    exact point_of_isAsked (List.all_eq_true.mp hall b hb)
  obtain ⟨⟨_, p, c', _, _, hstands⟩, htold⟩ := items_called_in_order hmade (by decide)
    (by simp [Activity.begins]) (by simp) hoffered (run_replay .refl _).reach htasks hchain
    hwaiting hbody (by decide) (run_replay .refl _ : Run siftHands siftRun.1 siftRun.2) hasked
  rw [hlength] at hstands
  exact ⟨back, c, op, under, items, c', p, hchain, hstands, htold, Option.some.inj hitems,
    by decide +kernel⟩

end PullFlow.Engine.World
