import PullFlow.Proofs.Exchanges

/-!
Calls of a flow with the items of a list. `map` and `filter` call the flow with one item after the
other. So where they stand in the list is told by the calls that they asked for and by what these
came to: the calls are those with the first items, in order, and all but the last one succeeded. A
call that fails is the last one; if none does, all items are called with, and the answer is made of
the results.
-/

namespace PullFlow

/-- What is made of the results of calls with items, one by one: the results themselves, or the
items whose results count as true. -/
def CallMode.selected (mode : CallMode) (items results : List Value) : List Value :=
  match mode with
  | keep => ((items.zip results).filter (·.2.truthy)).map (·.1)
  | _ => results

/-- What an operator waits for after a call with an item; `done` are the items before it, with their
results. -/
def CallMode.waits (mode : CallMode) (done results : List Value) (item : Value)
    (rest : List Value) : OperatorWait :=
  match mode with
  | keep => .keeping (keep.selected done results).reverse item rest
  | mode => .mapping (mode.selected done results).reverse rest

theorem CallMode.selected_concat {mode : CallMode} {done results : List Value}
    (h : results.length = done.length) (item v : Value) :
    mode.selected (done ++ [item]) (results ++ [v]) =
      mode.selected done results ++ match mode with
        | .keep => if v.truthy then [item] else []
        | _ => [v] := by
  cases mode with
  | keep =>
      simp only [selected, List.zip_append h.symm, List.filter_append, List.map_append]
      cases hv : v.truthy <;> simp [hv]
  | _ => rfl

namespace OperatorBody

variable {mode : CallMode} {target : String} {callee : FlowId} {done results : List Value}

theorem nextCall_cons (item : Value) (rest : List Value) :
    nextCall mode target callee (mode.selected done results).reverse (item :: rest) =
      .ask (.call target callee item) (mode.waits done results item rest) := by
  cases mode <;> rfl

theorem startCalls_list (hmode : mode ≠ .whole) (items : List Value) :
    startCalls mode target (some callee) (.list items) = nextCall mode target callee [] items := by
  cases mode <;> first | rfl | exact absurd rfl hmode

/-- A call that succeeds is followed by one with the next item. -/
theorem resume_waits_ok (h : results.length = done.length) (now : Nat) (item v : Value)
    (rest : List Value) :
    (call mode target (some callee)).resume now (mode.waits done results item rest) (.ok v) =
      (call mode target (some callee), nextCall mode target callee
        (mode.selected (done ++ [item]) (results ++ [v])).reverse rest) := by
  rw [CallMode.selected_concat h, List.reverse_append]
  cases mode with
  | keep => cases hv : v.truthy <;> simp [resume, CallMode.waits, hv]
  | _ => rfl

/-- A call that fails is the last one. -/
theorem resume_waits_error (now : Nat) (item : Value) (rest : List Value) (e : Error) :
    (call mode target (some callee)).resume now (mode.waits done results item rest) (.error e) =
      (call mode target (some callee), .reply (.error e)) := by
  cases mode <;> rfl

end OperatorBody

namespace Chain

/-- Where a read stands that has handed a list to an operator which calls a flow with the items, by
what has been asked for and told since. Below the operator `under` wait. -/
inductive Calling (c : Chain) (op : Operator) (under : List (Operator × OperatorWait))
    (mode : CallMode) (target : String) (callee : FlowId) (items : List Value) :
    List Request → List Outcome → Chain → PullPoint → Prop where
  | handed : Calling c op under mode target callee items [] [] c (.reply (.ok (.list items)))
  /-- The operator waits for the call with an item; those with the items before it succeeded. -/
  | asking {done rest results : List Value} {item : Value} : items = done ++ item :: rest →
      results.length = done.length →
      Calling c op under mode target callee items ((done ++ [item]).map (.call target callee))
        (results.map .ok) { c with waiting := (op, mode.waits done results item rest) :: under }
        .asked
  /-- The call with an item failed, and the operator has answered with the error. -/
  | failed {done rest results : List Value} {item : Value} {e : Error} :
      items = done ++ item :: rest → results.length = done.length →
      Calling c op under mode target callee items ((done ++ [item]).map (.call target callee))
        (results.map .ok ++ [.error e]) { c with idle := op :: c.idle, waiting := under }
        (.reply (op.passOn (.error e)))
  /-- All calls succeeded, and the operator has answered with what is made of the results. -/
  | answered {results : List Value} : results.length = items.length →
      Calling c op under mode target callee items (items.map (.call target callee))
        (results.map .ok) { c with idle := op :: c.idle, waiting := under }
        (.reply (.ok (.list (mode.selected items results))))

variable {c c' : Chain} {op : Operator} {under : List (Operator × OperatorWait)} {mode : CallMode}
  {target : String} {callee : FlowId} {items done results left : List Value} {log : List Beat}
  {p : PullPoint} {b : Beat}

/-- The operator goes on to the items that are left: it asks for the next call, or it answers. -/
theorem calling_next (done results : List Value) (hitems : items = done ++ left)
    (hlength : results.length = done.length)
    (hrequests : requests log = done.map (.call target callee))
    (hanswers : answers (b :: log) = results.map .ok)
    (hresult : b.result = { c with waiting := under }.afterOperator op (op.body,
      OperatorBody.nextCall mode target callee (mode.selected done results).reverse left))
    (hnext : b.move.next? = some p) :
    Calling c op under mode target callee items (requests (b :: log)) (answers (b :: log)) b.after
      p := by
  have hafter : b.after = (afterOperator _ op _).1 := congrArg Prod.fst hresult
  have hmove : b.move = (afterOperator _ op _).2 := congrArg Prod.snd hresult
  rw [hanswers, hafter]
  cases left with
  | nil =>
      rw [List.append_nil] at hitems
      subst hitems
      simp only [OperatorBody.nextCall, List.reverse_reverse, afterOperator] at hmove ⊢
      rw [hmove] at hnext
      cases hnext
      rw [requests_cons_of_go hmove, hrequests]
      exact .answered hlength
  | cons item rest =>
      rw [OperatorBody.nextCall_cons] at hmove ⊢
      simp only [afterOperator] at hmove ⊢
      rw [hmove] at hnext
      cases hnext
      rw [requests_cons_of_ask hmove, hrequests, ← List.map_singleton, ← List.map_append]
      exact .asking hitems hlength

/-- An operator that is handed a list asks for the call with the first item. -/
theorem calling_first (hmode : mode ≠ .whole) (hwaiting : c.waiting = (op, .above) :: under)
    (hbody : op.body = .call mode target (some callee)) (hbefore : b.before = c)
    (hpoint : b.point = .reply (.ok (.list items))) (hnext : b.move.next? = some p) :
    Calling c op under mode target callee items (requests [b]) (answers [b]) b.after p := by
  have hanswers : answers [b] = [] := by simp [answers, Beat.told?, hpoint]
  refine calling_next [] [] rfl rfl rfl hanswers ?_ hnext
  have hresult : b.result = c.deliver b.now (.ok (.list items)) := by
    rw [Beat.result, hbefore, hpoint]
    rfl
  rw [hresult, Beat.result_deliver hwaiting, hbody]
  simp only [OperatorBody.resume, OperatorBody.receive, OperatorBody.startCalls_list hmode]
  cases mode <;> rfl

/-- An operator is told what a call came to. -/
theorem Calling.told (h : Calling c op under mode target callee items (requests log) (answers log)
      b.before b.point) (hbody : op.body = .call mode target (some callee))
    (hpoint : b.point = .asked) (hnext : b.move.next? = some p) :
    Calling c op under mode target callee items (requests (b :: log)) (answers (b :: log)) b.after
      p := by
  have hresult : b.result = b.before.deliver b.now b.answer := by
    rw [Beat.result, hpoint]
    rfl
  rw [hpoint] at h
  generalize hbase : b.before = base at h hresult
  generalize hreqs : requests log = reqs at h
  generalize houts : answers log = outs at h
  cases h with
  | @asking done rest results item hitems hlength =>
    rw [Beat.result_deliver rfl, hbody] at hresult
    cases hanswer : b.answer with
    | ok v =>
        rw [hanswer, OperatorBody.resume_waits_ok hlength] at hresult
        refine calling_next (done ++ [item]) (results ++ [v]) (by simp [hitems])
          (by simp [hlength]) hreqs ?_ (hbody ▸ hresult) hnext
        rw [answers_cons_of_asked hpoint, houts, hanswer, List.map_append]
        rfl
    | error e =>
        rw [hanswer, OperatorBody.resume_waits_error] at hresult
        have hafter : b.after = _ := congrArg Prod.fst hresult
        have hmove : b.move = _ := congrArg Prod.snd hresult
        rw [hmove] at hnext
        cases hnext
        rw [requests_cons_of_go hmove, hreqs, answers_cons_of_asked hpoint, houts, hanswer, hafter,
          ← hbody]
        exact .failed hitems hlength

/-- As long as an operator that has been handed a list asks on, it calls the flow with the items in
order, one call after the other, and the first call that fails is the last one. -/
theorem Continues.calling (h : Continues c (.reply (.ok (.list items))) log c' p)
    (hmode : mode ≠ .whole) (hwaiting : c.waiting = (op, .above) :: under)
    (hbody : op.body = .call mode target (some callee))
    (hasked : ∀ b ∈ log.dropLast, b.point = .asked) :
    Calling c op under mode target callee items (requests log) (answers log) c' p := by
  induction h with
  | here => exact .handed
  | @goes log b p hbefore hnext ih =>
      cases log with
      | nil =>
          obtain ⟨hbase, hpoint⟩ := continues_nil hbefore
          exact calling_first hmode hwaiting hbody hbase hpoint hnext
      | cons latest log =>
          rw [List.dropLast_cons_of_ne_nil (List.cons_ne_nil _ _)] at hasked
          obtain ⟨hpoint, hearlier⟩ := List.forall_mem_cons.mp hasked
          exact (ih hearlier).told hbody hpoint hnext

/-- All that is asked for are calls with items. -/
theorem Calling.asks_calls {reqs : List Request} {outs : List Outcome} {r : Request}
    (h : Calling c op under mode target callee items reqs outs c' p) (hr : r ∈ reqs) :
    ∃ item, r = .call target callee item := by
  cases h with
  | handed => cases hr
  | asking | failed | answered =>
      obtain ⟨item, _, rfl⟩ := List.mem_map.mp hr
      exact ⟨item, rfl⟩

theorem Calling.waiting_ne_nil {reqs : List Request} {outs : List Outcome}
    (h : Calling c op under mode target callee items reqs outs c' p) (hp : p = .asked) :
    c'.waiting ≠ [] := by
  cases h with
  | asking => exact List.cons_ne_nil _ _
  | _ => cases hp

/-- An operator that is told what its calls came to goes on with the read. -/
theorem open_calling (items : List Value) (hmode : mode ≠ .whole)
    (hwaiting : c.waiting = (op, .above) :: under)
    (hbody : op.body = .call mode target (some callee)) :
    Open c (.reply (.ok (.list items))) fun log => ∀ b ∈ log.dropLast, b.point = .asked := by
  refine open_of_points (S := (· = .asked)) (fun b out hbefore hpoint hdone => ?_)
    fun b log out hlog hcontinues hasked hpoint => ?_
  · obtain ⟨_, hnone, _⟩ := Beat.reply_of_done (by rw [hpoint]; exact nofun) hdone
    rw [hbefore, hwaiting] at hnone
    cases hnone
  · have hmove : b.move = (b.before.deliver b.now b.answer).2 := by
      rw [Beat.move, Beat.result, hpoint]
      rfl
    rw [hmove]
    exact deliver_ne_done
      ((hcontinues.calling hmode hwaiting hbody hasked).waiting_ne_nil hpoint) _ _ _

/-- What the operator is told of, it has asked for in the step before. -/
theorem Continues.calls_before {out out' : Outcome}
    (h : Continues c (.reply out) log b.before b.point)
    (hasked : ∀ x ∈ (b :: log).dropLast, x.point = .asked) (htold : b.told? = some out') :
    ∃ a earlier r, log = a :: earlier ∧ a.request? = some r := by
  cases log with
  | nil =>
      obtain ⟨_, hpoint⟩ := continues_nil h
      rw [Beat.told?, hpoint] at htold
      cases htold
  | cons a earlier =>
      rw [List.dropLast_cons_of_ne_nil (List.cons_ne_nil _ _)] at hasked
      obtain ⟨hpoint, hasked⟩ := List.forall_mem_cons.mp hasked
      obtain ⟨_, hbefore, hnext⟩ := continues_cons h
      rw [hpoint] at hnext
      have hrequest : ∃ r, a.request? = some r := by
        cases earlier with
        | nil =>
            obtain ⟨_, hfirst⟩ := continues_nil hbefore
            exact request_of_deliver (c := a.before) (by rw [Beat.result, hfirst]; rfl) hnext
        | cons latest earlier =>
            have hlater := hasked a (by simp [List.dropLast_cons_of_ne_nil])
            exact request_of_deliver (c := a.before) (by rw [Beat.result, hlater]; rfl) hnext
      obtain ⟨r, hr⟩ := hrequest
      exact ⟨a, earlier, r, rfl, hr⟩

end Chain
end PullFlow
