import PullFlow.Proofs.Exchanges
import PullFlow.Proofs.Fields

/-!
What a source makes of the payloads of the flows that feed it. It asks its inflows one after the
other, in order, and an inflow that fails is the last one that is asked. The value has the payload
of every inflow in it, but where payloads are kept by the names of their producers, and one producer
feeds the flow more than once, the last payload takes the place of those before.
-/

namespace PullFlow

/-- A value that is another one, or has it among its items or fields. -/
inductive Value.Has : Value → Value → Prop where
  | self (v : Value) : Has v v
  | item {items : List Value} {v : Value} : v ∈ items → Has (.list items) v
  | field (key : String) {fields : List (String × Value)} {v : Value} :
      Fields.get? key fields = some v → Has (.object fields) v

namespace SourceBody

/-- What a source makes of the payloads of its inflows, in their order. -/
def fed (named : Bool) (inflows : List Outflow) (payloads : List Value) : Value :=
  match payloads with
  | [] => .null
  | [v] => v
  | payloads => gathered named ((inflows.map (·.producer)).zip payloads)

/-- What a source waits for that has asked an inflow; `done` are those before it, with their
payloads. -/
def waitsFor (inflows done : List Outflow) (payloads : List Value) (asked : Outflow)
    (rest : List Outflow) : SourceWait :=
  match inflows with
  | [_] => .answer
  | _ => .inflow ((done.map (·.producer)).zip payloads).reverse asked rest

/-- What a source does when it has asked the inflows in `done`. -/
def nextInflow (named : Bool) (inflows done : List Outflow) (payloads : List Value) :
    List Outflow → SourceMove
  | [] => .reply (.ok (fed named inflows payloads))
  | asked :: rest => .ask (.payload asked) (waitsFor inflows done payloads asked rest)

variable {named : Bool} {inflows done rest before after : List Outflow} {asked o : Outflow}
  {payloads : List Value} {v : Value}

theorem waitsFor_several (h : inflows.length ≠ 1) : waitsFor inflows done payloads asked rest =
    .inflow ((done.map (·.producer)).zip payloads).reverse asked rest := by
  unfold waitsFor
  split
  · exact absurd rfl h
  · rfl

theorem fed_several (h : 2 ≤ payloads.length) : fed named inflows payloads =
    gathered named ((inflows.map (·.producer)).zip payloads) := by
  match payloads with
  | _ :: _ :: _ => rfl

theorem begin_inflow (named : Bool) (inflows : List Outflow) :
    (inflow named inflows).begin =
      (inflow named inflows, nextInflow named inflows [] [] inflows) := by
  match inflows with
  | [] | [_] | _ :: _ :: _ => rfl

/-- A payload is followed by the next inflow. -/
theorem resume_inflow_ok (hinflows : inflows = done ++ asked :: rest)
    (hlength : payloads.length = done.length) (v : Value) :
    (inflow named inflows).resume (waitsFor inflows done payloads asked rest) (.ok v) =
      (inflow named inflows,
        nextInflow named inflows (done ++ [asked]) (payloads ++ [v]) rest) := by
  have hcount : inflows.length = done.length + (rest.length + 1) := by
    rw [hinflows, List.length_append, List.length_cons]
  have hkeys : (done.map (·.producer)).length = payloads.length := by
    rw [List.length_map, hlength]
  -- The pair that is added in front of those before is the last one of them all.
  have hpairs : (asked.producer, v) :: ((done.map (·.producer)).zip payloads).reverse =
      (((done ++ [asked]).map (·.producer)).zip (payloads ++ [v])).reverse := by
    rw [List.map_append, List.zip_append hkeys, List.reverse_append]
    rfl
  by_cases hone : inflows.length = 1
  · obtain rfl : done = [] := List.eq_nil_of_length_eq_zero (by omega)
    obtain rfl : rest = [] := List.eq_nil_of_length_eq_zero (by omega)
    obtain rfl : payloads = [] := List.eq_nil_of_length_eq_zero hlength
    rw [hinflows]
    rfl
  · rw [waitsFor_several hone]
    simp only [resume, hpairs]
    cases rest with
    | nil =>
        have htwo : 2 ≤ (payloads ++ [v]).length := by
          rw [List.length_append, List.length_singleton]
          rw [List.length_nil] at hcount
          omega
        rw [nextInflow, fed_several htwo, List.reverse_reverse, hinflows]
    | cons next rest => rw [nextInflow, waitsFor_several hone]

/-- An inflow that fails is the last one that is asked. -/
theorem resume_inflow_error (e : Error) :
    (inflow named inflows).resume (waitsFor inflows done payloads asked rest) (.error e) =
      (inflow named inflows, .reply (.error e)) := by
  unfold waitsFor
  split <;> rfl

/-- The payload of an inflow is in the value unless payloads are kept by producers and its own
producer has a later one. -/
theorem fed_has {pre post : List Value} (hpre : pre.length = before.length)
    (hpost : post.length = after.length)
    (hlast : named = false ∨ o.producer ∉ after.map (·.producer)) :
    (fed named (before ++ o :: after) (pre ++ v :: post)).Has v := by
  by_cases htwo : 2 ≤ (pre ++ v :: post).length
  · rw [fed_several htwo, List.map_append, List.zip_append (by rw [List.length_map, hpre]),
      List.map_cons, List.zip_cons_cons]
    cases named with
    | true =>
        obtain hfalse | hlast := hlast
        · cases hfalse
        · refine .field o.producer (Fields.get?_ofList_of_last ?_)
          rw [Fields.keys, List.map_fst_zip (by rw [List.length_map, hpost])]
          exact hlast
    | false =>
        refine .item ?_
        rw [List.map_append, List.map_cons]
        exact List.mem_append_right _ List.mem_cons_self
  · rw [List.length_append, List.length_cons] at htwo
    obtain rfl : pre = [] := List.eq_nil_of_length_eq_zero (by omega)
    obtain rfl : post = [] := List.eq_nil_of_length_eq_zero (by omega)
    exact .self v

theorem fed_has_getElem {i : Nat} {x : Value} (hlength : payloads.length = inflows.length)
    (ho : inflows[i]? = some o) (hx : payloads[i]? = some x)
    (hlast : named = false ∨ o.producer ∉ (inflows.drop (i + 1)).map (·.producer)) :
    (fed named inflows payloads).Has x := by
  obtain ⟨hi, rfl⟩ := List.getElem?_eq_some_iff.mp ho
  obtain ⟨hi', rfl⟩ := List.getElem?_eq_some_iff.mp hx
  have hpre : (payloads.take i).length = (inflows.take i).length := by simp [hlength]
  have hpost : (payloads.drop (i + 1)).length = (inflows.drop (i + 1)).length := by simp [hlength]
  have hhas : (fed named (inflows.take i ++ inflows[i] :: inflows.drop (i + 1))
      (payloads.take i ++ payloads[i] :: payloads.drop (i + 1))).Has payloads[i] :=
    fed_has hpre hpost hlast
  simpa only [List.getElem_cons_drop, List.take_append_drop] using hhas

end SourceBody

namespace Chain

/-- Where a read stands that is about to ask a source for a value, or has asked it, by what has been
asked for and told since. -/
inductive Gathering (source : Source) (named : Bool) (inflows : List Outflow) :
    List Request → List Outcome → PullPoint → Prop where
  | entered : Gathering source named inflows [] [] .enter
  /-- The source waits for the payload of an inflow; those before it have given theirs. -/
  | asking {done rest : List Outflow} {asked : Outflow} {payloads : List Value} :
      inflows = done ++ asked :: rest → payloads.length = done.length →
      Gathering source named inflows ((done ++ [asked]).map .payload) (payloads.map .ok)
        (.source (SourceBody.waitsFor inflows done payloads asked rest))
  /-- An inflow failed, and the source has answered with the error. -/
  | failed {done rest : List Outflow} {asked : Outflow} {payloads : List Value} {e : Error} :
      inflows = done ++ asked :: rest → payloads.length = done.length →
      Gathering source named inflows ((done ++ [asked]).map .payload)
        (payloads.map .ok ++ [.error e]) (.reply (source.passOn (.error e)))
  /-- All inflows have given their payloads, and the source has answered. -/
  | answered {payloads : List Value} : payloads.length = inflows.length →
      Gathering source named inflows (inflows.map .payload) (payloads.map .ok)
        (.reply (.ok (SourceBody.fed named inflows payloads)))

/-- What a source has answered that was fed: each inflow was asked once, in order, and the value has
every payload, but where payloads are kept by producers and a later inflow has the same one. -/
def Collected (named : Bool) (inflows : List Outflow) (reqs : List Request) (outs : List Outcome)
    (v : Value) : Prop :=
  reqs = inflows.map .payload ∧ ∃ payloads : List Value, outs = payloads.map .ok ∧
    payloads.length = inflows.length ∧ v = SourceBody.fed named inflows payloads ∧
    ∀ (i : Nat) (o : Outflow) (x : Value), inflows[i]? = some o → payloads[i]? = some x →
      (named = false ∨ o.producer ∉ (inflows.drop (i + 1)).map (·.producer)) → v.Has x

variable {c c' : Chain} {named : Bool} {inflows done left : List Outflow} {payloads : List Value}
  {log : List Beat} {p : PullPoint} {b : Beat} {v : Value}

/-- The source goes on to the inflows that are left: it asks the next one, or it answers. -/
theorem gathering_next (done : List Outflow) (payloads : List Value)
    (hinflows : inflows = done ++ left) (hlength : payloads.length = done.length)
    (hrequests : requests log = done.map .payload)
    (hanswers : answers (b :: log) = payloads.map .ok)
    (hresult : b.result = c.afterSource (c.source.body,
      SourceBody.nextInflow named inflows done payloads left))
    (hnext : b.move.next? = some p) :
    b.after = c ∧
      Gathering c.source named inflows (requests (b :: log)) (answers (b :: log)) p := by
  have hafter : b.after = (c.afterSource _).1 := congrArg Prod.fst hresult
  have hmove : b.move = (c.afterSource _).2 := congrArg Prod.snd hresult
  rw [hanswers]
  cases left with
  | nil =>
      rw [List.append_nil] at hinflows
      subst hinflows
      rw [hmove] at hnext
      cases hnext
      rw [requests_cons_of_go hmove, hrequests]
      exact ⟨hafter, .answered hlength⟩
  | cons asked rest =>
      rw [hmove] at hnext
      cases hnext
      rw [requests_cons_of_ask hmove, hrequests, ← List.map_singleton, ← List.map_append]
      exact ⟨hafter, .asking hinflows hlength⟩

/-- A source that is fed asks its first inflow. -/
theorem gathering_first (hidle : c.idle = []) (hbody : c.source.body = .inflow named inflows)
    (hbefore : b.before = c) (hpoint : b.point = .enter) (hnext : b.move.next? = some p) :
    b.after = c ∧ Gathering c.source named inflows (requests [b]) (answers [b]) p := by
  have hanswers : answers [b] = [] := by simp [answers, Beat.told?, hpoint]
  refine gathering_next [] [] rfl rfl rfl hanswers ?_ hnext
  rw [Beat.result, hbefore, hpoint]
  simp only [step, enter, hidle, hbody, SourceBody.begin_inflow]

/-- A source is told the payload of an inflow. -/
theorem Gathering.told {w : SourceWait} (h : Gathering c.source named inflows (requests log)
      (answers log) b.point) (hbody : c.source.body = .inflow named inflows)
    (hbefore : b.before = c) (hpoint : b.point = .source w) (hnext : b.move.next? = some p) :
    b.after = c ∧
      Gathering c.source named inflows (requests (b :: log)) (answers (b :: log)) p := by
  have hresult : b.result = c.afterSource (c.source.body.resume w b.answer) := by
    rw [Beat.result, hbefore, hpoint]
    rfl
  rw [hpoint] at h
  generalize hreqs : requests log = reqs at h
  generalize houts : answers log = outs at h
  cases h with
  | @asking done rest asked payloads hinflows hlength =>
    rw [hbody] at hresult
    cases hanswer : b.answer with
    | ok v =>
        rw [hanswer, SourceBody.resume_inflow_ok hinflows hlength] at hresult
        refine gathering_next (done ++ [asked]) (payloads ++ [v])
          (by simp [hinflows]) (by simp [hlength]) hreqs ?_ (hbody ▸ hresult) hnext
        rw [answers_cons_of_source hpoint, houts, hanswer, List.map_append]
        rfl
    | error e =>
        rw [hanswer, SourceBody.resume_inflow_error, ← hbody] at hresult
        have hafter : b.after = _ := congrArg Prod.fst hresult
        have hmove : b.move = _ := congrArg Prod.snd hresult
        rw [hmove] at hnext
        cases hnext
        rw [requests_cons_of_go hmove, hreqs, answers_cons_of_source hpoint, houts, hanswer]
        exact ⟨hafter, .failed hinflows hlength⟩

/-- As long as a source that is fed asks on, it asks each inflow once, in order, and the first one
that fails is the last one. -/
theorem Continues.gathering (h : Continues c .enter log c' p) (hidle : c.idle = [])
    (hbody : c.source.body = .inflow named inflows)
    (hasked : ∀ b ∈ log.dropLast, ∃ w, b.point = .source w) :
    c' = c ∧ Gathering c.source named inflows (requests log) (answers log) p := by
  induction h with
  | here => exact ⟨rfl, .entered⟩
  | @goes log b p hbefore hnext ih =>
      cases log with
      | nil =>
          obtain ⟨hbase, hpoint⟩ := continues_nil hbefore
          exact gathering_first hidle hbody hbase hpoint hnext
      | cons latest log =>
          rw [List.dropLast_cons_of_ne_nil (List.cons_ne_nil _ _)] at hasked
          obtain ⟨⟨w, hpoint⟩, hearlier⟩ := List.forall_mem_cons.mp hasked
          obtain ⟨hbase, hstands⟩ := ih hearlier
          exact hstands.told hbody hbase hpoint hnext

/-- All that is asked for are payloads of inflows. -/
theorem Gathering.asks_inflows {source : Source} {reqs : List Request} {outs : List Outcome}
    {r : Request} (h : Gathering source named inflows reqs outs p) (hr : r ∈ reqs) :
    ∃ o ∈ inflows, r = .payload o := by
  cases h with
  | entered => cases hr
  | @asking done rest asked _ hinflows | @failed done rest asked _ _ hinflows =>
      obtain ⟨o, ho, rfl⟩ := List.mem_map.mp hr
      refine ⟨o, ?_, rfl⟩
      rw [hinflows, List.append_cons]
      exact List.mem_append_left _ ho
  | answered =>
      obtain ⟨o, ho, rfl⟩ := List.mem_map.mp hr
      exact ⟨o, ho, rfl⟩

theorem Gathering.collected {source : Source} {reqs : List Request} {outs : List Outcome}
    (h : Gathering source named inflows reqs outs p) (hp : p = .reply (.ok v)) :
    Collected named inflows reqs outs v := by
  cases h with
  | answered hlength =>
      cases hp
      exact ⟨rfl, _, rfl, hlength, rfl, fun i o x ho hx hlast =>
        SourceBody.fed_has_getElem hlength ho hx hlast⟩
  | _ => cases hp

/-- What the source is told of, it has asked for in the step before. -/
theorem Continues.inflows_before {out : Outcome} (h : Continues c .enter log b.before b.point)
    (hidle : c.idle = []) (hasked : ∀ x ∈ (b :: log).dropLast, ∃ w, x.point = .source w)
    (htold : b.told? = some out) : ∃ a earlier r, log = a :: earlier ∧ a.request? = some r := by
  cases log with
  | nil =>
      obtain ⟨_, hpoint⟩ := continues_nil h
      rw [Beat.told?, hpoint] at htold
      cases htold
  | cons a earlier =>
      rw [List.dropLast_cons_of_ne_nil (List.cons_ne_nil _ _)] at hasked
      obtain ⟨⟨w, hpoint⟩, hasked⟩ := List.forall_mem_cons.mp hasked
      obtain ⟨_, hbefore, hnext⟩ := continues_cons h
      rw [hpoint] at hnext
      have hresult : ∃ m, a.result = a.before.afterSource m := by
        cases earlier with
        | nil =>
            obtain ⟨hfirst, henter⟩ := continues_nil hbefore
            refine ⟨c.source.body.begin, ?_⟩
            rw [Beat.result, hfirst, henter]
            simp only [step, Chain.enter, hidle]
        | cons latest earlier =>
            obtain ⟨w', hlater⟩ := hasked a (by simp [List.dropLast_cons_of_ne_nil])
            exact ⟨a.before.source.body.resume w' a.answer, by rw [Beat.result, hlater]; rfl⟩
      obtain ⟨m, hm⟩ := hresult
      obtain ⟨r, hr⟩ := request_of_source hm hnext
      exact ⟨a, earlier, r, rfl, hr⟩

/-- A source that is told the payloads of its inflows goes on with the read. -/
theorem open_gathering (c : Chain) :
    Open c .enter fun log => ∀ b ∈ log.dropLast, ∃ w, b.point = .source w := by
  refine open_of_points (S := fun p => ∃ w, p = .source w)
    (fun b out _ hpoint hdone => ?_) fun b _ out _ _ _ hpoint hdone => ?_
  · obtain ⟨hreply, _⟩ := Beat.reply_of_done (by rw [hpoint]; exact nofun) hdone
    rw [hpoint] at hreply
    cases hreply
  · obtain ⟨w, hpoint⟩ := hpoint
    obtain ⟨hreply, _⟩ := Beat.reply_of_done (by rw [hpoint]; exact nofun) hdone
    rw [hpoint] at hreply
    cases hreply

end Chain
end PullFlow
