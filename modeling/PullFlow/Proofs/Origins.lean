import PullFlow.Proofs.Reads

/-!
Where the error of an abstract component comes from, and under which name it reaches the reader.
Every node on its way puts its own kind into it, so it names the node nearest to the reader: the
component that raised it only if that is of the same kind.
-/

namespace PullFlow

/-- Whether an operator puts a value in place of an error. -/
def OperatorBody.recovers : OperatorBody → Bool
  | .attempt _ => true
  | _ => false

/-- Any other operator passes on the error that comes from above. -/
theorem OperatorBody.resume_error {b : OperatorBody} {w : OperatorWait} (hw : w.upward = true)
    (hb : b.recovers = false) (now : Nat) (e : Error) :
    b.resume now w (.error e) = (b, .reply (.error e)) := by
  cases w with
  | above => cases b <;> first | rfl | cases hb
  | recorded kind => rfl
  | _ => cases hw

/-- What an operator that waits for the node above replies to an error is the error or a value. -/
theorem OperatorBody.reply_of_error {b : OperatorBody} {w : OperatorWait} {now : Nat} {e e' : Error}
    (hw : w.upward = true) (h : (b.resume now w (.error e)).2 = .reply (.error e')) : e' = e := by
  cases w with
  | above => cases b <;> cases h <;> rfl
  | recorded kind =>
      cases h
      rfl
  | _ => cases hw

namespace Chain

/-- The kind of the node nearest to the reader. -/
def lastKind (c : Chain) : String := c.kinds.getLast (List.cons_ne_nil _ _)

/-! ### The kinds of a chain stay -/

variable {c c₀ : Chain} {op : Operator} {w : OperatorWait} {idle : List Operator}
  {waiting : List (Operator × OperatorWait)}

theorem lastKind_eq (h : c.kinds = c₀.kinds) : c.lastKind = c₀.lastKind := by
  simp only [lastKind, h]

theorem kinds_eq (c : Chain) :
    c.kinds = c.source.kind :: (c.idle.reverse.map (·.kind) ++ c.waiting.map (·.1.kind)) := by
  rw [kinds, operators, List.map_append, List.map_map]
  rfl

theorem kinds_afterSource (m : SourceBody × SourceMove) : (c.afterSource m).1.kinds = c.kinds := by
  obtain ⟨body, _ | _⟩ := m <;> rfl

theorem kinds_afterOperator (m : OperatorBody × OperatorMove) :
    (c.afterOperator op m).1.kinds =
      c.source.kind ::
        (c.idle.reverse.map (·.kind) ++ op.kind :: c.waiting.map (·.1.kind)) := by
  obtain ⟨body, _ | _ | _⟩ := m <;> rw [kinds_eq] <;> simp [afterOperator]

theorem kinds_deliver (now : Nat) (out : Outcome) : (c.deliver now out).1.kinds = c.kinds := by
  unfold deliver
  split
  · rfl
  · next hwaiting => rw [kinds_afterOperator, kinds_eq c, hwaiting, List.map_cons]

theorem kinds_step (now : Nat) (p : PullPoint) (answer : Outcome) :
    (c.step now p answer).1.kinds = c.kinds := by
  cases p with
  | enter =>
      rw [step, enter]
      split
      · exact kinds_afterSource _
      · next hidle =>
        rw [kinds_afterOperator, kinds_eq c, hidle]
        simp
  | source w => exact kinds_afterSource _
  | asked => exact kinds_deliver now answer
  | reply out => exact kinds_deliver now out

theorem Reading.kinds {log : List Beat} {p : PullPoint} (h : Reading c₀ log c p) :
    c.kinds = c₀.kinds := by
  induction h with
  | enters _ => rfl
  | goes _ _ ih => exact (kinds_step ..).trans ih

/-- Where no operator waits, the next node up is the one nearest to the reader. -/
theorem nextKind_eq_lastKind (hwaiting : c.waiting = []) : c.nextKind = c.lastKind := by
  obtain ⟨source, idle, waiting, linked⟩ := c
  cases hwaiting
  cases idle with
  | nil => rfl
  | cons op idle =>
      simp only [lastKind, kinds_eq, nextKind, List.map_nil, List.append_nil, List.reverse_cons,
        List.map_append, List.map_singleton, ← List.cons_append]
      exact (List.getLast_concat (a := op.kind)).symm

/-! ### An error on its way to the reader -/

/-- In a step of a read a component of a kind is asked for what it does not implement: a source or
an operator for its value, or the sink of a tee to take one. -/
inductive Beat.Lacks (b : Beat) : String → Prop where
  | source : b.point = .enter → b.before.idle = [] → b.before.source.body = .abstract →
      Lacks b b.before.source.kind
  | operator {op : Operator} {idle : List Operator} : b.point = .enter →
      b.before.idle = op :: idle → op.body = .abstract → Lacks b op.kind
  | tee {op : Operator} {sink : Sink} {v : Value} {waiting : List (Operator × OperatorWait)} :
      b.point = .reply (.ok v) → b.before.waiting = (op, .above) :: waiting → op.body = .tee sink →
      sink.body = .abstract → Lacks b sink.kind

/-- `Fails log kind`: the read with this log, the latest step first, is failing because a component
of the kind does not implement what it was asked for. The steps since then passed the failure on. -/
inductive Fails : List Beat → String → Prop where
  | raised {b : Beat} {log : List Beat} {kind : String} : b.Lacks kind → Fails (b :: log) kind
  | passed {b : Beat} {log : List Beat} {kind : String} {e e' : Error} : Fails log kind →
      b.point = .reply (.error e) → b.move = .go (.reply (.error e')) → Fails (b :: log) kind

/-- The outcome that a component without a value leaves, as the node nearest to the reader so far
passes it on. -/
def unimplementedAt (c : Chain) : Outcome := .error (.unimplemented c.nextKind)

variable {b : Beat} {log : List Beat} {p : PullPoint} {kind : String} {out : Outcome} {e : Error}

theorem Beat.Lacks.move (h : b.Lacks kind) : b.move = .go (.reply (unimplementedAt b.after)) := by
  obtain ⟨c, point, now, answer⟩ := b
  cases h with
  | source hpoint hidle hbody =>
      dsimp only at hpoint hidle hbody
      subst hpoint
      simp only [Beat.move, after, result, step, enter, hidle, hbody, SourceBody.begin, afterSource]
      simp only [unimplementedAt, nextKind]
      rfl
  | operator hpoint hidle hbody =>
      dsimp only at hpoint hidle hbody
      subst hpoint
      simp only [Beat.move, after, result, step, enter, hidle, hbody, OperatorBody.begin,
        afterOperator]
      rfl
  | tee hpoint hwaiting htee hbody =>
      dsimp only at hpoint hwaiting
      subst hpoint
      simp only [Beat.move, after, result, step, deliver, hwaiting, htee, hbody,
        OperatorBody.resume, OperatorBody.receive, SinkBody.perform, OperatorBody.afterSink,
        afterOperator]
      rfl

/-- An operator that waits for the node above passes the error on under its own kind. -/
theorem Beat.result_of_error (hpoint : b.point = .reply (.error e))
    (hwaiting : b.before.waiting = (op, w) :: waiting) (hw : w.upward = true)
    (hkeeps : op.body.recovers = false) :
    b.result = ({ b.before with idle := op :: b.before.idle, waiting := waiting },
      .go (.reply (.error (e.relabel op.kind)))) := by
  simp only [result, hpoint, step, deliver, hwaiting, OperatorBody.resume_error hw hkeeps]
  rfl

/-- An error that an operator replies to an error is the same under its own kind. -/
theorem Beat.eq_of_passed {e' : Error} (hpoint : b.point = .reply (.error e))
    (hwaiting : b.before.waiting = (op, w) :: waiting) (hw : w.upward = true)
    (hmove : b.move = .go (.reply (.error e'))) :
    e' = e.relabel op.kind ∧ b.after.nextKind = op.kind := by
  have hresult : b.result = afterOperator { b.before with waiting := waiting } op
      (op.body.resume b.now w (.error e)) := by
    simp only [result, hpoint, step, deliver, hwaiting]
  rw [Beat.move, hresult] at hmove
  rw [after, hresult]
  generalize hresume : op.body.resume b.now w (.error e) = m at hmove
  obtain ⟨body, reply | _ | _⟩ := m
  · cases reply with
    | ok v => cases hmove
    | error e'' =>
        cases hmove
        have hreply : (op.body.resume b.now w (.error e)).2 = .reply (.error e'') := by rw [hresume]
        rw [OperatorBody.reply_of_error hw hreply]
        exact ⟨rfl, rfl⟩
  · cases hmove
  · cases hmove

/-- The error of a component that does not implement what it was asked for comes down under the kind
of the node that it has come to. -/
theorem Fails.point_eq (hfails : Fails log kind) (h : Reading c₀ log c p)
    (hidle : c₀.waiting = []) : p = .reply (unimplementedAt c) := by
  induction h with
  | enters _ => cases hfails
  | @goes log b p hreading hnext ih =>
      cases hfails with
      | raised hlacks =>
          rw [hlacks.move] at hnext
          cases hnext
          rfl
      | @passed _ _ _ e e' hfails hpoint hmove =>
          have hcame := hpoint.symm.trans (ih hfails)
          cases hcame
          cases hwaiting : b.before.waiting with
          | nil =>
              simp only [Beat.move, Beat.result, step, hpoint, deliver, hwaiting] at hmove
              cases hmove
          | cons x waiting =>
              have hcalls := (hreading.invariant hidle).1
              rw [hpoint] at hcalls
              cases hcalls with
              | reply hcalls =>
                  have hw : x.2.upward = true := hcalls x (hwaiting ▸ List.mem_cons_self)
                  obtain ⟨rfl, hkind⟩ := Beat.eq_of_passed hpoint hwaiting hw hmove
                  rw [hmove] at hnext
                  cases hnext
                  rw [unimplementedAt, hkind]
                  rfl

/-- Unless one of the operators that wait recovers, the error comes down to the reader. -/
theorem Fails.comes_down (hfails : Fails log kind) (h : Reading c₀ log c p)
    (hidle : c₀.waiting = []) (hkeeps : ∀ x ∈ c.waiting, x.1.body.recovers = false) :
    ∃ (more : List Beat) (b : Beat), Reading c₀ (more ++ log) b.before b.point ∧
      Fails (more ++ log) kind ∧ b.move = .done (.error (.unimplemented c₀.lastKind)) := by
  generalize hwaiting : c.waiting = waiting at hkeeps
  induction waiting generalizing c p log with
  | nil =>
      refine ⟨[], ⟨c, p, 0, .ok .null⟩, h, hfails, ?_⟩
      simp only [Beat.move, Beat.result, hfails.point_eq h hidle, step, deliver, hwaiting]
      rw [unimplementedAt, nextKind_eq_lastKind hwaiting, lastKind_eq h.kinds]
  | cons x waiting ih =>
      have hpoint := hfails.point_eq h hidle
      have hcalls := (h.invariant hidle).1
      subst hpoint
      cases hcalls with
      | reply hcalls =>
          rw [List.forall_mem_cons] at hkeeps
          have hw : x.2.upward = true := hcalls x (hwaiting ▸ List.mem_cons_self)
          let b : Beat := ⟨c, .reply (unimplementedAt c), 0, .ok .null⟩
          have hresult := Beat.result_of_error (b := b) rfl hwaiting hw hkeeps.1
          have hmove : b.move = .go (.reply (.error (Error.relabel x.1.kind
            (.unimplemented c.nextKind)))) := congrArg Prod.snd hresult
          have hafter : b.after.waiting = waiting := by rw [Beat.after, hresult]
          have hreading : Reading c₀ (b :: log) b.after _ := h.goes (by rw [hmove]; rfl)
          obtain ⟨more, b', hb', hfails', hdone⟩ :=
            ih (hfails.passed rfl hmove) hreading hafter hkeeps.2
          refine ⟨more ++ [b], b', ?_, ?_, hdone⟩
          · rwa [List.append_assoc, List.singleton_append]
          · rwa [List.append_assoc, List.singleton_append]

/-- A read that fails because a component does not implement what it was asked for names the node
nearest to the reader, and so that component just if it is of the same kind. It does fail unless an
operator below recovers. -/
theorem unimplemented_names_last (hidle : c₀.waiting = []) (h : Reading c₀ log c p)
    (hfails : Fails log kind) :
    (∀ b : Beat, b.before = c → b.point = p → ∀ out, b.move = .done out →
      out = .error (.unimplemented c₀.lastKind) ∧
      (out = .error (.unimplemented kind) ↔ kind = c₀.lastKind)) ∧
    ((∀ x ∈ c.waiting, x.1.body.recovers = false) →
      ∃ (more : List Beat) (b : Beat), Reading c₀ (more ++ log) b.before b.point ∧
        Fails (more ++ log) kind ∧ b.move = .done (.error (.unimplemented c₀.lastKind))) := by
  refine ⟨fun b hbefore hpoint out hdone => ?_, hfails.comes_down h hidle⟩
  have hout : out = .error (.unimplemented c₀.lastKind) := by
    subst hbefore hpoint
    have hpoint := hfails.point_eq h hidle
    have hasked : b.point ≠ .asked := by
      rw [hpoint]
      exact nofun
    obtain ⟨hreply, hwaiting, -⟩ := Beat.reply_of_done hasked hdone
    rw [hpoint] at hreply
    cases hreply
    rw [unimplementedAt, nextKind_eq_lastKind hwaiting, lastKind_eq h.kinds]
  refine ⟨hout, ?_⟩
  rw [hout]
  simp only [Except.error.injEq, Error.unimplemented.injEq, eq_comm]

/-- An abstract operator that is nearest to the reader is named, and no node above it is asked. -/
theorem last_operator_named :
    let noop : Operator := .make "noop" (.apply .noop) ⟨[], []⟩
    let gap : Operator := .make "gap" .abstract ⟨[], []⟩
    let c := (make (.make "truth" (.bool true) ⟨[], []⟩) [noop, gap]).link
    let beats := beatAt c (.ok .null)
    c.waiting = [] ∧ Reading c (logOf beats 1) (beats 1).before (beats 1).point ∧
      Fails (logOf beats 1) "gap" ∧ c.lastKind = "gap" ∧
      (∃ out, (beats 1).move = .done out ∧ out = .error (.unimplemented "gap")) ∧
      ∃ (more : List Beat) (b : Beat), Reading c (more ++ logOf beats 1) b.before b.point ∧
        Fails (more ++ logOf beats 1) "gap" ∧ b.move = .done (.error (.unimplemented "gap")) := by
  intro noop gap c beats
  have hidle : c.waiting = [] := rfl
  have hlast : c.lastKind = "gap" := rfl
  have hreading : Reading c (logOf beats 1) (beats 1).before (beats 1).point :=
    reading_beatAt rfl (by decide +kernel)
  have hlacks : (beats 0).Lacks gap.kind := .operator rfl rfl rfl
  have hfails : Fails (logOf beats 1) "gap" := .raised hlacks
  obtain ⟨hnamed, hends⟩ := unimplemented_names_last hidle hreading hfails
  refine ⟨hidle, hreading, hfails, hlast, ⟨_, rfl, ?_⟩, ?_⟩
  · exact (hnamed (beats 1) rfl rfl _ rfl).2.mpr hlast.symm
  · exact hends fun x hx => by cases hx

/-- An abstract source that is read through an operator gets the kind of the operator, and an
abstract sink that is handed values along the way that of the tee. -/
theorem origin_not_named :
    let truth : Source := .make "truth" (.bool true) ⟨[], []⟩
    let gap : Source := .make "gap" .abstract ⟨[], []⟩
    let noop : Operator := .make "noop" (.apply .noop) ⟨[], []⟩
    let sink : Sink := .make "gap" .abstract ⟨[], []⟩
    let tee : Operator := .make "to" (.tee sink) ⟨[], []⟩
    let c := (make gap [noop]).link
    let d := (make truth [tee]).link
    (∃ (log : List Beat) (b : Beat), Reading c log b.before b.point ∧ Fails log "gap" ∧
      b.move = .done (.error (.unimplemented "noop"))) ∧
    ∃ (log : List Beat) (b : Beat), Reading d log b.before b.point ∧ Fails log "gap" ∧
      b.move = .done (.error (.unimplemented "to")) := by
  intro truth gap noop sink tee c d
  let beats := beatAt c (.ok .null)
  let beats' := beatAt d (.ok .null)
  have hsource : (beats 1).Lacks gap.kind := .source rfl rfl rfl
  have hfails : Fails (logOf beats 3) "gap" := .passed (.raised hsource) rfl rfl
  have hsink : (beats' 2).Lacks sink.kind := .tee rfl rfl rfl rfl
  exact ⟨⟨_, beats 3, reading_beatAt rfl (by decide +kernel), hfails, rfl⟩,
    ⟨_, beats' 3, reading_beatAt rfl (by decide +kernel), .raised hsink, rfl⟩⟩

end Chain
end PullFlow
