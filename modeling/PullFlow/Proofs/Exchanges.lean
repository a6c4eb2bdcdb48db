import PullFlow.Proofs.Reads

/-!
What a read of a chain asks its surroundings for, and what it is told. A step of a read may make one
request, and then the next step has the answer at hand. So the steps from some point of a read on,
in their order, tell the requests and the answers of whatever node stands there.
-/

namespace PullFlow.Chain

/-- `Continues c₀ p₀ log c p`: a read that stood at the point `p₀` of `c₀` has come to `p` and made
`c` of the chain. The log has the latest step first. -/
inductive Continues (c₀ : Chain) (p₀ : PullPoint) : List Beat → Chain → PullPoint → Prop where
  | here : Continues c₀ p₀ [] c₀ p₀
  | goes {log : List Beat} {b : Beat} {p : PullPoint} : Continues c₀ p₀ log b.before b.point →
      b.move.next? = some p → Continues c₀ p₀ (b :: log) b.after p

/-- What a step asks for. -/
def Beat.request? (b : Beat) : Option Request :=
  match b.move with
  | .ask r _ => some r
  | _ => none

/-- What a step is told that goes on from a request. -/
def Beat.told? (b : Beat) : Option Outcome :=
  match b.point with
  | .asked | .source _ => some b.answer
  | _ => none

/-- What was asked for, in order. -/
def requests (log : List Beat) : List Request := (log.filterMap Beat.request?).reverse

/-- What was told, in order. -/
def answers (log : List Beat) : List Outcome := (log.filterMap Beat.told?).reverse

variable {c₀ c : Chain} {log : List Beat} {b : Beat} {p : PullPoint} {r : Request}

theorem continues_nil {p₀ : PullPoint} (h : Continues c₀ p₀ [] c p) : c = c₀ ∧ p = p₀ := by
  cases h
  exact ⟨rfl, rfl⟩

theorem continues_cons {p₀ : PullPoint} (h : Continues c₀ p₀ (b :: log) c p) :
    c = b.after ∧ Continues c₀ p₀ log b.before b.point ∧ b.move.next? = some p := by
  cases h with
  | goes hbefore hnext => exact ⟨rfl, hbefore, hnext⟩

/-- A chain that allows reads is read from its last operator on. -/
theorem start_eq_go (h : ∀ out, c.start ≠ .done out) : c.start = .go .enter := by
  unfold start at h ⊢
  split
  · rfl
  · next hnot =>
    rw [if_neg hnot] at h
    exact absurd rfl (h _)

/-- What is known of the steps of a read, such that it has not come to its end in any of them. -/
structure Open (c₀ : Chain) (p₀ : PullPoint) (Q : List Beat → Prop) : Prop where
  earlier : ∀ b log, Q (b :: log) → Q log
  goes : ∀ b log out, Q (b :: log) → c₀.Continues p₀ log b.before b.point → b.move ≠ .done out

/-- A read goes on where only the first of its steps may be at another point than those at which it
does not come to its end. -/
theorem open_of_points {p₀ : PullPoint} {S : PullPoint → Prop}
    (hfirst : ∀ (b : Beat) out, b.before = c₀ → b.point = p₀ → b.move ≠ .done out)
    (hlater : ∀ (b : Beat) log out, log ≠ [] → c₀.Continues p₀ log b.before b.point →
      (∀ b ∈ log.dropLast, S b.point) → S b.point → b.move ≠ .done out) :
    Open c₀ p₀ fun log => ∀ b ∈ log.dropLast, S b.point where
  earlier b log h := by
    cases log with
    | nil => exact List.forall_mem_nil _
    | cons latest log =>
        rw [List.dropLast_cons_of_ne_nil (List.cons_ne_nil _ _)] at h
        exact fun b hb => h b (List.mem_cons_of_mem _ hb)
  goes b log out h hcontinues := by
    cases log with
    | nil =>
        obtain ⟨hbefore, hpoint⟩ := continues_nil hcontinues
        exact hfirst b out hbefore hpoint
    | cons latest log =>
        rw [List.dropLast_cons_of_ne_nil (List.cons_ne_nil _ _)] at h
        obtain ⟨hpoint, hearlier⟩ := List.forall_mem_cons.mp h
        exact hlater b _ out (List.cons_ne_nil _ _) hcontinues hearlier hpoint

theorem Open.of_suffix {p₀ : PullPoint} {Q : List Beat → Prop} (h : Open c₀ p₀ Q)
    (later : List Beat) (hQ : Q (later ++ log)) : Q log := by
  induction later with
  | nil => exact hQ
  | cons b later ih => exact ih (h.earlier b _ hQ)

theorem move_of_request (h : b.request? = some r) : ∃ q, b.move = .ask r q := by
  unfold Beat.request? at h
  split at h
  · next r' q hmove =>
    cases h
    exact ⟨q, hmove⟩
  · cases h

theorem answer_of_told {out : Outcome} (h : b.told? = some out) : out = b.answer := by
  unfold Beat.told? at h
  split at h <;> cases h <;> rfl

/-- A read is not over where an operator waits for the outcome. -/
theorem deliver_ne_done (h : c.waiting ≠ []) (now : Nat) (out out' : Outcome) :
    (c.deliver now out).2 ≠ .done out' := by
  unfold deliver
  split
  · next hnone => exact absurd hnone h
  · next op w waiting _ =>
    generalize op.body.resume now w out = m
    obtain ⟨body, _ | _ | _⟩ := m <;> exact nofun

/-- An operator that is handed an outcome and then waits to be told another has made a request. -/
theorem request_of_deliver {out : Outcome} (hresult : b.result = c.deliver b.now out)
    (hnext : b.move.next? = some .asked) : ∃ r, b.request? = some r := by
  have hmove : b.move = (c.deliver b.now out).2 := congrArg Prod.snd hresult
  unfold deliver at hmove
  split at hmove
  · rw [hmove] at hnext
    cases hnext
  · next op w waiting _ =>
    generalize op.body.resume b.now w out = m at hmove
    rw [hmove] at hnext
    obtain ⟨⟨_, hreply⟩, _⟩ | ⟨_, _, _, _, ⟨_, henter⟩ | ⟨r, hask, _⟩⟩ := afterOperator_next hnext
    · cases hreply
    · cases henter
    · obtain ⟨body, move⟩ := m
      subst hask
      exact ⟨r, by rw [Beat.request?, hmove]; rfl⟩

/-- A source that waits has made a request. -/
theorem request_of_source {m : SourceBody × SourceMove} {w : SourceWait}
    (hresult : b.result = c.afterSource m) (hnext : b.move.next? = some (.source w)) :
    ∃ r, b.request? = some r := by
  have hmove : b.move = (c.afterSource m).2 := congrArg Prod.snd hresult
  rw [hmove] at hnext
  obtain ⟨_, ⟨_, hreply⟩ | ⟨r, _, hask, _⟩⟩ := afterSource_next hnext
  · cases hreply
  · obtain ⟨body, move⟩ := m
    subst hask
    exact ⟨r, by rw [Beat.request?, hmove]; rfl⟩

theorem requests_cons_of_ask (h : b.move = .ask r p) (log : List Beat) :
    requests (b :: log) = requests log ++ [r] := by
  simp [requests, Beat.request?, h]

theorem requests_cons_of_go (h : b.move = .go p) (log : List Beat) :
    requests (b :: log) = requests log := by
  simp [requests, Beat.request?, h]

theorem answers_cons_of_asked (h : b.point = .asked) (log : List Beat) :
    answers (b :: log) = answers log ++ [b.answer] := by
  simp [answers, Beat.told?, h]

theorem answers_cons_of_source {w : SourceWait} (h : b.point = .source w) (log : List Beat) :
    answers (b :: log) = answers log ++ [b.answer] := by
  simp [answers, Beat.told?, h]

end PullFlow.Chain
