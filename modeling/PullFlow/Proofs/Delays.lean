import PullFlow.Chain
import PullFlow.Proofs.Outcome

/-!
Operators that go by the clock. `smooth` turns to what it reads once that has held for its delay,
and `cached` reads again once what it holds is older than its delay. Both are told by what came of
the reads before: since when the latest readings agree, and when a value was obtained last. A clock
that never goes back makes of the differences of moments the time that has passed.
-/

namespace PullFlow

/-- A read of an operator: when it is asked for its value, and what the node above has for it, and
when. -/
structure Poll where
  asked : Nat
  answered : Nat
  above : Outcome

/-- A read and what came of it: whether the node above was asked, and the answer, if there was
one. -/
structure Polled where
  poll : Poll
  wentUp : Bool
  answer? : Option Outcome

namespace OperatorBody

/-- A read of an operator that asks for nothing but the value above, below a node of a kind. -/
def poll (kind : String) (r : Poll) (b : OperatorBody) : OperatorBody × Polled :=
  match b.begin r.asked kind with
  | (b, .reply out) => (b, ⟨r, false, some out⟩)
  | (b, .up w) =>
      match b.resume r.answered w r.above with
      | (b, .reply out) => (b, ⟨r, true, some out⟩)
      | (b, _) => (b, ⟨r, true, none⟩)
  | (b, .ask ..) => (b, ⟨r, false, none⟩)

/-- Reads of an operator, the latest first: what they leave of it, and what came of each. -/
def polled (kind : String) (b : OperatorBody) : List Poll → OperatorBody × List Polled
  | [] => (b, [])
  | r :: earlier =>
      let before := b.polled kind earlier
      let now := before.1.poll kind r
      (now.1, now.2 :: before.2)

end OperatorBody

/-- A chain reads an operator like this: it is asked on the way up, and if it went up it is answered
on the way down, whatever became of the nodes above. -/
theorem Chain.step_of_poll {c : Chain} {op : Operator} {idle : List Operator} {r : Poll}
    {body : OperatorBody} {x : Polled} {out : Outcome} (hidle : c.idle = op :: idle)
    (hpoll : op.body.poll (nextKind { c with idle := idle }) r = (body, x))
    (hanswer : x.answer? = some out) (answer : Outcome) :
    (x.wentUp = false ∧ c.step r.asked .enter answer =
      ({ c with idle := { op with body := body } :: idle }, .go (.reply (op.passOn out)))) ∨
    (x.wentUp = true ∧ ∃ waits,
      c.step r.asked .enter answer =
        ({ c with idle := idle, waiting := waits :: c.waiting }, .go .enter) ∧
      ∀ d : Chain, d.waiting = waits :: c.waiting → d.step r.answered (.reply r.above) answer =
        ({ d with idle := { op with body := body } :: d.idle, waiting := c.waiting },
          .go (.reply (op.passOn out)))) := by
  simp only [step, enter, hidle]
  unfold OperatorBody.poll at hpoll
  split at hpoll
  · next hbegin =>
    cases hpoll
    cases hanswer
    rw [hbegin]
    exact .inl ⟨rfl, rfl⟩
  · next waiting w hbegin =>
    split at hpoll
    · next hresume =>
      cases hpoll
      cases hanswer
      rw [hbegin]
      refine .inr ⟨rfl, ({ op with body := waiting }, w), rfl, fun d hwaiting => ?_⟩
      simp only [deliver, hwaiting, hresume]
      rfl
    · cases hpoll
      cases hanswer
  · cases hpoll
    cases hanswer

/-! ### What the reads before tell -/

namespace Polled

/-- A value that the node above gave, counted as true or false, and when. -/
def reading? (x : Polled) : Option (Nat × Bool) :=
  match x.poll.above with
  | .ok v => some (x.poll.answered, v.truthy)
  | .error _ => none

/-- The boolean that was answered. -/
def shown? (x : Polled) : Option Bool :=
  match x.answer? with
  | some (.ok (.bool c)) => some c
  | _ => none

/-- A value that the node above was asked for and gave, and when. -/
def obtained? (x : Polled) : Option (Nat × Value) :=
  match x.wentUp, x.poll.above with
  | true, .ok v => some (x.poll.answered, v)
  | _, _ => none

end Polled

/-- The readings of the reads that did not fail, the latest first. -/
def readings (log : List Polled) : List (Nat × Bool) := log.filterMap (·.reading?)

/-- The state answered last; false before the first. -/
def shown (log : List Polled) : Bool := (log.findSome? (·.shown?)).getD false

/-- The value obtained last, and when. -/
def obtained? (log : List Polled) : Option (Nat × Value) := log.findSome? (·.obtained?)

theorem readings_ok {x : Polled} {v : Value} (h : x.poll.above = .ok v) (log : List Polled) :
    readings (x :: log) = (x.poll.answered, v.truthy) :: readings log := by
  simp only [readings, List.filterMap_cons, Polled.reading?, h]

theorem readings_error {x : Polled} {e : Error} (h : x.poll.above = .error e)
    (log : List Polled) : readings (x :: log) = readings log := by
  simp only [readings, List.filterMap_cons, Polled.reading?, h]

theorem shown_ok {x : Polled} {c : Bool} (h : x.answer? = some (.ok (.bool c)))
    (log : List Polled) : shown (x :: log) = c := by
  simp only [shown, List.findSome?_cons, Polled.shown?, h, Option.getD_some]

theorem shown_error {x : Polled} {e : Error} (h : x.answer? = some (.error e))
    (log : List Polled) : shown (x :: log) = shown log := by
  simp only [shown, List.findSome?_cons, Polled.shown?, h]

theorem obtained?_cons (x : Polled) (log : List Polled) :
    obtained? (x :: log) = x.obtained?.or (obtained? log) := by
  rw [obtained?, List.findSome?_cons, obtained?]
  cases x.obtained? <;> rfl

/-- `HoldsSince c t₀ readings`: the latest readings are `c`, and the first of them was at `t₀`. -/
inductive HoldsSince (c : Bool) (t₀ : Nat) : List (Nat × Bool) → Prop where
  | first {earlier} : (∀ x ∈ earlier.head?, x.2 ≠ c) → HoldsSince c t₀ ((t₀, c) :: earlier)
  | again {t earlier} : HoldsSince c t₀ earlier → HoldsSince c t₀ ((t, c) :: earlier)

namespace HoldsSince

variable {c : Bool} {t₀ t₁ : Nat} {latest : List (Nat × Bool)}

theorem head (h : HoldsSince c t₀ latest) : ∃ x ∈ latest.head?, x.2 = c := by
  cases h with
  | first _ => exact ⟨_, rfl, rfl⟩
  | again _ => exact ⟨_, rfl, rfl⟩

/-- A reading that agrees with the latest ones goes on with them, another one begins anew. -/
theorem next {d : Bool} (h : HoldsSince c t₀ latest) (t : Nat) :
    HoldsSince d (if d = c then t₀ else t) ((t, d) :: latest) := by
  split
  · next hd =>
    subst hd
    exact h.again
  · next hd =>
    refine .first fun x hx => ?_
    obtain ⟨y, hy, rfl⟩ := h.head
    cases Option.mem_unique hx hy
    exact Ne.symm hd

theorem unique (h₀ : HoldsSince c t₀ latest) (h₁ : HoldsSince c t₁ latest) : t₀ = t₁ := by
  induction h₀ with
  | first hhead =>
      cases h₁ with
      | first _ => rfl
      | again h₁ =>
          obtain ⟨x, hx, hc⟩ := h₁.head
          exact absurd hc (hhead x hx)
  | again h₀ ih =>
      cases h₁ with
      | first hhead =>
          obtain ⟨x, hx, hc⟩ := h₀.head
          exact absurd hc (hhead x hx)
      | again h₁ => exact ih h₁

end HoldsSince

/-! ### A boolean that changes only after a while -/

namespace Steady

/-- How long a reading must hold before it is shown. -/
def delay (s : Steady) (c : Bool) : Duration := if c then s.delayTrue else s.delayFalse

variable (now : Nat) (c : Bool) (s : Steady)

/-- The reading that counts is the latest, since when it holds is known from the one before, and it
is shown if it has held for its delay. -/
theorem read_eq : s.read now c =
    let since := if c = s.raw then s.since else now
    let settles := c ≠ s.state ∧ (s.delay c).nanos ≤ now - since
    { s with raw := c, since := since, state := if settles then c else s.state } := by
  have hnoted : (if c != s.raw then { s with raw := c, since := now } else s) =
      { s with raw := c, since := if c = s.raw then s.since else now } := by
    by_cases hraw : c = s.raw
    · subst hraw
      simp
    · simp [hraw]
  unfold read
  dsimp only
  rw [hnoted]
  simp only [Bool.and_eq_true, bne_iff_ne, decide_eq_true_eq]
  generalize (if c = s.raw then s.since else now) = since
  by_cases hsettles : c ≠ s.state ∧ (s.delay c).nanos ≤ now - since
  · rw [if_pos hsettles]
    exact if_pos hsettles
  · rw [if_neg hsettles]
    exact if_neg hsettles

theorem read_raw : (s.read now c).raw = c := by rw [read_eq]

/-- The state that is shown after a reading. -/
theorem read_state : (s.read now c).state =
    if c ≠ s.state ∧ (s.delay c).nanos ≤ now - (s.read now c).since then c else s.state := by
  rw [read_eq]

theorem read_delay : (s.read now c).delay = s.delay := by
  rw [read_eq]
  rfl

end Steady

namespace OperatorBody

variable {kind : String} {r : Poll} {v : Value} {e : Error} {s : Steady}

theorem poll_smooth (h : r.above = .ok v) :
    poll kind r (smooth s) = (smooth (s.read r.answered v.truthy),
      ⟨r, true, some (.ok (.bool (s.read r.answered v.truthy).state))⟩) := by
  simp only [poll, begin, h, resume, receive]

theorem poll_smooth_of_error (h : r.above = .error e) :
    poll kind r (smooth s) = (smooth s, ⟨r, true, some (.error e)⟩) := by
  simp only [poll, begin, h, resume]

end OperatorBody

/-- What a `smooth` is after some reads: it shows what it answered last, and knows since when the
latest readings agree, unless it never read anything but false. -/
structure Smooths (delay : Bool → Duration) (log : List Polled) (s : Steady) : Prop where
  delays : s.delay = delay
  shows : s.state = shown log
  holds : HoldsSince s.raw s.since (readings log) ∨
    s.raw = false ∧ s.state = false ∧ ∀ x ∈ readings log, x.2 = false

namespace Smooths

variable {delay : Bool → Duration} {log : List Polled} {s : Steady} {x : Polled} {v : Value}
  {e : Error}

/-- A `smooth` that was never read shows false. -/
theorem fresh (hraw : s.raw = false) (hstate : s.state = false) : Smooths s.delay [] s :=
  ⟨rfl, hstate, .inr ⟨hraw, hstate, List.forall_mem_nil _⟩⟩

/-- A reading other than the state is known since when it holds. -/
theorem holds_next (h : Smooths delay log s) {c : Bool} (hc : c ≠ s.state) (t : Nat) :
    HoldsSince c (s.read t c).since ((t, c) :: readings log) := by
  rw [Steady.read_eq]
  obtain hholds | ⟨hraw, hstate, hfalse⟩ := h.holds
  · exact hholds.next t
  · rw [hstate] at hc
    rw [hraw, if_neg hc]
    refine .first fun x hx => ?_
    rw [hfalse x (List.mem_of_mem_head? hx)]
    exact hc.symm

theorem next (h : Smooths delay log s) (habove : x.poll.above = .ok v)
    (hanswer : x.answer? = some (.ok (.bool (s.read x.poll.answered v.truthy).state))) :
    Smooths delay (x :: log) (s.read x.poll.answered v.truthy) := by
  refine ⟨(s.read_delay ..).trans h.delays, (shown_ok hanswer log).symm, ?_⟩
  rw [readings_ok habove, Steady.read_raw]
  obtain hholds | ⟨_, hstate, hfalse⟩ := h.holds
  · rw [Steady.read_eq]
    exact .inl (hholds.next x.poll.answered)
  · cases v.truthy with
    | true =>
        have hturns : true ≠ s.state := by simp [hstate]
        exact .inl (h.holds_next hturns x.poll.answered)
    | false =>
        refine .inr ⟨rfl, ?_, List.forall_mem_cons.mpr ⟨rfl, hfalse⟩⟩
        rw [Steady.read_state, hstate, ite_self]

theorem fail (h : Smooths delay log s) (habove : x.poll.above = .error e)
    (hanswer : x.answer? = some (.error e)) : Smooths delay (x :: log) s := by
  refine ⟨h.delays, h.shows.trans (shown_error hanswer log).symm, ?_⟩
  rw [readings_error habove]
  exact h.holds

end Smooths

/-- What a read of a `smooth` comes to, after other reads. A failed read changes nothing; any other
answers the state, which turns to `c` exactly when it is not `c` and the latest readings have been
`c` for the delay of `c`. -/
structure Debounced (delay : Bool → Duration) (log : List Polled) (before : OperatorBody)
    (x : Polled) (after : OperatorBody) : Prop where
  asks : x.wentUp = true
  fails : ∀ e, x.poll.above = .error e → x.answer? = some (.error e) ∧ after = before
  shows : ∀ v, x.poll.above = .ok v → ∃ c, x.answer? = some (.ok (.bool c))
  turns : ∀ v, x.poll.above = .ok v → ∀ c,
    (shown log ≠ c ∧ x.answer? = some (.ok (.bool c))) ↔
      (shown log ≠ c ∧ ∃ t₀, HoldsSince c t₀ (readings (x :: log)) ∧
        (delay c).nanos ≤ x.poll.answered - t₀)

namespace Smooths

variable {delay : Bool → Duration} {log : List Polled} {s : Steady} {kind : String} {r : Poll}
  {v : Value} {c : Bool}

/-- The state turns to a reading that has held for its delay. -/
theorem turns_iff (h : Smooths delay log s) {t : Nat} {d : Bool} (hc : s.state ≠ c) :
    (s.read t d).state = c ↔
      ∃ t₀, HoldsSince c t₀ ((t, d) :: readings log) ∧ (delay c).nanos ≤ t - t₀ := by
  rw [Steady.read_state, h.delays]
  constructor
  · intro hstate
    split at hstate
    · next hsettles =>
      subst hstate
      exact ⟨_, h.holds_next hsettles.1 t, hsettles.2⟩
    · exact absurd hstate hc
  · rintro ⟨t₀, hholds, hdelay⟩
    obtain ⟨x, hx, hd⟩ := hholds.head
    cases hx
    dsimp only at hd
    subst hd
    rw [hholds.unique (h.holds_next hc.symm t)] at hdelay
    exact if_pos ⟨hc.symm, hdelay⟩

theorem debounced (h : Smooths delay log s) (kind : String) (r : Poll) :
    let now := (OperatorBody.smooth s).poll kind r
    Debounced delay log (.smooth s) now.2 now.1 ∧
      ∃ s', now.1 = .smooth s' ∧ Smooths delay (now.2 :: log) s' := by
  obtain ⟨asked, answered, above⟩ := r
  cases above with
  | error e =>
      rw [OperatorBody.poll_smooth_of_error rfl]
      exact ⟨⟨rfl, fun _ he => by cases he; exact ⟨rfl, rfl⟩, nofun, nofun⟩, s, rfl, h.fail rfl rfl⟩
  | ok v =>
      rw [OperatorBody.poll_smooth rfl]
      refine ⟨⟨rfl, nofun, fun _ _ => ⟨_, rfl⟩, fun w hw c => and_congr_right fun hc => ?_⟩, _, rfl,
        h.next rfl rfl⟩
      cases hw
      rw [readings_ok rfl, ← h.turns_iff (h.shows ▸ hc)]
      simp only [Option.some.injEq, Except.ok.injEq, Value.bool.injEq]

end Smooths

/-! ### A value that is read again after a while -/

/-- What a read of a `cached` comes to, after other reads. It holds the value obtained last and asks
the node above exactly when there is none or when more than its delay has passed since then;
otherwise it answers that value. What it is given it passes on, and it keeps all but an error. -/
structure Windowed (delay : Duration) (log : List Polled) (before : OperatorBody) (x : Polled)
    (after : OperatorBody) : Prop where
  stored : before = .cached delay (obtained? log)
  asks : x.wentUp = true ↔ obtained? log = none ∨
    ∃ t v, obtained? log = some (t, v) ∧ delay.nanos < x.poll.asked - t
  keeps : x.wentUp = false → after = before ∧
    ∃ t v, obtained? log = some (t, v) ∧ x.answer? = some (.ok v)
  passes : x.wentUp = true → x.answer? = some x.poll.above
  stores : x.wentUp = true → ∀ v, x.poll.above = .ok v →
    after = .cached delay (some (x.poll.answered, v))
  fails : x.wentUp = true → ∀ e, x.poll.above = .error e → after = before

namespace OperatorBody

variable {kind : String} {r : Poll} {delay : Duration} {last : Option (Nat × Value)} {v : Value}
  {e : Error} {t : Nat}

theorem poll_cached_kept (kind : String) (v : Value) (h : r.asked - t ≤ delay.nanos) :
    poll kind r (cached delay (some (t, v))) =
      (cached delay (some (t, v)), ⟨r, false, some (.ok v)⟩) := by
  simp only [poll, begin, if_pos h]

/-- A `cached` that is not answered by what it holds goes up. -/
theorem begin_cached_due (h : ∀ t v, last = some (t, v) → delay.nanos < r.asked - t) :
    (cached delay last).begin r.asked kind = (cached delay last, .up .above) := by
  match last with
  | none => rfl
  | some (t, v) => exact if_neg (Nat.not_le.mpr (h t v rfl))

theorem poll_cached_ok (h : ∀ t v, last = some (t, v) → delay.nanos < r.asked - t)
    (habove : r.above = .ok v) :
    poll kind r (cached delay last) =
      (cached delay (some (r.answered, v)), ⟨r, true, some (.ok v)⟩) := by
  simp only [poll, begin_cached_due h, habove, resume, receive]

theorem poll_cached_error (h : ∀ t v, last = some (t, v) → delay.nanos < r.asked - t)
    (habove : r.above = .error e) :
    poll kind r (cached delay last) = (cached delay last, ⟨r, true, some (.error e)⟩) := by
  simp only [poll, begin_cached_due h, habove, resume]

end OperatorBody

namespace Windowed

variable {delay : Duration} {log : List Polled}

/-- Before the first value and after its delay a `cached` asks the node above. -/
theorem of_due (kind : String) (r : Poll)
    (hdue : ∀ t v, obtained? log = some (t, v) → delay.nanos < r.asked - t) :
    let now := (OperatorBody.cached delay (obtained? log)).poll kind r
    Windowed delay log (.cached delay (obtained? log)) now.2 now.1 ∧
      now.1 = .cached delay (obtained? (now.2 :: log)) := by
  have hasks : obtained? log = none ∨
      ∃ t v, obtained? log = some (t, v) ∧ delay.nanos < r.asked - t := by
    match hlast : obtained? log with
    | none => exact .inl rfl
    | some (t, v) => exact .inr ⟨t, v, rfl, hdue t v hlast⟩
  obtain ⟨asked, answered, above⟩ := r
  cases above with
  | ok v =>
      rw [OperatorBody.poll_cached_ok hdue rfl]
      refine ⟨?_, by rw [obtained?_cons]; rfl⟩
      exact ⟨rfl, iff_of_true rfl hasks, nofun, fun _ => rfl, fun _ _ hv => by cases hv; rfl,
        fun _ => nofun⟩
  | error e =>
      rw [OperatorBody.poll_cached_error hdue rfl]
      refine ⟨?_, by rw [obtained?_cons]; rfl⟩
      exact ⟨rfl, iff_of_true rfl hasks, nofun, fun _ => rfl, fun _ => nofun, fun _ _ _ => rfl⟩

/-- Within its delay a `cached` answers what it holds. -/
theorem of_kept (kind : String) (r : Poll) {t : Nat} {v : Value}
    (hlast : obtained? log = some (t, v)) (hkept : r.asked - t ≤ delay.nanos) :
    let now := (OperatorBody.cached delay (obtained? log)).poll kind r
    Windowed delay log (.cached delay (obtained? log)) now.2 now.1 ∧
      now.1 = .cached delay (obtained? (now.2 :: log)) := by
  have hwaits : ¬ (obtained? log = none ∨
      ∃ t v, obtained? log = some (t, v) ∧ delay.nanos < r.asked - t) := by
    rintro (hnone | ⟨t', v', hlast', hdue⟩)
    · rw [hnone] at hlast
      cases hlast
    · rw [hlast] at hlast'
      cases hlast'
      exact absurd hdue (Nat.not_lt.mpr hkept)
  have hpoll := OperatorBody.poll_cached_kept kind v hkept
  rw [← hlast] at hpoll
  rw [hpoll]
  refine ⟨?_, by rw [obtained?_cons]; rfl⟩
  exact ⟨rfl, iff_of_false Bool.false_ne_true hwaits, fun _ => ⟨rfl, t, v, hlast, rfl⟩,
    nofun, nofun, nofun⟩

theorem windowed (delay : Duration) (log : List Polled) (kind : String) (r : Poll) :
    let now := (OperatorBody.cached delay (obtained? log)).poll kind r
    Windowed delay log (.cached delay (obtained? log)) now.2 now.1 ∧
      now.1 = .cached delay (obtained? (now.2 :: log)) := by
  match hlast : obtained? log with
  | none =>
      rw [← hlast]
      exact of_due kind r fun t v hsome => by rw [hlast] at hsome; cases hsome
  | some (t, v) =>
      rw [← hlast]
      obtain hdue | hkept := Nat.lt_or_ge delay.nanos (r.asked - t)
      · refine of_due kind r fun t' v' hsome => ?_
        rw [hlast] at hsome
        cases hsome
        exact hdue
      · exact of_kept kind r hlast hkept

end Windowed

/-! ### After a set-up -/

namespace OperatorBody

variable {st : Scope.Store} {p : Params} {delay : Duration} {delayTrue delayFalse : Option Duration}

theorem initialise_smooth (hdelay : p.duration "delay" = .ok delay)
    (hdelayTrue : p.duration? "delay_true" = .ok delayTrue)
    (hdelayFalse : p.duration? "delay_false" = .ok delayFalse) (s : Steady) :
    initialise st p (smooth s) =
      .pass (smooth ⟨delayTrue.getD delay, delayFalse.getD delay, false, 0, false⟩) := by
  simp only [initialise, hdelay, hdelayTrue, hdelayFalse, HookEnd.taking, HookEnd.ofExcept,
    Except.map, HookEnd.pass]

theorem initialise_cached (hdelay : p.duration "delay" = .ok delay) (d : Duration)
    (last : Option (Nat × Value)) :
    initialise st p (cached d last) = .pass (cached delay none) := by
  simp only [initialise, hdelay, HookEnd.ofExcept, Except.map, HookEnd.pass]

/-- The reads of a `smooth` keep to what the reads before tell. -/
theorem smooths_polled {kind : String} {delay : Bool → Duration} {s : Steady} (reads : List Poll)
    (h : Smooths delay [] s) :
    ∃ s', (polled kind (smooth s) reads).1 = smooth s' ∧
      Smooths delay (polled kind (smooth s) reads).2 s' := by
  induction reads with
  | nil => exact ⟨s, rfl, h⟩
  | cons r earlier ih =>
      obtain ⟨s', hbody, hsmooths⟩ := ih
      simp only [polled, hbody]
      exact (hsmooths.debounced kind r).2

theorem cached_polled (kind : String) (delay : Duration) (reads : List Poll) :
    (polled kind (cached delay none) reads).1 =
      cached delay (obtained? (polled kind (cached delay none) reads).2) := by
  induction reads with
  | nil => rfl
  | cons r earlier ih =>
      simp only [polled]
      rw [ih]
      exact (Windowed.windowed delay _ kind r).2

/-- After a set-up every read of a `smooth` and every read of a `cached` comes to what the reads
before it and the delays say, whatever the node above did and whenever it was read. -/
theorem timed_reads_exact (hdelay : p.duration "delay" = .ok delay) (kind : String)
    (earlier : List Poll) (r : Poll) :
    (∀ s delayTrue delayFalse, p.duration? "delay_true" = .ok delayTrue →
      p.duration? "delay_false" = .ok delayFalse →
      let delays (c : Bool) := (if c then delayTrue else delayFalse).getD delay
      let before := (initialise st p (smooth s)).body.polled kind earlier
      let now := before.1.poll kind r
      Debounced delays before.2 before.1 now.2 now.1) ∧
    ∀ d last,
      let before := (initialise st p (cached d last)).body.polled kind earlier
      let now := before.1.poll kind r
      Windowed delay before.2 before.1 now.2 now.1 := by
  refine ⟨fun s delayTrue delayFalse hdelayTrue hdelayFalse => ?_, fun d last => ?_⟩
  · intro delays before now
    let fresh : Steady := ⟨delayTrue.getD delay, delayFalse.getD delay, false, 0, false⟩
    have hdelays : fresh.delay = delays := funext fun c => by cases c <;> rfl
    have hbefore : before = (smooth fresh).polled kind earlier := by
      simp only [before, initialise_smooth hdelay hdelayTrue hdelayFalse, HookEnd.pass, fresh]
    obtain ⟨s', hbody, hsmooths⟩ := smooths_polled earlier (Smooths.fresh (s := fresh) rfl rfl)
    rw [← hbefore, hdelays] at hsmooths
    rw [← hbefore] at hbody
    simp only [now, hbody]
    exact (hsmooths.debounced kind r).1
  · intro before now
    have hbefore : before = (cached delay none).polled kind earlier := by
      simp only [before, initialise_cached hdelay, HookEnd.pass]
    have hbody := cached_polled kind delay earlier
    rw [← hbefore] at hbody
    simp only [now, hbody]
    exact (Windowed.windowed delay before.2 kind r).1

/-- A `smooth` with two seconds for true and one for false turns to true in the moment in which it
has read true for two seconds, a failed read in between; a `cached` of one second that was read in
the same moments reads on each time. -/
theorem smooth_turns_at_delay :
    let p : Params := ⟨[("delay", .int 1), ("delay_true", .int 2)], []⟩
    let earlier : List Poll :=
      [⟨1500000000, 1500000000, .error (.host "gone")⟩, ⟨0, 0, .ok (.bool true)⟩]
    let r : Poll := ⟨2000000000, 2000000000, .ok (.bool true)⟩
    let delays (c : Bool) : Duration := (if c then some ⟨2000000000⟩ else none).getD ⟨1000000000⟩
    let s : Steady := ⟨⟨0⟩, ⟨0⟩, true, 0, true⟩
    let before := (initialise .empty p (smooth s)).body.polled "x" earlier
    let now := before.1.poll "x" r
    let before' := (initialise .empty p (cached ⟨0⟩ none)).body.polled "x" earlier
    let now' := before'.1.poll "x" r
    p.duration "delay" = .ok ⟨1000000000⟩ ∧ p.duration? "delay_true" = .ok (some ⟨2000000000⟩) ∧
      p.duration? "delay_false" = .ok none ∧
      Debounced delays before.2 before.1 now.2 now.1 ∧
      Windowed ⟨1000000000⟩ before'.2 before'.1 now'.2 now'.1 ∧
      shown before.2 = false ∧ now.2.shown? = some true ∧ now'.2.wentUp = true := by
  intro p earlier r delays s before now before' now'
  have hdelay : p.duration "delay" = .ok ⟨1000000000⟩ := eq_ok_of_toOption (by decide +kernel)
  have htrue : p.duration? "delay_true" = .ok (some ⟨2000000000⟩) :=
    eq_ok_of_toOption (by decide +kernel)
  have hfalse : p.duration? "delay_false" = .ok none := rfl
  have hexact := @timed_reads_exact .empty p _ hdelay "x" earlier r
  exact ⟨hdelay, htrue, hfalse, hexact.1 s _ _ htrue hfalse, hexact.2 _ _, by decide +kernel,
    by decide +kernel, by decide +kernel⟩

end OperatorBody
end PullFlow
