import PullFlow.Chain
import Mathlib.Data.Prod.Lex
import Mathlib.Order.WellFounded

/-!
How far a read of a chain goes. A read goes up to the source and comes down again, and an operator
turns it round only where a `feed` is handed an empty list and reads on. So a read asks the source
once, and once more for each such list at most, and it comes to its end unless there are such lists
for ever.
-/

namespace PullFlow

/-- Whether an operator takes lists apart. -/
def OperatorBody.feeds : OperatorBody → Bool
  | .feed _ => true
  | _ => false

/-- The point at which a read goes on, unless it is over. -/
def PullMove.next? : PullMove → Option PullPoint
  | .go p | .ask _ p => some p
  | .done _ => none

namespace Chain

/-- A step of a read: where it is taken, when, and with which answer at hand. -/
structure Beat where
  before : Chain
  point : PullPoint
  now : Nat
  answer : Outcome

namespace Beat

def result (b : Beat) : Chain × PullMove := b.before.step b.now b.point b.answer

def after (b : Beat) : Chain := b.result.1

def move (b : Beat) : PullMove := b.result.2

/-- Whether the source is asked for a value. -/
def asksSource (b : Beat) : Bool :=
  match b.point with
  | .enter => b.before.idle.isEmpty
  | _ => false

/-- Whether a `feed` is handed an empty list. -/
def feedsEmpty (b : Beat) : Bool :=
  match b.point, b.before.waiting with
  | .reply (.ok (.list [])), (op, _) :: _ => op.body.feeds
  | _, _ => false

end Beat

/-- `Reading c₀ log c p`: a read of `c₀` has come to the point `p` and made `c` of the chain. The
log has the latest step first. Nothing is said of the answers that the nodes got. -/
inductive Reading (c₀ : Chain) : List Beat → Chain → PullPoint → Prop where
  | enters : c₀.start = .go .enter → Reading c₀ [] c₀ .enter
  | goes {log : List Beat} {b : Beat} {p : PullPoint} : Reading c₀ log b.before b.point →
      b.move.next? = some p → Reading c₀ (b :: log) b.after p

/-- A read that goes on for ever. -/
structure Endless (c₀ : Chain) (beats : Nat → Beat) : Prop where
  starts : c₀.start = .go .enter
  first : (beats 0).before = c₀ ∧ (beats 0).point = .enter
  goes : ∀ k, (beats (k + 1)).before = (beats k).after ∧
    (beats k).move.next? = some (beats (k + 1)).point

/-- The steps of a read that goes on for ever, up to one of them. -/
def logOf (beats : Nat → Beat) (k : Nat) : List Beat := ((List.range k).map beats).reverse

theorem logOf_succ (beats : Nat → Beat) (k : Nat) :
    logOf beats (k + 1) = beats k :: logOf beats k := by
  simp [logOf, List.range_succ]

theorem Endless.reading {c₀ : Chain} {beats : Nat → Beat} (h : Endless c₀ beats) (k : Nat) :
    Reading c₀ (logOf beats k) (beats k).before (beats k).point := by
  induction k with
  | zero =>
      rw [h.first.1, h.first.2]
      exact .enters h.starts
  | succ k ih =>
      rw [logOf_succ, (h.goes k).1]
      exact ih.goes (h.goes k).2

end Chain

/-! What an operator waits for. -/

namespace OperatorWait

/-- Whether the node above is still to be asked. -/
def early : OperatorWait → Bool
  | noted _ => true
  | _ => false

/-- Whether the node above is to answer. -/
def upward : OperatorWait → Bool
  | above | recorded _ => true
  | _ => false

/-- Whether the node above has answered. -/
def late (w : OperatorWait) : Bool := !w.early && !w.upward

/-- For how many more answers an operator may wait before it answers itself. -/
def left : OperatorWait → Nat
  | mapping _ rest | keeping _ _ rest => rest.length
  | sink _ (.noted _) => 1
  | _ => 0

end OperatorWait

/-- An operator that goes up or asks for something then waits as it may. -/
def OperatorMove.Fits (up ask : OperatorWait → Prop) : OperatorMove → Prop
  | .reply _ => True
  | .up w => up w
  | .ask _ w => ask w

theorem OperatorMove.Fits.mono {up ask up' ask' : OperatorWait → Prop} {m : OperatorMove}
    (h : m.Fits up ask) (hup : ∀ w, up w → up' w) (hask : ∀ w, ask w → ask' w) :
    m.Fits up' ask' := by
  cases m with
  | reply out => trivial
  | up w => exact hup w h
  | ask r w => exact hask w h

/-- Only a sink that made a note asks for something else. -/
theorem SinkBody.noted_of_ask {b : SinkBody} {w w' : SinkWait} {answer : Outcome} {r : Request}
    (h : (b.resume w answer).2 = .ask r w') : ∃ v, w = .noted v ∧ w' = .finished := by
  unfold resume at h
  split at h
  · split at h <;> cases h
  · split at h <;> cases h
    exact ⟨_, rfl, rfl⟩
  · cases h
  · cases h

/-- For how many more answers a source may wait before it answers itself. -/
def SourceWait.left : SourceWait → Nat
  | .inflow _ _ rest => rest.length + 1
  | _ => 0

/-- A source that waits asks again only while it has something left to ask for. -/
theorem SourceBody.left_resume {b : SourceBody} {w w' : SourceWait} {answer : Outcome} {r : Request}
    (h : (b.resume w answer).2 = .ask r w') : w'.left < w.left := by
  unfold resume at h
  split at h
  · cases h
  · cases h
  · split at h
    · cases h
    · dsimp only at h
      split at h <;> cases h
      exact Nat.lt_succ_self _
  · cases h

namespace OperatorBody

variable {b : OperatorBody} {w : OperatorWait}

theorem fits_begin (now : Nat) (kind : String) (b : OperatorBody) :
    (b.begin now kind).2.Fits (·.upward = true) (·.early = true) := by
  unfold begin
  split <;> first | trivial | rfl | (split <;> trivial)

theorem fits_early (now : Nat) (answer : Outcome) (h : w.early = true) :
    (b.resume now w answer).2.Fits (·.upward = true) fun _ => False := by
  cases w with
  | noted kind =>
      simp only [resume]
      split
      · split <;> trivial
      · rfl
  | _ => cases h

theorem fits_nextCall (mode : CallMode) (target : String) (callee : FlowId)
    (done items : List Value) :
    (nextCall mode target callee done items).Fits (fun _ => False) fun w =>
      w.late = true ∧ w.left < items.length := by
  cases items with
  | nil => trivial
  | cons item rest => cases mode <;> exact ⟨rfl, Nat.lt_succ_self _⟩

theorem fits_afterSink (sink : Sink) (v : Value) (m : SinkBody × SinkMove) :
    (afterSink sink v m).2.Fits (fun _ => False) fun w =>
      w.late = true ∧ ∃ r w', m.2 = .ask r w' ∧ w = .sink v w' := by
  obtain ⟨body, move⟩ := m
  cases move with
  | done d => trivial
  | ask r w => exact ⟨rfl, r, w, rfl, rfl⟩

theorem fits_late (now : Nat) (answer : Outcome) (h : w.late = true) :
    (b.resume now w answer).2.Fits (fun _ => False) fun w' => w'.late = true ∧ w'.left < w.left := by
  cases w with
  | called => trivial
  | mapping done rest | keeping done item rest =>
      cases answer with
      | error e => trivial
      | ok v =>
          simp only [resume]
          split
          · exact fits_nextCall _ _ _ _ _
          · trivial
  | sink v w =>
      simp only [resume]
      split
      · next sink =>
        refine (fits_afterSink sink v _).mono (fun _ => id) fun w' hw' => ⟨hw'.1, ?_⟩
        obtain ⟨r, w'', hask, rfl⟩ := hw'.2
        obtain ⟨u, rfl, rfl⟩ := SinkBody.noted_of_ask hask
        exact Nat.zero_lt_one
      · trivial
  | _ => cases h

/-- An operator that the node above has answered goes up again only for a `feed` with nothing to
give. -/
theorem fits_upward (now : Nat) (answer : Outcome) (h : w.upward = true) :
    (b.feeds = true ∧ answer = .ok (.list []) ∧ (b.resume now w answer).2 = .up .above) ∨
      (b.resume now w answer).2.Fits (fun _ => False) (·.late = true) := by
  cases w with
  | above =>
      cases answer with
      | error e => exact .inr (by cases b <;> trivial)
      | ok v =>
          change (_ ∧ _ ∧ (receive now v b).2 = _) ∨ (receive now v b).2.Fits _ _
          unfold receive
          split
          · exact .inr trivial
          · split
            · exact .inr trivial
            · exact .inl ⟨rfl, rfl, rfl⟩
            · exact .inr trivial
            · exact .inr trivial
          · exact .inr trivial
          · exact .inr trivial
          · exact .inr trivial
          · exact .inr trivial
          · next sink => exact .inr ((fits_afterSink sink v _).mono (fun _ => id) fun _ hw => hw.1)
          · next mode target callee =>
            refine .inr ?_
            unfold startCalls
            split
            · trivial
            · split
              · rfl
              · split
                · trivial
                · exact (fits_nextCall _ _ _ _ _).mono (fun _ => id) fun _ hw => hw.1
          · exact .inr trivial
  | recorded kind =>
      refine .inr ?_
      cases answer with
      | error e => trivial
      | ok v => cases b <;> trivial
  | _ => cases h

end OperatorBody

namespace Chain

/-- All operators below the read wait for the node above. -/
def Calls (waiting : List (Operator × OperatorWait)) : Prop := ∀ x ∈ waiting, x.2.upward = true

/-- A chain at a point of a read. -/
inductive Standing (c : Chain) : PullPoint → Prop where
  | enter : Calls c.waiting → Standing c .enter
  | source {w : SourceWait} : Calls c.waiting → Standing c (.source w)
  | reply {out : Outcome} : Calls c.waiting → Standing c (.reply out)
  | early {op : Operator} {w : OperatorWait} {waiting : List (Operator × OperatorWait)} :
      c.waiting = (op, w) :: waiting → w.early = true → Calls waiting → Standing c .asked
  | late {op : Operator} {w : OperatorWait} {waiting : List (Operator × OperatorWait)} :
      c.waiting = (op, w) :: waiting → w.late = true → Calls waiting → Standing c .asked

/-- Whether a read is on its way up. -/
def rises (c : Chain) : PullPoint → Bool
  | .enter => true
  | .asked => c.waiting.head?.any (·.2.early)
  | _ => false

/-- How far a read has to go: on its way up all the way to the source, then down to the reader; at
each node for the answers that it still asks for. -/
def distance (c : Chain) : PullPoint → ℕ ×ₗ ℕ ×ₗ ℕ
  | .enter => toLex (1, toLex (2 * c.idle.length, 0))
  | .source w => toLex (0, toLex (2 * c.waiting.length + 2, w.left))
  | .reply _ => toLex (0, toLex (2 * c.waiting.length + 1, 0))
  | .asked =>
      match c.waiting with
      | (_, w) :: _ =>
          if w.early then toLex (1, toLex (2 * c.idle.length + 1, 0))
          else toLex (0, toLex (2 * c.waiting.length, w.left))
      | [] => toLex (0, toLex (0, 0))

theorem early_of_late {w : OperatorWait} (h : w.late = true) : w.early = false := by
  cases w <;> first | rfl | cases h

theorem distance_lt {a b c a' b' c' : ℕ} (h : a < a' ∨ a = a' ∧ (b < b' ∨ b = b' ∧ c < c')) :
    toLex (a, toLex (b, c)) < (toLex (a', toLex (b', c')) : ℕ ×ₗ ℕ ×ₗ ℕ) := by
  simpa [Prod.Lex.lt_iff] using h

/-- What a step of a read does: it comes closer to the end, unless a `feed` is handed an empty list;
the source is asked at the end of the way up, and only such a `feed` turns a read round. -/
structure Beat.Advances (b : Beat) (p : PullPoint) : Prop where
  standing : Standing b.after p
  closer : b.feedsEmpty = false → b.after.distance p < b.before.distance b.point
  turns : b.asksSource.toNat + (b.after.rises p).toNat ≤
    (b.before.rises b.point).toNat + b.feedsEmpty.toNat

/-- A source answers or asks. -/
theorem afterSource_next {c : Chain} {m : SourceBody × SourceMove} {p : PullPoint}
    (h : (c.afterSource m).2.next? = some p) :
    (c.afterSource m).1.waiting = c.waiting ∧
      ((∃ out, p = .reply out) ∨ ∃ r w, m.2 = .ask r w ∧ p = .source w) := by
  obtain ⟨body, move⟩ := m
  cases move with
  | reply out =>
      cases h
      exact ⟨rfl, .inl ⟨_, rfl⟩⟩
  | ask r w =>
      cases h
      exact ⟨rfl, .inr ⟨r, w, rfl, rfl⟩⟩

/-- An operator answers, goes up or asks. -/
theorem afterOperator_next {c : Chain} {op : Operator} {m : OperatorBody × OperatorMove}
    {p : PullPoint} (h : (c.afterOperator op m).2.next? = some p) :
    ((∃ out, p = .reply out) ∧ (c.afterOperator op m).1.waiting = c.waiting) ∨
      ∃ w op', (c.afterOperator op m).1.waiting = (op', w) :: c.waiting ∧
        (c.afterOperator op m).1.idle = c.idle ∧
        ((m.2 = .up w ∧ p = .enter) ∨ ∃ r, m.2 = .ask r w ∧ p = .asked) := by
  obtain ⟨body, move⟩ := m
  cases move with
  | reply out =>
      cases h
      exact .inl ⟨⟨_, rfl⟩, rfl⟩
  | up w =>
      cases h
      exact .inr ⟨w, _, rfl, rfl, .inl ⟨rfl, rfl⟩⟩
  | ask r w =>
      cases h
      exact .inr ⟨w, _, rfl, rfl, .inr ⟨r, rfl, rfl⟩⟩

theorem calls_cons {op : Operator} {w : OperatorWait} {waiting : List (Operator × OperatorWait)}
    (hw : w.upward = true) (h : Calls waiting) : Calls ((op, w) :: waiting) := by
  rintro x hx
  obtain rfl | hx := List.mem_cons.mp hx
  · exact hw
  · exact h x hx

theorem rises_asked {c : Chain} {op : Operator} {w : OperatorWait}
    {waiting : List (Operator × OperatorWait)} (h : c.waiting = (op, w) :: waiting) :
    c.rises .asked = w.early := by
  rw [rises, h]
  rfl

theorem distance_early {c : Chain} {op : Operator} {w : OperatorWait}
    {waiting : List (Operator × OperatorWait)} (h : c.waiting = (op, w) :: waiting)
    (hw : w.early = true) :
    c.distance .asked = toLex (1, toLex (2 * c.idle.length + 1, 0)) := by
  simp only [distance, h, hw, if_true]

theorem distance_late {c : Chain} {op : Operator} {w : OperatorWait}
    {waiting : List (Operator × OperatorWait)} (h : c.waiting = (op, w) :: waiting)
    (hw : w.late = true) :
    c.distance .asked = toLex (0, toLex (2 * (waiting.length + 1), w.left)) := by
  simp only [distance, h, early_of_late hw, Bool.false_eq_true, if_false, List.length_cons]

namespace Beat

variable {c : Chain} {now : Nat} {answer out : Outcome} {p : PullPoint}

theorem advances_source {b : Beat} {m : SourceBody × SourceMove}
    (hresult : b.result = c.afterSource m) (hcalls : Calls c.waiting) (hnext : b.move.next? = some p)
    (hturns : b.asksSource.toNat ≤ (b.before.rises b.point).toNat)
    (hreply : toLex (0, toLex (2 * c.waiting.length + 1, 0)) < b.before.distance b.point)
    (hask : ∀ r w, m.2 = .ask r w →
      toLex (0, toLex (2 * c.waiting.length + 2, w.left)) < b.before.distance b.point) :
    b.Advances p := by
  have hafter : b.after = (c.afterSource m).1 := congrArg Prod.fst hresult
  have hmove : b.move = (c.afterSource m).2 := congrArg Prod.snd hresult
  rw [hmove] at hnext
  obtain ⟨hwaiting, ⟨out, rfl⟩ | ⟨r, w, hm, rfl⟩⟩ := afterSource_next hnext
  · refine ⟨?_, fun _ => ?_, by simpa [rises] using Nat.le_add_right_of_le hturns⟩
    · rw [hafter]
      exact .reply (hwaiting ▸ hcalls)
    · rw [hafter, distance, hwaiting]
      exact hreply
  · refine ⟨?_, fun _ => ?_, by simpa [rises] using Nat.le_add_right_of_le hturns⟩
    · rw [hafter]
      exact .source (hwaiting ▸ hcalls)
    · rw [hafter, distance, hwaiting]
      exact hask r w hm

theorem advances_operator {b : Beat} {op : Operator} {m : OperatorBody × OperatorMove}
    (hresult : b.result = c.afterOperator op m) (hcalls : Calls c.waiting)
    (hnext : b.move.next? = some p) (hsource : b.asksSource = false)
    (hreply : toLex (0, toLex (2 * c.waiting.length + 1, 0)) < b.before.distance b.point)
    (hfits : m.2.Fits
      (fun w => w.upward = true ∧ (b.feedsEmpty = true ∨ b.before.rises b.point = true ∧
        toLex (1, toLex (2 * c.idle.length, 0)) < b.before.distance b.point))
      fun w => (w.early = true ∧ b.before.rises b.point = true ∧
          toLex (1, toLex (2 * c.idle.length + 1, 0)) < b.before.distance b.point) ∨
        w.late = true ∧
          toLex (0, toLex (2 * (c.waiting.length + 1), w.left)) < b.before.distance b.point) :
    b.Advances p := by
  have hafter : b.after = (c.afterOperator op m).1 := congrArg Prod.fst hresult
  have hmove : b.move = (c.afterOperator op m).2 := congrArg Prod.snd hresult
  rw [hmove] at hnext
  obtain ⟨⟨out, rfl⟩, hwaiting⟩ | ⟨w, op', hwaiting, hidle, ⟨hm, rfl⟩ | ⟨r, hm, rfl⟩⟩ :=
    afterOperator_next hnext
  · refine ⟨?_, fun _ => ?_, ?_⟩
    · rw [hafter]
      exact .reply (hwaiting ▸ hcalls)
    · rw [hafter, distance, hwaiting]
      exact hreply
    · rw [hsource]
      exact Nat.zero_le _
  · rw [hm] at hfits
    obtain ⟨hupward, hcloser⟩ := hfits
    refine ⟨?_, fun hfeeds => ?_, ?_⟩
    · rw [hafter]
      exact .enter (hwaiting ▸ calls_cons hupward hcalls)
    · obtain hempty | ⟨_, hcloser⟩ := hcloser
      · rw [hfeeds] at hempty
        cases hempty
      · rw [hafter, distance, hidle]
        exact hcloser
    · rw [hsource]
      obtain hempty | ⟨hrises, _⟩ := hcloser
      · rw [hempty]
        exact Nat.le_add_left _ _
      · rw [hrises]
        exact Nat.le_add_right _ _
  · rw [hm] at hfits
    obtain ⟨hearly, hrises, hcloser⟩ | ⟨hlate, hcloser⟩ := hfits
    · refine ⟨?_, fun _ => ?_, ?_⟩
      · rw [hafter]
        exact .early hwaiting hearly hcalls
      · rw [hafter, distance_early hwaiting hearly, hidle]
        exact hcloser
      · rw [hsource, hrises]
        exact Nat.le_add_right_of_le (by cases rises _ _ <;> decide)
    · refine ⟨?_, fun _ => ?_, ?_⟩
      · rw [hafter]
        exact .late hwaiting hlate hcalls
      · rw [hafter, distance_late hwaiting hlate]
        exact hcloser
      · rw [hsource, hafter, rises_asked hwaiting, early_of_late hlate]
        exact Nat.zero_le _

theorem advances_enter (h : Calls c.waiting)
    (hnext : (Beat.move ⟨c, .enter, now, answer⟩).next? = some p) :
    Advances ⟨c, .enter, now, answer⟩ p := by
  cases hidle : c.idle with
  | nil =>
      have hresult : result ⟨c, .enter, now, answer⟩ = c.afterSource c.source.body.begin := by
        simp only [result, step, Chain.enter, hidle]
      refine advances_source hresult h hnext ?_ (distance_lt (.inl Nat.zero_lt_one))
        fun _ _ _ => distance_lt (.inl Nat.zero_lt_one)
      simp [asksSource, rises, hidle]
  | cons op idle =>
      have hresult : result ⟨c, .enter, now, answer⟩ = afterOperator { c with idle := idle } op
          (op.body.begin now (nextKind { c with idle := idle })) := by
        simp only [result, step, Chain.enter, hidle]
      have hlength : c.idle.length = idle.length + 1 := by rw [hidle, List.length_cons]
      refine advances_operator (c := { c with idle := idle }) hresult h hnext ?_
        (distance_lt (.inl Nat.zero_lt_one))
        ((op.body.fits_begin now _).mono (fun w hw => ⟨hw, .inr ⟨rfl, ?_⟩⟩)
          fun w hw => .inl ⟨hw, rfl, ?_⟩)
      · simp [asksSource, hidle]
      · exact distance_lt (.inr ⟨rfl, .inl (by rw [hlength]; dsimp only; omega)⟩)
      · exact distance_lt (.inr ⟨rfl, .inl (by rw [hlength]; dsimp only; omega)⟩)

/-- An outcome is handed to the nearest waiting operator. -/
theorem result_deliver {op : Operator} {w : OperatorWait}
    {waiting : List (Operator × OperatorWait)} (hwaiting : c.waiting = (op, w) :: waiting) :
    c.deliver now out =
      afterOperator { c with waiting := waiting } op (op.body.resume now w out) := by
  simp only [deliver, hwaiting]

theorem advances {b : Beat} (h : Standing b.before b.point) (hnext : b.move.next? = some p) :
    b.Advances p := by
  obtain ⟨c, point, now, answer⟩ := b
  cases h with
  | enter hcalls => exact advances_enter hcalls hnext
  | @source w hcalls =>
      have hresult : result ⟨c, .source w, now, answer⟩ =
          c.afterSource (c.source.body.resume w answer) := rfl
      exact advances_source hresult hcalls hnext (Nat.zero_le _)
        (distance_lt (.inr ⟨rfl, .inl (Nat.lt_succ_self _)⟩))
        fun r w' hask => distance_lt (.inr ⟨rfl, .inr ⟨rfl, SourceBody.left_resume hask⟩⟩)
  | @early op w waiting hwaiting hearly hcalls =>
      refine advances_operator (c := { c with waiting := waiting }) (result_deliver hwaiting) hcalls
        hnext rfl ?_ ((OperatorBody.fits_early now answer hearly).mono
          (fun w' hw' => ⟨hw', .inr ⟨?_, ?_⟩⟩) fun _ hno => hno.elim)
      · rw [distance_early hwaiting hearly]
        exact distance_lt (.inl Nat.zero_lt_one)
      · exact (rises_asked hwaiting).trans hearly
      · rw [distance_early hwaiting hearly]
        exact distance_lt (.inr ⟨rfl, .inl (Nat.lt_succ_self _)⟩)
  | @late op w waiting hwaiting hlate hcalls =>
      refine advances_operator (c := { c with waiting := waiting }) (result_deliver hwaiting) hcalls
        hnext rfl ?_ ((OperatorBody.fits_late now answer hlate).mono (fun _ hno => hno.elim)
          fun w' hw' => .inr ⟨hw'.1, ?_⟩)
      · rw [distance_late hwaiting hlate]
        exact distance_lt (.inr ⟨rfl, .inl (by dsimp only; omega)⟩)
      · rw [distance_late hwaiting hlate]
        exact distance_lt (.inr ⟨rfl, .inr ⟨rfl, hw'.2⟩⟩)
  | @reply out hcalls =>
      cases hwaiting : c.waiting with
      | nil =>
          have hdone : (Beat.move ⟨c, .reply out, now, answer⟩) = .done out := by
            simp only [move, result, step, deliver, hwaiting]
          rw [hdone] at hnext
          cases hnext
      | cons x waiting =>
          obtain ⟨op, w⟩ := x
          rw [hwaiting] at hcalls
          have hw : w.upward = true := hcalls (op, w) List.mem_cons_self
          have hrest : Calls waiting := fun x hx => hcalls x (List.mem_cons_of_mem _ hx)
          have hdistance : c.distance (.reply out) =
              toLex (0, toLex (2 * (waiting.length + 1) + 1, 0)) := by
            rw [distance, hwaiting, List.length_cons]
          refine advances_operator (c := { c with waiting := waiting }) (result_deliver hwaiting)
            hrest hnext rfl ?_ ?_
          · rw [hdistance]
            exact distance_lt (.inr ⟨rfl, .inl (by dsimp only; omega)⟩)
          · obtain ⟨hfeeds, rfl, hup⟩ | hfits := OperatorBody.fits_upward now out hw
            · rw [hup]
              refine ⟨rfl, .inl ?_⟩
              simpa only [feedsEmpty, hwaiting] using hfeeds
            · refine hfits.mono (fun _ hno => hno.elim) fun w' hw' => .inr ⟨hw', ?_⟩
              rw [hdistance]
              exact distance_lt (.inr ⟨rfl, .inl (Nat.lt_succ_self _)⟩)

/-- A read is over where an outcome comes down and no operator waits for it. -/
theorem reply_of_done {b : Beat} (hasked : b.point ≠ .asked) (hdone : b.move = .done out) :
    b.point = .reply out ∧ b.before.waiting = [] ∧ b.after = b.before := by
  obtain ⟨c, point, now, answer⟩ := b
  have hsource (m : SourceBody × SourceMove) : (c.afterSource m).2 ≠ .done out := by
    obtain ⟨body, _ | _⟩ := m <;> exact nofun
  have hoperator {c : Chain} (component : Operator) (m : OperatorBody × OperatorMove) :
      (c.afterOperator component m).2 ≠ .done out := by
    obtain ⟨body, _ | _ | _⟩ := m <;> exact nofun
  cases point with
  | enter =>
      simp only [move, result, step, Chain.enter] at hdone
      split at hdone
      · exact (hsource _ hdone).elim
      · exact (hoperator _ _ hdone).elim
  | source w => exact (hsource _ hdone).elim
  | asked => exact (hasked rfl).elim
  | reply out' =>
      simp only [move, after, result, step, deliver] at hdone ⊢
      split at hdone
      · next hwaiting =>
        cases hdone
        simp only [hwaiting, and_self]
      · exact (hoperator _ _ hdone).elim

end Beat

variable {c₀ c : Chain} {log : List Beat} {p : PullPoint} {beats : Nat → Beat}

/-- How often the source was asked for a value. -/
def asked (log : List Beat) : Nat := log.countP (·.asksSource)

/-- How often a `feed` was handed an empty list. -/
def emptied (log : List Beat) : Nat := log.countP (·.feedsEmpty)

theorem countP_cons_toNat {α : Type} (q : α → Bool) (x : α) (l : List α) :
    (x :: l).countP q = l.countP q + (q x).toNat := by
  rw [List.countP_cons]
  cases q x <;> rfl

/-- A read that began where nothing was read stands at one of its points, and was turned round as
often as a `feed` was handed an empty list. -/
theorem Reading.invariant (h : Reading c₀ log c p) (hidle : c₀.waiting = []) :
    Standing c p ∧ asked log + (c.rises p).toNat ≤ emptied log + 1 := by
  induction h with
  | enters _ =>
      refine ⟨.enter ?_, Nat.le_refl 1⟩
      rw [hidle]
      exact fun x hx => by cases hx
  | @goes log b p _ hnext ih =>
      obtain ⟨hstanding, hturns⟩ := ih
      have hadvances := b.advances hstanding hnext
      have hstep := hadvances.turns
      rw [asked, emptied, countP_cons_toNat, countP_cons_toNat, ← asked, ← emptied]
      exact ⟨hadvances.standing, by omega⟩

/-- In a read that never ends, a `feed` is handed an empty list again and again. -/
theorem Endless.empties (h : Endless c₀ beats) (hidle : c₀.waiting = []) (n : Nat) :
    ∃ k, n ≤ k ∧ (beats k).feedsEmpty = true := by
  by_contra hnone
  have hcloser (k : Nat) : (beats (n + k + 1)).before.distance (beats (n + k + 1)).point <
      (beats (n + k)).before.distance (beats (n + k)).point := by
    have hempty : (beats (n + k)).feedsEmpty = false :=
      Bool.eq_false_iff.mpr fun hempty => hnone ⟨n + k, Nat.le_add_right n k, hempty⟩
    obtain ⟨hbefore, hnext⟩ := h.goes (n + k)
    have hadvances := (beats (n + k)).advances ((h.reading (n + k)).invariant hidle).1 hnext
    rw [hbefore]
    exact hadvances.closer hempty
  obtain ⟨k, hk⟩ := WellFounded.not_rel_apply_succ (r := (· < ·))
    fun k => (beats (n + k)).before.distance (beats (n + k)).point
  exact hk (hcloser k)

/-- A read asks the source once, and once more for each empty list that a `feed` is handed, at most.
Unless a `feed` is handed empty lists for ever, it ends. -/
theorem feed_reads_end (hidle : c₀.waiting = []) :
    (∀ log c p, Reading c₀ log c p → asked log ≤ emptied log + 1) ∧
    ∀ beats, Endless c₀ beats → ∀ n, ∃ k, n ≤ k ∧ (beats k).feedsEmpty = true :=
  ⟨fun _ _ _ h => Nat.le_of_add_right_le (h.invariant hidle).2, fun _ h => h.empties hidle⟩

/-- The steps of a read all of whose requests get one answer. After its end they mean nothing. -/
def beatAt (c : Chain) (answer : Outcome) : Nat → Beat
  | 0 => ⟨c, .enter, 0, answer⟩
  | k + 1 =>
      let b := beatAt c answer k
      ⟨b.after, b.move.next?.getD .enter, 0, answer⟩

theorem reading_beatAt {answer : Outcome} {k : Nat} (hstart : c.start = .go .enter)
    (hnext : ∀ i < k, (beatAt c answer i).move.next?.isSome = true) :
    Reading c (logOf (beatAt c answer) k) (beatAt c answer k).before (beatAt c answer k).point := by
  induction k with
  | zero => exact .enters hstart
  | succ k ih =>
      obtain ⟨p, hp⟩ := Option.isSome_iff_exists.mp (hnext k (Nat.lt_succ_self k))
      rw [logOf_succ, beatAt, hp]
      exact (ih fun i hi => hnext i (Nat.lt_succ_of_lt hi)).goes hp

/-- Lists from a source, taken apart. -/
def fed (source : SourceBody) : Chain :=
  (make (.make "source" source ⟨[], []⟩) [.make "feed" (.feed []) ⟨[], []⟩]).link

/-- A feed that is handed an empty list asks once more and gives the item that is in the next. -/
theorem feed_skips_empty_list :
    let c := fed (.sequence [.list [], .list [.bool true]])
    let beats := beatAt c (.ok .null)
    (∀ log c' p, Reading c log c' p → asked log ≤ emptied log + 1) ∧
    (∀ beats, Endless c beats → ∀ n, ∃ k, n ≤ k ∧ (beats k).feedsEmpty = true) ∧
    Reading c (logOf beats 5) (beats 5).before (beats 5).point ∧
    (beats 5).move = .done (.ok (.bool true)) ∧
    asked (logOf beats 5) = 2 ∧ emptied (logOf beats 5) = 1 := by
  intro c beats
  have hidle : c.waiting = [] := rfl
  have hnext : ∀ i < 5, (beats i).move.next?.isSome = true := by decide +kernel
  have hends := feed_reads_end hidle
  exact ⟨hends.1, hends.2, reading_beatAt rfl hnext, rfl, by decide +kernel, by decide +kernel⟩

/-- A read that comes back to a step it has taken goes on in a circle. -/
theorem beatAt_circle {answer : Outcome} {i j : Nat}
    (h : beatAt c answer (i + j) = beatAt c answer i) (k : Nat) :
    beatAt c answer (i + k + j) = beatAt c answer (i + k) := by
  induction k with
  | zero => exact h
  | succ k ih =>
      rw [show i + (k + 1) + j = i + k + j + 1 by omega, ← Nat.add_assoc i k 1, beatAt, beatAt, ih]

/-- A variable with an empty list keeps a feed reading for ever. -/
theorem feed_spins_on_empty_variable :
    let beats := beatAt (fed (.var "x" true (some 0))) (.ok (.list []))
    Endless (fed (.var "x" true (some 0))) beats ∧
      ∀ n, ∃ k, n ≤ asked (logOf beats k) := by
  intro beats
  have hcircle (k : Nat) : beats (1 + k + 3) = beats (1 + k) := beatAt_circle rfl k
  have hnext (k : Nat) : (beats k).move.next?.isSome = true := by
    induction k using Nat.strong_induction_on with
    | _ k ih =>
      match k with
      | 0 | 1 | 2 | 3 => rfl
      | k + 4 =>
        rw [show k + 4 = 1 + k + 3 by omega, hcircle k]
        exact ih (1 + k) (by omega)
  have hasks (n : Nat) : (beats (1 + 3 * n)).asksSource = true := by
    induction n with
    | zero => rfl
    | succ n ih =>
        rw [show 1 + 3 * (n + 1) = 1 + 3 * n + 3 by omega, hcircle (3 * n)]
        exact ih
  refine ⟨⟨rfl, ⟨rfl, rfl⟩, fun k => ⟨rfl, ?_⟩⟩, fun n => ?_⟩
  · obtain ⟨p, hp⟩ := Option.isSome_iff_exists.mp (hnext k)
    change (beats k).move.next? = some ((beats k).move.next?.getD .enter)
    rw [hp, Option.getD_some]
  · refine ⟨1 + 3 * n, ?_⟩
    induction n with
    | zero => exact Nat.zero_le _
    | succ n ih =>
        rw [show 1 + 3 * (n + 1) = 1 + 3 * n + 1 + 1 + 1 by omega]
        simp only [asked, logOf_succ, countP_cons_toNat, hasks n, Bool.toNat_true] at ih ⊢
        omega

end Chain
end PullFlow
