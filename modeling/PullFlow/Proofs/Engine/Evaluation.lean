import PullFlow.Proofs.Exchanges
import PullFlow.Proofs.Engine.OwnLock
import PullFlow.Proofs.Engine.Payload
import PullFlow.Proofs.Engine.Writers

/-!
The evaluation of a chain by a thread. The thread has the lock of the flow, and what it does
meanwhile on behalf of the chain stands above the evaluation on its stack. So nobody else touches
the chain, and the turns that the thread takes right there are the steps of one read, whatever the
other threads do in between. What a step asks for is served right above, until the next step is told
what it came to.
-/

namespace PullFlow.Engine.World

def chain? (w : World) (f : FlowId) : Option Chain := (w.pipeline? f).map (·.chain)

/-- The step of a read of the chain of a flow that a turn is, if a thread takes it with `n`
activities below. -/
def Taken.beat? (t : ThreadId) (f : FlowId) (n : Nat) (taken : Taken) : Option Chain.Beat :=
  match taken.activity with
  | .pull g p =>
      if taken.thread = t ∧ g = f ∧ (taken.before.stackOf t).length = n + 1 then
        (taken.before.chain? f).map fun c => ⟨c, p, taken.before.clock, taken.before.answerOf t⟩
      else none
  | _ => none

/-- The steps of reads of the chain of a flow that a thread has taken with `n` activities below, the
latest first. -/
def beats (t : ThreadId) (f : FlowId) (n : Nat) (trace : List Taken) : List Chain.Beat :=
  trace.filterMap (Taken.beat? t f n)

variable {w w₁ w' : World} {t u : ThreadId} {f g : FlowId} {a b : Activity} {answer : Outcome}
  {rest back above : List Activity} {turn : Turn} {trace : List Taken} {P : Plan} {c c₀ : Chain}
  {taken : Taken} {p p₀ q : PullPoint} {log : List Chain.Beat} {cell : FlowCell} {r : Request}

theorem length_tasks (w : World) (t : ThreadId) : (w.tasks t).length = (w.stackOf t).length := by
  rw [tasks_eq, List.length_map]

theorem chain?_turn (w : World) (t : ThreadId) (turn : Turn) (f : FlowId) :
    (w.turn t turn).chain? f = w.chain? f := rfl

theorem Leaves.chain (h : Leaves w w₁) (f : FlowId) : w₁.chain? f = w.chain? f := by
  rw [chain?, h.pipeline, chain?]

/-! Who touches a chain. -/

/-- The components of a flow are moved under its lock, had or free. -/
theorem Works.chain {pipeline : Pipeline} {parked : Option Monitor}
    (h : Works w answer f cell a pipeline parked) : pipeline.chain = cell.pipeline.chain ∨
      (∃ q, a = .pull f q) ∨ a.holds? = some f ∨ a.awaits? = some f := by
  cases h with
  | pull => exact .inr (.inl ⟨_, rfl⟩)
  | inject | clear | start | stop => exact .inr (.inr (.inl rfl))
  | attach | setUp | wire => exact .inr (.inr (.inr rfl))
  | monitor =>
      refine .inl ?_
      unfold attachMonitor
      split <;> rfl
  | _ => exact .inl rfl

/-- While a thread evaluates the chain of a flow, nobody touches that chain but the evaluation. -/
theorem Takes.chain_stays (h : Takes w u a rest w₁ turn) (hw : WellLocked P w)
    (hmem : .pull f q ∈ w.tasks t) (hbelow : u = t → .pull f q ∈ rest) :
    w₁.chain? f = w.chain? f := by
  obtain ⟨hsame, _⟩ | ⟨cell, pipeline, parked, hcell, hworks, hp, _⟩ := h.acts.parts f
  · rw [chain?, hsame, chain?]
  have hholder : w.holderOf f = some t := hw.holder_of_uses hmem rfl
  have htasks := h.goes.tasks
  have hnested := hw.nested u
  have hcount : (locksOf (w.tasks u)).count f ≤ 1 := by
    rw [hw.locks]
    split <;> omega
  rw [htasks] at hnested hcount
  -- What changes the chain has the lock, so it stands on the same stack, above the evaluation.
  have honce (hself : w.holderOf f = some u) : f ∈ locksOf rest := by
    obtain rfl : t = u := Option.some.inj (hholder.symm.trans hself)
    exact mem_locksOf_of_mem hnested.tail (hbelow rfl) rfl
  obtain hsame | ⟨q', rfl⟩ | hholds | hawaits := hworks.chain
  · rw [chain?, hp, Option.map_some, hsame, chain?, pipeline?, hcell]
    rfl
  · have hself : w.holderOf f = some u := hw.holder_of_uses (b := quiet (.pull f q')) h.top rfl
    obtain ⟨b, below, rfl, hb⟩ : ∃ b below, rest = b :: below ∧ b.holds? = some f := hnested.rests
    have hlower : .pull f q ∈ below := by
      obtain rfl : t = u := Option.some.inj (hholder.symm.trans hself)
      obtain hsame | hlower := List.mem_cons.mp (hbelow rfl)
      · rw [← hsame] at hb
        cases hb
      · exact hlower
    have hpos := List.count_pos_iff.mpr (mem_locksOf_of_mem hnested.tail.tail hlower rfl)
    simp only [locksOf_cons, hb, holds?_quiet, Option.toList_some, List.count_append,
      List.count_singleton_self] at hcount
    omega
  · have hpos := List.count_pos_iff.mpr
      (honce (hw.holder_of_mem (by simp [htasks, hholds])))
    rw [locksOf_cons, holds?_quiet, hholds, Option.toList_some, List.singleton_append,
      List.count_cons_self] at hcount
    omega
  · obtain hstep | ⟨_, _, rfl, _⟩ := h.does
    · rw [activity_step_of_held hawaits hholder] at hstep
      cases hstep
    · cases hawaits

/-! One step of an evaluation. -/

/-- Whatever a component asks for, the one who asked waits below. -/
theorem serve_frames (w : World) (r : Request) (back : Activity) :
    ∃ above, (w.serve r back).2.frames = above ++ [back] := by
  unfold serve
  split
  all_goals first
    | exact ⟨[], rfl⟩
    | exact ⟨[_], rfl⟩
    | (split <;> first | exact ⟨[_], rfl⟩ | exact ⟨[], rfl⟩)

theorem setPipeline_self (h : w.flow? f = some cell) : w.setPipeline f cell.pipeline = w := by
  have hflows : w.flows.modify f (fun cell' => { cell' with pipeline := cell.pipeline }) =
      w.flows := by
    refine List.ext_getElem? fun g => ?_
    rw [List.getElem?_modify]
    split
    · next hsame =>
      subst hsame
      change w.flows[f]? = some cell at h
      rw [h]
      rfl
    · exact Option.map_id'
  rw [setPipeline, modifyFlow, hflows]

/-- The first step into a chain begins a read, unless the chain allows none. -/
theorem startPull_eq_some {next : Activity} (h : w.startPull f next = some (w₁, turn)) :
    w₁ = w ∧ ∃ c, w.chain? f = some c ∧
      ((∃ out, c.start = .done out ∧ turn = .goto next out) ∨
        c.start = .go .enter ∧ turn = .invoke (.pull f .enter) next) := by
  obtain ⟨cell, hcell, heq⟩ := Option.map_eq_some_iff.mp h
  have hchain : w.chain? f = some cell.pipeline.chain := by
    rw [chain?, pipeline?, hcell]
    rfl
  split at heq
  · next hstart =>
    cases heq
    exact ⟨rfl, _, hchain, .inl ⟨_, hstart, rfl⟩⟩
  · next hstart =>
    cases heq
    exact ⟨rfl, _, hchain, .inr ⟨Chain.start_eq_go hstart, rfl⟩⟩

/-- A turn of the evaluation is a step of the read. -/
theorem pull_step (h : w.pull f p answer = some (w₁, turn)) (hchain : w.chain? f = some c) :
    w₁.chain? f = some (c.step w.clock p answer).1 ∧
    match (c.step w.clock p answer).2 with
    | .go q => turn = .next (.pull f q)
    | .ask r q => ∃ w₂ : World, (w₁, turn) = w₂.serve r (.pull f q) ∧
        ((c.step w.clock p answer).1 = c → w₂ = w)
    | .done out => turn = .exit out := by
  obtain ⟨cell, hcell, heq⟩ := Option.map_eq_some_iff.mp h
  have hc : cell.pipeline.chain = c := by
    rw [chain?, pipeline?, hcell] at hchain
    exact Option.some.inj hchain
  rw [hc] at heq
  generalize c.step w.clock p answer = result at heq ⊢
  obtain ⟨chain, move⟩ := result
  have hset : (w.setPipeline f { cell.pipeline with chain := chain }).chain? f = some chain := by
    rw [chain?, pipeline?_setPipeline w hcell, if_pos rfl]
    rfl
  cases move with
  | go q =>
      cases heq
      exact ⟨hset, rfl⟩
  | ask r q =>
      dsimp only at heq
      have hserved := (Leaves.serve (w := w.setPipeline f { cell.pipeline with chain := chain }) r
        (.pull f q)).chain f
      rw [hset, heq] at hserved
      refine ⟨hserved, _, heq.symm, fun hsame => ?_⟩
      obtain rfl : chain = cell.pipeline.chain := hsame.trans hc.symm
      exact setPipeline_self hcell
  | done out =>
      cases heq
      exact ⟨hset, rfl⟩

/-- A thread evaluates the chain of a flow above `back`, and since the read of `c₀` stood at `p₀` it
has taken the steps of the log. -/
def Evaluates (w : World) (t : ThreadId) (f : FlowId) (back : List Activity) (c₀ : Chain)
    (p₀ : PullPoint) (log : List Chain.Beat) : Prop :=
  ∃ above q c, w.tasks t = above ++ .pull f q :: back ∧ w.chain? f = some c ∧
    c₀.Continues p₀ log c q

/-- The evaluation of a chain is over, and the thread goes on below it with the outcome. -/
def Evaluated (w : World) (t : ThreadId) (back : List Activity) (c₀ : Chain) (p₀ : PullPoint)
    (log : List Chain.Beat) (out : Outcome) : Prop :=
  w.tasks t = back ∧ w.answerOf t = out ∧
    ∃ b earlier, log = b :: earlier ∧ c₀.Continues p₀ earlier b.before b.point ∧ b.move = .done out

theorem beats_cons (taken : Taken) (t : ThreadId) (f : FlowId) (n : Nat) (trace : List Taken) :
    beats t f n (taken :: trace) = (taken.beat? t f n).toList ++ beats t f n trace := by
  cases h : taken.beat? t f n <;> simp [beats, h]

/-- Turns of other threads, and turns above the evaluation, are no steps of the read. -/
theorem beat?_eq_none {n : Nat} (h : u = t → (w.stackOf t).length ≠ n + 1) :
    Taken.beat? t f n ⟨w, u, a⟩ = none := by
  unfold Taken.beat?
  split
  · next hpull =>
    rw [if_neg fun hsame => h hsame.1 hsame.2.2]
  · rfl

/-- A turn right at the evaluation is a step of the read. -/
theorem beat?_eq_some (hlength : (w.stackOf t).length = back.length + 1)
    (hchain : w.chain? f = some c) :
    Taken.beat? t f back.length ⟨w, t, .pull f q⟩ = some ⟨c, q, w.clock, w.answerOf t⟩ := by
  simp [Taken.beat?, hlength, hchain]

/-- What a thread is busy with is on top of its stack. -/
theorem Takes.own (h : Takes w t a rest w₁ turn) (htasks : w.tasks t = b :: back)
    (hb : ∀ s key wait p, b ≠ .look s key wait p) : a = b ∧ rest = back := by
  obtain ⟨htop, hrest⟩ := List.cons.inj (h.goes.tasks.symm.trans htasks)
  exact ⟨(eq_of_quiet_eq htop.symm hb).symm, hrest⟩

/-- A turn of another thread leaves a busy one as it is. -/
theorem Takes.other (h : Takes w u a rest w₁ turn) (hu : u ≠ t) (hbusy : w.tasks t ≠ [])
    (f : FlowId) (n : Nat) : (w₁.turn u turn).tasks t = w.tasks t ∧
      (w₁.turn u turn).answerOf t = w.answerOf t ∧ Taken.beat? t f n ⟨w, u, a⟩ = none :=
  ⟨h.goes.tasks_of_busy (Ne.symm hu) hbusy, h.goes.answerOf_of_ne (Ne.symm hu),
    beat?_eq_none fun hself => absurd hself hu⟩

/-- A turn right at the evaluation is a step of the read, and perhaps the last one. -/
theorem Takes.evaluates (h : Takes w t (.pull f q) back w₁ turn) (hchain : w.chain? f = some c)
    (hlog : c₀.Continues p₀ log c q) :
    Evaluates (w₁.turn t turn) t f back c₀ p₀ (⟨c, q, w.clock, w.answerOf t⟩ :: log) ∨
      ∃ out, Evaluated (w₁.turn t turn) t back c₀ p₀
        (⟨c, q, w.clock, w.answerOf t⟩ :: log) out := by
  obtain hstep | ⟨_, _, hhost, _⟩ := h.does
  · obtain ⟨hafter, hmove⟩ := pull_step hstep hchain
    have htasks := h.goes.tasks_self
    have hnext {q' : PullPoint} (above : List Activity)
        (hgoes : (Chain.Beat.move ⟨c, q, w.clock, w.answerOf t⟩).next? = some q')
        (hframes : turn.frames = above ++ [.pull f q']) :
        Evaluates (w₁.turn t turn) t f back c₀ p₀ (⟨c, q, w.clock, w.answerOf t⟩ :: log) := by
      refine ⟨above.map quiet, q', _, ?_, hafter, hlog.goes hgoes⟩
      rw [htasks, hframes]
      simp [quiet]
    cases hm : (c.step w.clock q (w.answerOf t)).2 with
    | go q' =>
        rw [hm] at hmove
        exact .inl (hnext [] (congrArg PullMove.next? hm) (by rw [hmove]; rfl))
    | ask r q' =>
        rw [hm] at hmove
        obtain ⟨w₂, hserve, _⟩ := hmove
        obtain ⟨above, hframes⟩ := serve_frames w₂ r (.pull f q')
        rw [← hserve] at hframes
        exact .inl (hnext above (congrArg PullMove.next? hm) hframes)
    | done out =>
        rw [hm] at hmove
        subst hmove
        exact .inr ⟨out, htasks, h.goes.answerOf_self, _, log, rfl, hlog, hm⟩
  · cases hhost

/-- An evaluation goes on with every turn, or its thread has come to its end. -/
theorem Evaluates.takes (h : Evaluates w t f back c₀ p₀ log) (hw : WellLocked P w)
    (htakes : Takes w u a rest w₁ turn) :
    Evaluates (w₁.turn u turn) t f back c₀ p₀
        ((Taken.beat? t f back.length ⟨w, u, a⟩).toList ++ log) ∨
      ∃ out, Evaluated (w₁.turn u turn) t back c₀ p₀
        ((Taken.beat? t f back.length ⟨w, u, a⟩).toList ++ log) out := by
  obtain ⟨above, q, c, htasks, hchain, hlog⟩ := h
  have hmem : .pull f q ∈ w.tasks t := by simp [htasks]
  by_cases hu : u = t
  · subst hu
    cases above with
    | nil =>
        have hlength : (w.stackOf u).length = back.length + 1 := by
          rw [← length_tasks, htasks, List.nil_append, List.length_cons]
        obtain ⟨rfl, rfl⟩ := htakes.own htasks nofun
        rw [beat?_eq_some hlength hchain]
        exact htakes.evaluates hchain hlog
    | cons b above =>
        obtain ⟨hb, rfl⟩ := List.cons.inj (htasks.symm.trans htakes.goes.tasks)
        refine .inl ?_
        rw [beat?_eq_none fun _ => by rw [← length_tasks, htasks]; simp; omega]
        refine ⟨turn.frames.map quiet ++ above, q, c, ?_, ?_, hlog⟩
        · rw [htakes.goes.tasks_self, List.append_assoc]
          rfl
        · rw [chain?_turn, htakes.chain_stays hw hmem fun _ => by simp, hchain]
  · obtain ⟨hsame, _, hnone⟩ := htakes.other hu (List.ne_nil_of_mem hmem) f back.length
    refine .inl ?_
    rw [hnone]
    refine ⟨above, q, c, hsame.trans htasks, ?_, hlog⟩
    rw [chain?_turn, htakes.chain_stays hw hmem fun hself => absurd hself hu, hchain]

/-- An evaluation goes on with every turn as long as it does not come to its end. -/
theorem takes_of_open {Q : List Chain.Beat → Prop} (hopen : c₀.Open p₀ Q) (hw : WellLocked P w)
    (htakes : Takes w u a rest w₁ turn)
    (h : Q (beats t f back.length trace) →
      Evaluates w t f back c₀ p₀ (beats t f back.length trace))
    (hQ : Q (beats t f back.length (⟨w, u, a⟩ :: trace))) :
    Q (beats t f back.length trace) ∧
      Evaluates (w₁.turn u turn) t f back c₀ p₀ (beats t f back.length (⟨w, u, a⟩ :: trace)) := by
  rw [beats_cons] at hQ ⊢
  have hbefore : Q (beats t f back.length trace) := by
    cases hbeat : Taken.beat? t f back.length ⟨w, u, a⟩ with
    | none =>
        rw [hbeat] at hQ
        exact hQ
    | some b =>
        rw [hbeat] at hQ
        exact hopen.earlier b _ hQ
  refine ⟨hbefore, ?_⟩
  obtain hgoes | ⟨out, _, _, b, log, hlog, hcontinues, hdone⟩ := (h hbefore).takes hw htakes
  · exact hgoes
  · rw [hlog] at hQ
    exact absurd hdone (hopen.goes b log out hQ hcontinues)

/-! What an evaluation asks for. -/

theorem taken_of_beat {n : Nat} {b : Chain.Beat} (h : taken.beat? t f n = some b) :
    taken.thread = t ∧ (taken.before.tasks t).length = n + 1 ∧
      ∃ c q, taken.before.chain? f = some c ∧ taken.activity = .pull f q ∧
        b = ⟨c, q, taken.before.clock, taken.before.answerOf t⟩ := by
  unfold Taken.beat? at h
  split at h
  · next g q hactivity =>
    split at h
    · next hsame =>
      obtain ⟨hthread, rfl, hlength⟩ := hsame
      obtain ⟨c, hchain, rfl⟩ := Option.map_eq_some_iff.mp h
      exact ⟨hthread, (length_tasks _ t).trans hlength, c, q, hchain, hactivity, rfl⟩
    · cases h
  · cases h

/-- A step of the read is taken right at the evaluation, where the read has come to. -/
theorem Evaluates.at_beat {b : Chain.Beat} (h : Evaluates taken.before t f back c₀ p₀ log)
    (hdoing : taken.before.tasks taken.thread = quiet taken.activity :: rest)
    (hbeat : taken.beat? t f back.length = some b) :
    c₀.Continues p₀ log b.before b.point ∧ taken.before.tasks t = .pull f b.point :: back := by
  obtain ⟨rfl, hlength, c, q, hchain, hactivity, rfl⟩ := taken_of_beat hbeat
  obtain ⟨above, q', c', htasks, hchain', hlog⟩ := h
  obtain rfl : above = [] := List.eq_nil_of_length_eq_zero (by
    rw [htasks, List.length_append, List.length_cons] at hlength
    omega)
  rw [htasks, hactivity] at hdoing
  cases hdoing
  cases hchain.symm.trans hchain'
  exact ⟨hlog, htasks⟩

/-- A turn of the thread that is no step of the read is taken above the evaluation. -/
theorem Evaluates.above_of_none (h : Evaluates w t f back c₀ p₀ log)
    (htakes : Takes w t a rest w₁ turn) (hnone : Taken.beat? t f back.length ⟨w, t, a⟩ = none) :
    back.length + 1 < (w.tasks t).length := by
  obtain ⟨above, q, c, htasks, hchain, _⟩ := h
  cases above with
  | nil =>
      have hlength : (w.stackOf t).length = back.length + 1 := by
        rw [← length_tasks, htasks, List.nil_append, List.length_cons]
      obtain ⟨rfl, rfl⟩ := htakes.own htasks nofun
      rw [beat?_eq_some hlength hchain] at hnone
      cases hnone
  | cons b above =>
      simp only [htasks, List.length_append, List.length_cons]
      omega

/-- A turn of a run was taken after those before it. -/
theorem Run.upTo {earlier later : List Taken} (h : Run w trace w')
    (htrace : trace = later ++ taken :: earlier) :
    Run w earlier taken.before ∧ taken.before.doing? taken.thread = some taken.activity := by
  induction h generalizing later with
  | refl => simp at htrace
  | tick _ ih => exact ih htrace
  | step hrun ha _ ih | host hrun ha ih =>
      cases later with
      | nil =>
          cases htrace
          exact ⟨hrun, ha⟩
      | cons _ later => exact ih (List.cons.inj htrace).2

/-- What is known of a request since an evaluation has made it, and of what it has come to once the
evaluation goes on: of the turn that made it, of the request, of the state, of what lies below and
of the turns since. -/
structure Answering (P : Plan) (Keeps : World → Prop) (t : ThreadId) (f : FlowId)
    (back : List Activity) (c₀ : Chain) (p₀ : PullPoint) (Q : List Chain.Beat → Prop)
    (S : Taken → Request → World → List Activity → List Taken → Prop)
    (Came : Taken → Request → List Taken → Outcome → Prop) : Prop where
  locked : ∀ w, Keeps w → WellLocked P w
  keeps_tick : ∀ w nanos, Keeps w → Keeps (w.tick nanos)
  keeps : ∀ w u a rest w₁ turn, Takes w u a rest w₁ turn → Keeps w → Keeps (w₁.turn u turn)
  asked : ∀ b log out, c₀.Continues p₀ log b.before b.point → Q (b :: log) →
    b.told? = some out → ∃ a earlier r, log = a :: earlier ∧ a.request? = some r
  begins : ∀ w a w₁ turn b log r q w₂, c₀.Continues p₀ log b.before b.point → Q (b :: log) →
    b.move = .ask r q → Takes w t a back w₁ turn → (w₁, turn) = w₂.serve r (.pull f q) →
    (b.after = b.before → w₂ = w) →
    S ⟨w, t, a⟩ r (w₁.turn t turn) (.pull f q :: back) []
  tick : ∀ asks r w rest turns nanos, S asks r w rest turns → S asks r (w.tick nanos) rest turns
  takes : ∀ asks r w u a below w₁ turn rest turns, Keeps w → Takes w u a below w₁ turn →
    rest ≠ [] → (u = t → rest.length < (w.tasks t).length) → S asks r w rest turns →
    S asks r (w₁.turn u turn) rest (⟨w, u, a⟩ :: turns)
  comes : ∀ asks r w q turns, S asks r w (.pull f q :: back) turns →
    (w.tasks t).length = back.length + 1 → Came asks r turns (w.answerOf t)

/-- What an evaluation was told of its requests is what they came to: each outcome is that of the
request which it had made just before. -/
def Told (t : ThreadId) (f : FlowId) (back : List Activity) (trace : List Taken)
    (Came : Taken → Request → List Taken → Outcome → Prop) : Prop :=
  ∀ later tells before b out, trace = later ++ tells :: before →
    tells.beat? t f back.length = some b → b.told? = some out →
    ∃ between asks earlier a r, before = between ++ asks :: earlier ∧
      beats t f back.length between = [] ∧ asks.beat? t f back.length = some a ∧
      a.request? = some r ∧ Came asks r between out

/-- The request that an evaluation made last is being served right above. -/
def LastAsked (S : Taken → Request → World → List Activity → List Taken → Prop) (w : World)
    (t : ThreadId) (f : FlowId) (back : List Activity) (trace : List Taken) : Prop :=
  ∀ between asks earlier a r, trace = between ++ asks :: earlier →
    beats t f back.length between = [] → asks.beat? t f back.length = some a →
    a.request? = some r → ∃ q, S asks r w (.pull f q :: back) between

section Served

variable {Keeps : World → Prop} {Q : List Chain.Beat → Prop}
  {S : Taken → Request → World → List Activity → List Taken → Prop}
  {Came : Taken → Request → List Taken → Outcome → Prop}

theorem LastAsked.takes (h : LastAsked S w t f back trace)
    (hanswering : Answering P Keeps t f back c₀ p₀ Q S Came) (hkeeps : Keeps w)
    (hgoes : Evaluates w t f back c₀ p₀ (beats t f back.length trace))
    (htakes : Takes w u a rest w₁ turn)
    (hQ : Q (beats t f back.length (⟨w, u, a⟩ :: trace))) :
    LastAsked S (w₁.turn u turn) t f back (⟨w, u, a⟩ :: trace) := by
  intro between asks earlier b r htrace hbetween hbeat hrequest
  cases between with
  | nil =>
      obtain ⟨rfl, rfl⟩ := List.cons.inj htrace
      obtain ⟨hlog, htasks⟩ := hgoes.at_beat htakes.goes.tasks hbeat
      rw [beats_cons, hbeat] at hQ
      obtain ⟨q, hmove⟩ := Chain.move_of_request hrequest
      obtain ⟨rfl, _, c, q', hchain, rfl, rfl⟩ := taken_of_beat hbeat
      obtain ⟨_, rfl⟩ := htakes.own htasks nofun
      obtain hstep | ⟨_, _, hhost, _⟩ := htakes.does
      · have hserved := (pull_step hstep hchain).2
        rw [show (c.step w.clock q' (w.answerOf u)).2 = .ask r q from hmove] at hserved
        obtain ⟨w₂, hserved, hsame⟩ := hserved
        exact ⟨q, hanswering.begins w _ w₁ turn _ _ r q w₂ hlog hQ hmove htakes hserved hsame⟩
      · cases hhost
  | cons latest between =>
      obtain ⟨rfl, rfl⟩ := List.cons.inj htrace
      rw [beats_cons, List.append_eq_nil_iff, Option.toList_eq_nil_iff] at hbetween
      obtain ⟨q, hstage⟩ := h between asks earlier b r rfl hbetween.2 hbeat hrequest
      refine ⟨q, hanswering.takes asks r w u a rest w₁ turn _ between hkeeps htakes
        (List.cons_ne_nil _ _) (fun hu => ?_) hstage⟩
      subst hu
      exact hgoes.above_of_none htakes hbetween.1

/-- While an evaluation does not come to its end, what it has asked for last goes on. -/
theorem Run.lastAsked (h : Run w trace w') (hanswering : Answering P Keeps t f back c₀ p₀ Q S Came)
    (hkeeps : Keeps w) (htasks : w.tasks t = .pull f p₀ :: back) (hchain : w.chain? f = some c₀)
    (hopen : c₀.Open p₀ Q) (hQ : Q (beats t f back.length trace)) :
    Evaluates w' t f back c₀ p₀ (beats t f back.length trace) ∧ LastAsked S w' t f back trace := by
  refine (h.every (P := fun trace w => Keeps w ∧ (Q (beats t f back.length trace) →
    Evaluates w t f back c₀ p₀ (beats t f back.length trace) ∧ LastAsked S w t f back trace))
    ?_ ?_ ?_).2 hQ
  · refine ⟨hkeeps, fun _ => ⟨⟨[], p₀, c₀, htasks, hchain, .here⟩, ?_⟩⟩
    intro between asks earlier _ _ htrace
    simp at htrace
  · intro trace w nanos ⟨hkeeps, hgoes⟩
    refine ⟨hanswering.keeps_tick w nanos hkeeps, fun hQ => ⟨(hgoes hQ).1, ?_⟩⟩
    intro between asks earlier a r htrace hbetween hbeat hrequest
    obtain ⟨q, hstage⟩ := (hgoes hQ).2 between asks earlier a r htrace hbetween hbeat hrequest
    exact ⟨q, hanswering.tick _ _ _ _ _ nanos hstage⟩
  · intro trace w u a rest w₁ turn htakes ⟨hkeeps, hgoes⟩
    refine ⟨hanswering.keeps w u a rest w₁ turn htakes hkeeps, fun hQ => ?_⟩
    obtain ⟨hbefore, hafter⟩ :=
      takes_of_open hopen (hanswering.locked w hkeeps) htakes (fun hQ => (hgoes hQ).1) hQ
    obtain ⟨hevaluates, hlast⟩ := hgoes hbefore
    exact ⟨hafter, hlast.takes hanswering hkeeps hevaluates htakes hQ⟩

/-- What an evaluation that does not come to its end was told is what its requests came to. -/
theorem Run.told (h : Run w trace w') (hanswering : Answering P Keeps t f back c₀ p₀ Q S Came)
    (hkeeps : Keeps w) (htasks : w.tasks t = .pull f p₀ :: back) (hchain : w.chain? f = some c₀)
    (hopen : c₀.Open p₀ Q) (hQ : Q (beats t f back.length trace)) :
    Told t f back trace Came := by
  intro later tells before b out htrace hbeat htold
  obtain ⟨hbefore, hdoing⟩ := h.upTo htrace
  have hbeats : beats t f back.length trace =
      beats t f back.length later ++ b :: beats t f back.length before := by
    rw [htrace, beats, List.filterMap_append, List.filterMap_cons_some hbeat]
    rfl
  have hnow := hopen.of_suffix _ (hbeats ▸ hQ)
  obtain ⟨hgoes, hlast⟩ :=
    hbefore.lastAsked hanswering hkeeps htasks hchain hopen (hopen.earlier _ _ hnow)
  obtain ⟨rest, htop⟩ := tasks_of_doing hdoing
  obtain ⟨hlog, _⟩ := hgoes.at_beat htop hbeat
  obtain ⟨a, _, r, hlatest, hrequest⟩ := hanswering.asked b _ out hlog hnow htold
  obtain ⟨between, asks, earlier, rfl, hnone, hasks, _⟩ := List.filterMap_eq_cons_iff.mp hlatest
  have hbetween : beats t f back.length between = [] := List.filterMap_eq_nil_iff.mpr hnone
  obtain ⟨q, hstage⟩ := hlast between asks earlier a r rfl hbetween hasks hrequest
  refine ⟨between, asks, earlier, a, r, rfl, hbetween, hasks, hrequest, ?_⟩
  obtain ⟨_, hlength, _, _, _, _, rfl⟩ := taken_of_beat hbeat
  rw [Chain.answer_of_told htold]
  exact hanswering.comes asks r tells.before q between hstage hlength

end Served

end PullFlow.Engine.World
