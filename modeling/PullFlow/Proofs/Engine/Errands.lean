import PullFlow.Proofs.Engine.Evaluation

/-!
What a thread comes back with that goes to another flow to read its chain, be it to call the flow or
to read it on demand. It is turned away, or the chain is read once, from the state in which the
thread found it when it had got the lock, and with the payload of the call in its slot. The outcome
is the one of that read. Other threads may wait for the lock or take any other turns meanwhile; they
have no part in it.
-/

namespace PullFlow.Engine.World

/-- What a read of `c₀` comes to, all of whose steps a thread took with `n` activities below. -/
inductive ReadOf (t : ThreadId) (g : FlowId) (n : Nat) (turns : List Taken) (c₀ : Chain) :
    Outcome → Prop where
  /-- The chain allows no reads. -/
  | unlinked {out : Outcome} : c₀.start = .done out → beats t g n turns = [] →
      ReadOf t g n turns c₀ out
  | read {log : List Chain.Beat} {b : Chain.Beat} {out : Outcome} : c₀.start = .go .enter →
      c₀.Continues .enter log b.before b.point → b.move = .done out →
      beats t g n turns = b :: log → ReadOf t g n turns c₀ out

/-- What a thread is busy with that has gone to a flow to read its chain. -/
def visits : Activity → Bool
  | .call .. | .demand _ | .read .. => true
  | _ => false

/-- How a thread goes to a flow to read its chain. -/
structure Errand where
  flow : FlowId
  /-- What it is busy with before the read. -/
  ways : List Activity
  /-- With what it begins the read. -/
  starts : Activity
  /-- The chain that it reads of the components which it finds. -/
  reads : Pipeline → Chain
  /-- Where it waits for the outcome. -/
  waits : Activity
  /-- What it is busy with once it has the outcome. -/
  backs : Outcome → List Activity
  /-- What it comes back with if it is turned away. -/
  refusal : Outcome → Prop

/-- What a thread comes back with, with `n` activities below. -/
inductive Comes (t : ThreadId) (e : Errand) (n : Nat) (turns : List Taken) : Outcome → Prop where
  /-- The thread was turned away, and has read nothing. -/
  | turnedAway {out : Outcome} : e.refusal out → beats t e.flow (n + 1) turns = [] →
      Comes t e n turns out
  | read {taken : Taken} {found : Pipeline} {out : Outcome} : taken ∈ turns → taken.thread = t →
      taken.activity = e.starts → taken.before.pipeline? e.flow = some found →
      ReadOf t e.flow (n + 1) turns (e.reads found) out → Comes t e n turns out

/-- How far a thread is with an errand above `rest`; `turns` are those taken since. -/
inductive Errand.Stage (e : Errand) (w : World) (t : ThreadId) (rest : List Activity)
    (turns : List Taken) : Prop where
  | before {a : Activity} : a ∈ e.ways → w.tasks t = a :: rest →
      beats t e.flow (rest.length + 1) turns = [] → Stage e w t rest turns
  | reading {taken : Taken} {found : Pipeline} : taken ∈ turns → taken.thread = t →
      taken.activity = e.starts → taken.before.pipeline? e.flow = some found →
      (e.reads found).start = .go .enter →
      w.Evaluates t e.flow (e.waits :: rest) (e.reads found) .enter
        (beats t e.flow (rest.length + 1) turns) → Stage e w t rest turns
  | told {a : Activity} {out : Outcome} : a = e.waits ∧ w.answerOf t = out ∨ a ∈ e.backs out →
      w.tasks t = a :: rest → Comes t e rest.length turns out → Stage e w t rest turns
  | ended {out : Outcome} : w.tasks t = rest → w.answerOf t = out →
      Comes t e rest.length turns out → Stage e w t rest turns

/-- What a turn on the way to the read does. -/
inductive Errand.WayOn (e : Errand) (w : World) (a : Activity) (w₁ : World) : Turn → Prop where
  | on {b : Activity} {out : Outcome} : b ∈ e.ways → WayOn e w a w₁ (.goto b out)
  | away {out : Outcome} : e.refusal out → WayOn e w a w₁ (.exit out)
  | unlinked {found : Pipeline} {out : Outcome} : a = e.starts →
      w.pipeline? e.flow = some found → (e.reads found).start = .done out →
      WayOn e w a w₁ (.goto e.waits out)
  | starts {found : Pipeline} : a = e.starts → w.pipeline? e.flow = some found →
      w₁.chain? e.flow = some (e.reads found) → (e.reads found).start = .go .enter →
      WayOn e w a w₁ (.invoke (.pull e.flow .enter) e.waits)

/-- An errand goes on with each of its turns above `rest`: on the way to the read, and on the way
back with the outcome. -/
structure Errand.Proper (e : Errand) (Keeps : World → Prop) (rest : List Activity) : Prop where
  visits : ∀ a, a ∈ e.ways ∨ a = e.waits ∨ (∃ out, a ∈ e.backs out) → visits a = true
  wayOn : ∀ w t a w₁ turn, Keeps w → Takes w t a rest w₁ turn → a ∈ e.ways → e.WayOn w a w₁ turn
  backOn : ∀ w t a w₁ turn out, Takes w t a rest w₁ turn →
    a = e.waits ∧ w.answerOf t = out ∨ a ∈ e.backs out →
    (∃ b ∈ e.backs out, turn = .next b) ∨ turn = .exit out

/-- A call of a flow by a thread that is inside the given calls: it is turned away from a flow that
it is in a call of, and the chain is read with the payload in its slot. -/
def Errand.call (name : String) (g : FlowId) (payload : Value) (calls : List String) : Errand where
  flow := g
  ways := [.call name g payload .latch, .call name g payload .enter, .call name g payload .lock,
    .call name g payload .inject]
  starts := .call name g payload .inject
  reads p := (setInjected (some payload) p).chain
  waits := .call name g payload .pulled
  backs out := [.call name g payload (.clear out), .call name g payload (.unlock out),
    .call name g payload (.leave out)]
  refusal out := name ∈ calls ∧ out = .error (.configuration (.callRing (calls ++ [name])))

/-- A read of a flow on demand, once the flow has started. -/
def Errand.demand (g : FlowId) : Errand where
  flow := g
  ways := [.demand g, .read g .lock, .read g .start]
  starts := .read g .start
  reads p := p.chain
  waits := .read g .pulled
  backs out := [.read g (.unlock out)]
  refusal _ := False

variable {w w₁ w' : World} {t u : ThreadId} {f g : FlowId} {a b : Activity} {n : Nat} {e : Errand}
  {rest below back : List Activity} {turn : Turn} {turns trace : List Taken} {P : Plan}
  {name : String} {payload : Value} {taken : Taken} {c₀ : Chain} {out : Outcome}
  {Keeps : World → Prop}

theorem beats_cons_of_none (h : taken.beat? t g n = none) (turns : List Taken) :
    beats t g n (taken :: turns) = beats t g n turns := by
  rw [beats_cons, h]
  rfl

theorem quiet_of_visits (h : visits a = true) : quiet a = a := by
  cases a with
  | look => cases h
  | _ => rfl

theorem own_of_visits (h : Takes w t a rest w₁ turn) (htasks : w.tasks t = b :: back)
    (hb : visits b = true) : a = b ∧ rest = back :=
  h.own htasks fun s key wait p hlook => by
    rw [hlook] at hb
    cases hb

/-- A turn of a visit is no step of a read. -/
theorem beat?_of_visits (h : visits a = true) : Taken.beat? t g n ⟨w, u, a⟩ = none := by
  cases a with
  | pull => cases h
  | _ => rfl

/-- A turn that is no step of the read changes nothing in what it came to. -/
theorem ReadOf.later (h : ReadOf t g n turns c₀ out) (hnone : taken.beat? t g n = none) :
    ReadOf t g n (taken :: turns) c₀ out := by
  cases h with
  | unlinked hstart hbeats => exact .unlinked hstart ((beats_cons_of_none hnone _).trans hbeats)
  | read hstart hlog hdone hbeats =>
      exact .read hstart hlog hdone ((beats_cons_of_none hnone _).trans hbeats)

theorem Comes.later (h : Comes t e n turns out) (hnone : taken.beat? t e.flow (n + 1) = none) :
    Comes t e n (taken :: turns) out := by
  cases h with
  | turnedAway haway hbeats => exact .turnedAway haway ((beats_cons_of_none hnone _).trans hbeats)
  | read hmem hthread hactivity hfound hread =>
      exact .read (List.mem_cons_of_mem _ hmem) hthread hactivity hfound (hread.later hnone)

namespace Errand.Stage

theorem tick (h : e.Stage w t rest turns) (nanos : Nat) : e.Stage (w.tick nanos) t rest turns := by
  cases h with
  | before ha htasks hbeats => exact .before ha htasks hbeats
  | reading hmem hthread hactivity hfound hstart hgoes =>
      exact .reading hmem hthread hactivity hfound hstart hgoes
  | told ha htasks hcomes => exact .told ha htasks hcomes
  | ended htasks hanswer hcomes => exact .ended htasks hanswer hcomes

/-- A turn on the way to the read. -/
theorem before_takes (he : e.Proper Keeps rest) (hw : Keeps w) (h : Takes w t a rest w₁ turn)
    (ha : a ∈ e.ways) (hbeats : beats t e.flow (rest.length + 1) turns = []) :
    e.Stage (w₁.turn t turn) t rest (⟨w, t, a⟩ :: turns) := by
  have htasks := h.goes.tasks_self
  have hanswer := h.goes.answerOf_self
  have hempty : beats t e.flow (rest.length + 1) (⟨w, t, a⟩ :: turns) = [] :=
    (beats_cons_of_none (beat?_of_visits (he.visits a (.inl ha))) _).trans hbeats
  have hquiet {b : Activity} (hb : b ∈ e.ways ∨ b = e.waits ∨ ∃ out, b ∈ e.backs out) :
      quiet b = b := quiet_of_visits (he.visits b hb)
  cases he.wayOn w t a w₁ turn hw h ha with
  | on hb =>
      refine .before hb (htasks.trans ?_) hempty
      simp only [Turn.frames, List.map_cons, List.map_nil, hquiet (.inl hb)]
      rfl
  | away haway => exact .ended htasks hanswer (.turnedAway haway hempty)
  | unlinked hstarts hfound hunlinked =>
      refine .told (.inl ⟨rfl, hanswer⟩) (htasks.trans ?_)
        (.read List.mem_cons_self rfl hstarts hfound (.unlinked hunlinked hempty))
      simp only [Turn.frames, List.map_cons, List.map_nil, hquiet (.inr (.inl rfl))]
      rfl
  | starts hstarts hfound hchain hgo =>
      refine .reading List.mem_cons_self rfl hstarts hfound hgo
        ⟨[], .enter, _, htasks.trans ?_, hchain, ?_⟩
      · simp only [Turn.frames, List.map_cons, List.map_nil, hquiet (.inr (.inl rfl))]
        rfl
      · rw [hempty]
        exact .here

/-- A turn on the way back from the read. -/
theorem told_takes (he : e.Proper Keeps rest) (h : Takes w t a rest w₁ turn)
    (ha : a = e.waits ∧ w.answerOf t = out ∨ a ∈ e.backs out)
    (hcomes : Comes t e rest.length turns out) :
    e.Stage (w₁.turn t turn) t rest (⟨w, t, a⟩ :: turns) := by
  have htasks := h.goes.tasks_self
  have hvisits : visits a = true :=
    he.visits a (ha.elim (fun hwaits => .inr (.inl hwaits.1)) fun hback => .inr (.inr ⟨out, hback⟩))
  have hlater := hcomes.later (beat?_of_visits (w := w) (u := t) hvisits)
  obtain ⟨b, hb, rfl⟩ | rfl := he.backOn w t a w₁ turn out h ha
  · refine .told (.inr hb) (htasks.trans ?_) hlater
    have hquiet : quiet b = b := quiet_of_visits (he.visits b (.inr (.inr ⟨out, hb⟩)))
    simp only [Turn.next, Turn.frames, List.map_cons, List.map_nil, hquiet]
    rfl
  · exact .ended htasks h.goes.answerOf_self hlater

/-- An errand goes on with every turn of its thread that is not below it, and with every turn of
another thread. -/
theorem takes (h : e.Stage w t rest turns) (he : e.Proper Keeps rest) (hw : Keeps w)
    (hlocked : WellLocked P w) (hrest : rest ≠ []) (htakes : Takes w u a below w₁ turn)
    (habove : u = t → rest.length < (w.tasks t).length) :
    e.Stage (w₁.turn u turn) t rest (⟨w, u, a⟩ :: turns) := by
  cases h with
  | before ha htasks hbeats =>
      by_cases hu : u = t
      · subst hu
        obtain ⟨rfl, rfl⟩ := own_of_visits htakes htasks (he.visits _ (.inl ha))
        exact before_takes he hw htakes ha hbeats
      · obtain ⟨hsame, _, hnone⟩ := htakes.other hu (by simp [htasks]) e.flow (rest.length + 1)
        exact .before ha (hsame.trans htasks) ((beats_cons_of_none hnone _).trans hbeats)
  | reading hmem hthread hactivity hfound hstart hgoes =>
      obtain hgoes | ⟨out, htasks, hanswer, b, log, hlog, hcontinues, hdone⟩ :=
        hgoes.takes hlocked htakes
      · rw [List.length_cons, ← beats_cons] at hgoes
        exact .reading (List.mem_cons_of_mem _ hmem) hthread hactivity hfound hstart hgoes
      · rw [List.length_cons, ← beats_cons] at hlog
        exact .told (.inl ⟨rfl, hanswer⟩) htasks
          (.read (List.mem_cons_of_mem _ hmem) hthread hactivity hfound
            (.read hstart hcontinues hdone hlog))
  | told ha htasks hcomes =>
      by_cases hu : u = t
      · subst hu
        have hvisits := he.visits _
          (ha.elim (fun hwaits => .inr (.inl hwaits.1)) fun hback => .inr (.inr ⟨_, hback⟩))
        obtain ⟨rfl, rfl⟩ := own_of_visits htakes htasks hvisits
        exact told_takes he htakes ha hcomes
      · obtain ⟨hsame, hanswer, hnone⟩ :=
          htakes.other hu (by simp [htasks]) e.flow (rest.length + 1)
        exact .told (hanswer ▸ ha) (hsame.trans htasks) (hcomes.later hnone)
  | ended htasks hanswer hcomes =>
      have hu : u ≠ t := fun hself => by
        have hlonger := habove hself
        rw [htasks] at hlonger
        exact absurd hlonger (Nat.lt_irrefl _)
      obtain ⟨hsame, hanswer', hnone⟩ := htakes.other hu (htasks ▸ hrest) e.flow (rest.length + 1)
      exact .ended (hsame.trans htasks) (hanswer'.trans hanswer) (hcomes.later hnone)

/-- An errand is over once its thread is back at what lies below it. -/
theorem comes (h : e.Stage w t rest turns) (hlength : (w.tasks t).length = rest.length) :
    Comes t e rest.length turns (w.answerOf t) := by
  cases h with
  | ended htasks hanswer hcomes => exact hanswer ▸ hcomes
  | before _ htasks | told _ htasks =>
      rw [htasks, List.length_cons] at hlength
      omega
  | reading _ _ _ _ _ hgoes =>
      obtain ⟨above, q, c, htasks, _⟩ := hgoes
      rw [htasks, List.length_append, List.length_cons, List.length_cons] at hlength
      omega

end Errand.Stage

/-! The two kinds of errands. -/

theorem wayOn_of_startPull {next : Activity} {v : World}
    (h : v.startPull e.flow next = some (w₁, turn))
    (hstarts : a = e.starts) (hwaits : next = e.waits)
    (hreads : ∀ c, v.chain? e.flow = some c → ∃ found, w.pipeline? e.flow = some found ∧
      e.reads found = c) : e.WayOn w a w₁ turn := by
  obtain ⟨rfl, c, hchain, hstart⟩ := startPull_eq_some h
  obtain ⟨found, hfound, rfl⟩ := hreads c hchain
  obtain ⟨out, hstart, rfl⟩ | ⟨hstart, rfl⟩ := hstart
  · exact hwaits ▸ .unlinked hstarts hfound hstart
  · exact hwaits ▸ .starts hstarts hfound hchain hstart

/-- The chain of a flow that a payload was put into. -/
theorem injected_of_chain? {v : Option Value} {c : Chain}
    (h : (w.modifyFlow g fun cell =>
      { cell with pipeline := setInjected v cell.pipeline }).chain? g = some c) :
    ∃ found, w.pipeline? g = some found ∧ (setInjected v found).chain = c := by
  rw [chain?, pipeline?_modifyFlow, if_pos rfl] at h
  obtain ⟨pipeline, hpipeline, rfl⟩ := Option.map_eq_some_iff.mp h
  obtain ⟨cell, hcell, rfl⟩ := Option.map_eq_some_iff.mp hpipeline
  exact ⟨cell.pipeline, by rw [pipeline?, hcell]; rfl, rfl⟩

theorem proper_call (P : Plan) (name : String) (g : FlowId) (payload : Value)
    (rest : List Activity) :
    (Errand.call name g payload (callNames rest)).Proper (CallsKept P) rest where
  visits a ha := by
    simp only [Errand.call, List.mem_cons, List.not_mem_nil, or_false] at ha
    rcases ha with (rfl | rfl | rfl | rfl) | rfl | ⟨_, rfl | rfl | rfl⟩ <;> rfl
  wayOn w t a w₁ turn hw h ha := by
    simp only [Errand.call, List.mem_cons, List.not_mem_nil, or_false] at ha
    rcases ha with rfl | rfl | rfl | rfl
    · obtain ⟨cell, _, hcall⟩ := Option.bind_eq_some_iff.mp h.call
      split at hcall <;> cases hcall
      exact .on (by simp [Errand.call])
    · obtain ⟨th, hth, hcall⟩ := Option.map_eq_some_iff.mp h.call
      have hcalls : th.calls = callNames rest := by
        have hkept := hw.calls t
        rw [h.goes.tasks, callNames_cons, callsOf, hth] at hkept
        exact hkept.trans (List.append_nil _)
      rw [hcalls] at hcall
      split at hcall
      · next hin =>
        cases hcall
        exact .away ⟨List.contains_iff_mem.mp hin, rfl⟩
      · cases hcall
        exact .on (by simp [Errand.call])
    · obtain ⟨w₂, _, hcall⟩ := Option.map_eq_some_iff.mp h.call
      cases hcall
      exact .on (by simp [Errand.call])
    · exact wayOn_of_startPull h.call rfl rfl fun c hchain => injected_of_chain? hchain
  backOn w t a w₁ turn out h ha := by
    simp only [Errand.call, List.mem_cons, List.not_mem_nil, or_false] at ha ⊢
    rcases ha with ⟨rfl, rfl⟩ | rfl | rfl | rfl
    · cases h.call
      exact .inl ⟨_, .inl rfl, rfl⟩
    · cases h.call
      exact .inl ⟨_, .inr (.inl rfl), rfl⟩
    · cases h.call
      exact .inl ⟨_, .inr (.inr rfl), rfl⟩
    · cases h.call
      exact .inr rfl

theorem proper_demand (Keeps : World → Prop) (g : FlowId) (rest : List Activity) :
    (Errand.demand g).Proper Keeps rest where
  visits a ha := by
    simp only [Errand.demand, List.mem_cons, List.not_mem_nil, or_false] at ha
    rcases ha with (rfl | rfl | rfl) | rfl | ⟨_, rfl⟩ <;> rfl
  wayOn w t a w₁ turn _ h ha := by
    simp only [Errand.demand, List.mem_cons, List.not_mem_nil, or_false] at ha
    obtain hstep | ⟨_, _, rfl, _⟩ := h.does
    · rcases ha with rfl | rfl | rfl
      · obtain ⟨cell, _, hstep⟩ := Option.bind_eq_some_iff.mp hstep
        split at hstep <;> cases hstep
        exact .on (by simp [Errand.demand])
      · obtain ⟨w₂, _, hstep⟩ := Option.map_eq_some_iff.mp hstep
        cases hstep
        exact .on (by simp [Errand.demand])
      · refine wayOn_of_startPull hstep rfl rfl fun c hchain => ?_
        obtain ⟨found, hfound, rfl⟩ := Option.map_eq_some_iff.mp hchain
        exact ⟨found, hfound, rfl⟩
    · simp at ha
  backOn w t a w₁ turn out h ha := by
    simp only [Errand.demand, List.mem_cons, List.not_mem_nil, or_false] at ha ⊢
    obtain hstep | ⟨_, _, rfl, _⟩ := h.does
    · rcases ha with ⟨rfl, rfl⟩ | rfl
      · cases hstep
        exact .inl ⟨_, rfl, rfl⟩
      · cases hstep
        exact .inr rfl
    · simp at ha

end PullFlow.Engine.World
