import PullFlow.Proofs.Hooks
import PullFlow.Proofs.Resolution

/-!
A component around another one, as a tee is around its sink: it has no hooks of its own but hands
each on to the component inside as the move that called it. The two are at one stage through all
moves, in order or not, whatever hooks fail, up to a stop of the outer one while it is not running.
That stop calls no hook, so the component inside is not told of it and stays at the stage that both
had come to. A call refused as out of order changes neither of them.
-/

namespace PullFlow

/-- The moves in the life of a component. -/
inductive Move where
  | setContext (ctx : Context)
  | setUp (st : Scope.Store)
  | start
  | stop

namespace Move

/-- The stage to which a move brings a component. -/
def goal : Move → Stage
  | setContext _ => .contextualized
  | setUp _ => .initialised
  | start => .running
  | stop => .stopped

/-- How a hook that a move calls can end. -/
inductive Calls {β : Type} [Hooks β] : Move → β → HookEnd β → Prop
  | attach (ctx : Context) (b : β) : Calls (setContext ctx) b (Hooks.attach ctx b)
  | initialise (st : Scope.Store) (ctx : Context) (p : Params) (b : β) :
      Calls (setUp st) b (Hooks.initialise st ctx p b)
  | start (b : β) : Calls start b (Hooks.start b)
  | stop (b : β) : Calls stop b (Hooks.stop b)

end Move

/-- The refusal of a call that comes out of order. -/
def Error.OutOfOrder : Error → Prop
  | invalidState .. => True
  | _ => False

theorem Error.beyond_outOfOrder : Beyond OutOfOrder := ⟨fun _ => id, fun _ => id⟩

theorem Error.not_outOfOrder_of_raised (e : Error) (h : e.Raised) : ¬ e.OutOfOrder := by
  cases e with
  | invalidState _ _ _ => exact fun _ => h
  | _ => exact id

namespace Component

variable {β : Type} [Hooks β] {c : Component β} {m : Move}

/-- Moves a component. -/
def move (c : Component β) : Move → HookEnd (Component β)
  | .setContext ctx => c.setContext ctx
  | .setUp st => c.setUp st
  | .start => c.start
  | .stop => c.stop

/-- A component after moves, one after the other, whatever each came to. -/
def course (c : Component β) (moves : List Move) : Component β :=
  moves.foldl (fun c m => (c.move m).body) c

@[simp] theorem course_nil (c : Component β) : c.course [] = c := rfl

@[simp] theorem course_cons (c : Component β) (m : Move) (moves : List Move) :
    c.course (m :: moves) = (c.move m).body.course moves := rfl

theorem course_append (c : Component β) (front back : List Move) :
    c.course (front ++ back) = (c.course front).course back := List.foldl_append

/-! ### One move -/

/-- A move other than a stop is refused, or calls its hook and takes the end of it. -/
theorem move_cases (c : Component β) (hm : m ≠ .stop) : (∃ e, c.move m = .fail c e) ∨
    ∃ h ctx, m.Calls c.body h ∧ c.move m = c.after h m.goal ctx := by
  cases m with
  | setContext ctx =>
      exact (setContext_eq ctx c).imp_right fun h => ⟨_, _, .attach ctx c.body, h.2⟩
  | setUp st =>
      refine (setUp_eq st c).imp_right fun h => ?_
      obtain ⟨-, ctx, params, -, -, h⟩ := h
      exact ⟨_, _, .initialise st ctx params c.body, h⟩
  | start => exact (start_eq c).imp_right fun h => ⟨_, _, .start c.body, h.2⟩
  | stop => exact absurd rfl hm

/-- A move brings a component to its stage exactly if it succeeds. -/
theorem move_stage (hm : m ≠ .stop) :
    (c.move m).body.stage = if (c.move m).result.isOk then m.goal else c.stage := by
  obtain ⟨e, hfail⟩ | ⟨h, ctx, -, hafter⟩ := c.move_cases hm
  · rw [hfail]
    rfl
  · rw [hafter, after_stage, after_result]

/-- Nothing moves a stopped component. -/
theorem move_of_stopped (hstage : c.stage = .stopped) (m : Move) : (c.move m).body = c := by
  cases m with
  | setContext ctx => simp [move, setContext, expect, hstage, HookEnd.fail]
  | setUp st => simp [move, setUp, expect, hstage, HookEnd.fail]
  | start => simp [move, start, expect, hstage, HookEnd.fail]
  | stop => simp [move, stop, hstage, HookEnd.pass]

theorem course_of_stopped (hstage : c.stage = .stopped) (moves : List Move) :
    c.course moves = c := by
  induction moves with
  | nil => rfl
  | cons m moves ih => rw [course_cons, move_of_stopped hstage, ih]

/-- A stop of a component that is not running ends its course where it stands. -/
theorem course_stop {before : List Move} (hstage : (c.course before).stage ≠ .running)
    (after : List Move) :
    c.course (before ++ .stop :: after) = { c.course before with stage := .stopped } := by
  rw [course_append, course_cons, move, stop_of_ne hstage]
  exact course_of_stopped rfl after

end Component

/-- No hook of a sort of components fails as a call out of order does. -/
def Orderly (β : Type) [Hooks β] : Prop :=
  ∀ (m : Move) (b : β) (h : HookEnd β), m.Calls b h → Avoids Error.OutOfOrder h.result

namespace Orderly

variable {β : Type} [Hooks β] {c : Component β} {m : Move} {e : Error}

theorem stop (h : Orderly β) (c : Component β) : Avoids Error.OutOfOrder c.stop.result := by
  by_cases hstage : c.stage = .running
  · rw [Component.stop_of_running hstage]
    exact h .stop c.body _ (.stop c.body)
  · rw [Component.stop_of_ne hstage]
    exact avoids_ok _

/-- A call that is refused as out of order leaves a component as it was. -/
theorem eq_fail (h : Orderly β) (hm : m ≠ .stop) (hresult : (c.move m).result = .error e)
    (he : e.OutOfOrder) : c.move m = .fail c e := by
  obtain ⟨e', hfail⟩ | ⟨k, ctx, hcalls, hafter⟩ := c.move_cases hm
  · rw [hfail] at hresult ⊢
    cases hresult
    rfl
  · rw [hafter, Component.after_result] at hresult
    exact absurd he (h m c.body k hcalls e hresult)

end Orderly

theorem SinkBody.orderly : Orderly SinkBody := by
  intro m b h hcalls
  cases hcalls with
  | attach ctx b =>
      exact Error.beyond_outOfOrder.sink_attach Error.not_outOfOrder_of_raised ctx b
  | initialise st ctx p b =>
      exact Error.beyond_outOfOrder.sink_initialise id Error.not_outOfOrder_of_raised ctx p b
  | start b | stop b =>
      cases b with
      | recorder r => exact Recorder.avoids_hook Error.not_outOfOrder_of_raised r _
      | _ => exact avoids_ok _

/-! ### A component around another -/

section Around

variable {β γ : Type} [Hooks β] [Hooks γ]

/-- A component around another hands every hook on to it. -/
structure Wraps (wrap : Component β → γ) : Prop where
  injective : Function.Injective wrap
  hands_on : ∀ (m : Move) (inner : Component β) (h : HookEnd γ), m.Calls (wrap inner) h →
    h = (inner.move m).map wrap

theorem OperatorBody.wraps_tee : Wraps OperatorBody.tee where
  injective _ _ h := OperatorBody.tee.inj h
  hands_on _ _ _ hcalls := by cases hcalls <;> rfl

variable {wrap : Component β → γ} {c : Component γ} {inner : Component β} {m : Move}

/-- A component and the one inside it are at the same stage. -/
structure Company (wrap : Component β → γ) (c : Component γ) (inner : Component β) : Prop where
  body : c.body = wrap inner
  stage : inner.stage = c.stage

theorem Wraps.move_cases (hwraps : Wraps wrap) (hbody : c.body = wrap inner) (hm : m ≠ .stop) :
    (∃ e, c.move m = .fail c e) ∨
      ∃ ctx, c.move m = c.after ((inner.move m).map wrap) m.goal ctx := by
  refine (c.move_cases hm).imp_right fun h => ?_
  obtain ⟨h, ctx, hcalls, hafter⟩ := h
  rw [hbody] at hcalls
  exact ⟨ctx, hwraps.hands_on m inner h hcalls ▸ hafter⟩

theorem Wraps.stop_of_running (hwraps : Wraps wrap) (hbody : c.body = wrap inner)
    (hstage : c.stage = .running) :
    c.stop = ⟨{ c with body := wrap inner.stop.body, stage := .stopped }, inner.stop.result,
      inner.stop.notes⟩ := by
  rw [Component.stop_of_running hstage, hbody, hwraps.hands_on .stop inner _ (.stop _)]
  rfl

/-- Every move but a stop ahead of the run keeps the two together. -/
theorem Company.move (h : Company wrap c inner) (hwraps : Wraps wrap)
    (hstop : m = .stop → c.stage = .running ∨ c.stage = .stopped) :
    ∃ inner', Company wrap (c.move m).body inner' := by
  by_cases hm : m = .stop
  · subst hm
    obtain hrunning | hstopped := hstop rfl
    · refine ⟨inner.stop.body, ?_⟩
      rw [Component.move, hwraps.stop_of_running h.body hrunning,
        Component.stop_of_running (h.stage.trans hrunning)]
      exact ⟨rfl, rfl⟩
    · exact ⟨inner, by rwa [Component.move_of_stopped hstopped]⟩
  · obtain ⟨e, hfail⟩ | ⟨ctx, hafter⟩ := hwraps.move_cases h.body hm
    · exact ⟨inner, by rwa [hfail]⟩
    · refine ⟨(inner.move m).body, ?_, ?_⟩
      · rw [hafter, Component.after_body]
        rfl
      · rw [hafter, Component.after_stage, Component.move_stage hm, h.stage]
        rfl

theorem Company.course (h : Company wrap c inner) (hwraps : Wraps wrap) (moves : List Move)
    (hstops : ∀ before after, moves = before ++ .stop :: after →
      (c.course before).stage = .running ∨ (c.course before).stage = .stopped) :
    ∃ inner', Company wrap (c.course moves) inner' := by
  induction moves generalizing c inner with
  | nil => exact ⟨inner, h⟩
  | cons m moves ih =>
      obtain ⟨inner', hnext⟩ := h.move hwraps fun hm => hstops [] moves (congrArg (· :: moves) hm)
      exact ih hnext fun before after hmoves =>
        hstops (m :: before) after (congrArg (m :: ·) hmoves)

/-- Whatever a move comes to, the component inside stays inside. -/
theorem Wraps.move_wraps (hwraps : Wraps wrap) (hbody : c.body = wrap inner) (m : Move) :
    ∃ inner', (c.move m).body.body = wrap inner' := by
  by_cases hm : m = .stop
  · subst hm
    by_cases hstage : c.stage = .running
    · exact ⟨inner.stop.body, by rw [Component.move, hwraps.stop_of_running hbody hstage]⟩
    · exact ⟨inner, by rwa [Component.move, Component.stop_of_ne hstage]⟩
  · obtain ⟨e, hfail⟩ | ⟨ctx, hafter⟩ := hwraps.move_cases hbody hm
    · exact ⟨inner, by rwa [hfail]⟩
    · exact ⟨(inner.move m).body, by rw [hafter, Component.after_body]; rfl⟩

theorem Wraps.course_wraps (hwraps : Wraps wrap) (hbody : c.body = wrap inner)
    (moves : List Move) : ∃ inner', (c.course moves).body = wrap inner' := by
  induction moves generalizing c inner with
  | nil => exact ⟨inner, hbody⟩
  | cons m moves ih =>
      obtain ⟨inner', hnext⟩ := hwraps.move_wraps hbody m
      exact ih hnext

/-- A call that is refused, by the outer component or by the one inside, leaves both as they
were. -/
theorem Wraps.eq_fail (hwraps : Wraps wrap) (horderly : Orderly β) (hbody : c.body = wrap inner)
    {e : Error} (hresult : (c.move m).result = .error e) (he : e.OutOfOrder) :
    c.move m = .fail c e := by
  by_cases hm : m = .stop
  · subst hm
    by_cases hstage : c.stage = .running
    · rw [Component.move, hwraps.stop_of_running hbody hstage] at hresult
      exact absurd he (horderly.stop inner e hresult)
    · rw [Component.move, Component.stop_of_ne hstage] at hresult
      cases hresult
  · obtain ⟨e', hfail⟩ | ⟨ctx, hafter⟩ := hwraps.move_cases hbody hm
    · rw [hfail] at hresult ⊢
      cases hresult
      rfl
    · rw [hafter, Component.after_result] at hresult
      rw [hafter, horderly.eq_fail hm hresult he]
      -- the failure leaves the body, and so the whole outer component, as it was
      exact congrArg (fun b => c.after (.fail b e) m.goal ctx) hbody.symm

/-- A stop ahead of the run leaves the component inside where both had come to, for good. -/
theorem Company.left_behind (h : Company wrap c inner) (hwraps : Wraps wrap)
    {before : List Move} (hrunning : (c.course before).stage ≠ .running)
    (hstopped : (c.course before).stage ≠ .stopped) (after : List Move) :
    ∃ inner', Company wrap (c.course before) inner' ∧
      (c.course (before ++ .stop :: after)).body = wrap inner' ∧
      (c.course (before ++ .stop :: after)).stage = .stopped := by
  -- an earlier stop ahead of the run would have left the component stopped
  have hstops : ∀ front back, before = front ++ .stop :: back →
      (c.course front).stage = .running ∨ (c.course front).stage = .stopped := by
    intro front back hfront
    by_contra hearly
    rw [hfront, Component.course_stop (not_or.mp hearly).1] at hstopped
    exact hstopped rfl
  obtain ⟨inner', hbefore⟩ := h.course hwraps before hstops
  rw [Component.course_stop hrunning]
  exact ⟨inner', hbefore, hbefore.body, rfl⟩

/-- What becomes of a component around another through moves. -/
structure Accompanied (wrap : Component β → γ) (c : Component γ) (moves : List Move) : Prop where
  /-- If it is never stopped ahead of its run, both are at one stage. -/
  together : (∀ before after, moves = before ++ .stop :: after →
    (c.course before).stage = .running ∨ (c.course before).stage = .stopped) →
    ∃ inner, Company wrap (c.course moves) inner
  /-- Stopped ahead of its run it leaves the other one where both were. -/
  left_behind : ∀ before after, moves = before ++ .stop :: after →
    (c.course before).stage ≠ .running → (c.course before).stage ≠ .stopped →
    ∃ inner, Company wrap (c.course before) inner ∧ (c.course moves).body = wrap inner ∧
      (c.course moves).stage = .stopped
  /-- A call that is refused as out of order changes nothing and calls no hook. The hooks inside
  may be any, also such as keep count of their calls. -/
  refused : Orderly β → ∀ m e, ((c.course moves).move m).result = .error e → e.OutOfOrder →
    (c.course moves).move m = .fail (c.course moves) e

end Around

/-- A tee hands its hooks on to its sink, no hook of which fails as a call out of order does. So the
two keep to each other as any component and the one inside it do, whatever hooks fail and in
whatever order the component is moved. -/
theorem tee_accompanied :
    Wraps OperatorBody.tee ∧ Orderly SinkBody ∧
      ∀ {β γ : Type} [Hooks β] [Hooks γ] {wrap : Component β → γ} {c : Component γ}
        {inner : Component β}, Wraps wrap → Company wrap c inner →
          ∀ moves : List Move, Accompanied wrap c moves := by
  refine ⟨OperatorBody.wraps_tee, SinkBody.orderly, fun hwraps hcompany moves => ?_⟩
  constructor
  case together => exact hcompany.course hwraps moves
  case left_behind =>
    rintro before after rfl hrunning hstopped
    exact hcompany.left_behind hwraps hrunning hstopped after
  case refused =>
    intro horderly m e hresult he
    obtain ⟨inner', hbody⟩ := hwraps.course_wraps hcompany.body moves
    exact hwraps.eq_fail horderly hbody hresult he

/-- A sink that fails as it starts. -/
def stubborn : Sink :=
  .make "t.rec" (.recorder ⟨"", "", ""⟩) ⟨[], [("fail", .literal (.text "start"))]⟩

def stubbornTee : Operator := .make "to" (.tee stubborn) .none

/-- The moves that bring a flow's components to run. -/
def launching : List Move := [.setContext ⟨"main", 0, []⟩, .setUp .empty, .start]

/-- The sink fails, and tee and sink stay where they are; asked once more to set up, the tee
refuses; and stopped it leaves the sink behind. -/
theorem stubborn_accompanied :
    Company .tee stubbornTee stubborn ∧
      (∃ sink, Company .tee (stubbornTee.course launching) sink ∧ sink.stage = .initialised) ∧
      (stubbornTee.course launching).move (.setUp .empty) = .fail (stubbornTee.course launching)
        (.invalidState "to" "CONTEXTUALIZED" "INITIALISED") ∧
      ∃ sink, (stubbornTee.course (launching ++ [.stop])).body = .tee sink ∧
        sink.stage = .initialised ∧
        (stubbornTee.course (launching ++ [.stop])).stage = .stopped := by
  have hcompany : Company .tee stubbornTee stubborn := ⟨rfl, rfl⟩
  have hstage : (stubbornTee.course launching).stage = .initialised := by decide +kernel
  obtain ⟨hwraps, horderly, haccompanied⟩ := tee_accompanied
  have hlaunched := haccompanied hwraps hcompany launching
  have hended := haccompanied hwraps hcompany (launching ++ [.stop])
  obtain ⟨sink, htogether⟩ := hlaunched.together fun before after hmoves => by
    have hstop : Move.stop ∈ launching := hmoves ▸ List.mem_append_right _ List.mem_cons_self
    simp [launching] at hstop
  obtain ⟨left, hbefore, hbody, hstopped⟩ := hended.left_behind launching [] rfl
    (by rw [hstage]; decide) (by rw [hstage]; decide)
  refine ⟨hcompany, ⟨sink, htogether, htogether.stage.trans hstage⟩, ?_, left, hbody,
    hbefore.stage.trans hstage, hstopped⟩
  exact hlaunched.refused horderly (.setUp .empty) _ (by rfl) trivial

/-- A tee to the variable `q`, as the catalog makes it. -/
def noting : Operator :=
  let arguments : Arguments := ⟨[.literal (.text "q")], []⟩
  .make "var.set" (.tee (.make "var.set" (.var "" false none) arguments)) arguments

/-- Stopped before it runs, a tee is at another stage than its sink. -/
theorem sink_not_stopped_with_tee :
    ¬ ∀ (op : Operator) (sink : Sink), op.stage = .created → Company .tee op sink →
      ∀ moves, ∃ sink', Company .tee (op.course moves) sink' := by
  intro h
  obtain ⟨sink, hbody, hstage⟩ := h noting _ rfl ⟨rfl, rfl⟩ [.setContext ⟨"main", 0, []⟩, .stop]
  cases OperatorBody.tee.inj hbody
  cases hstage

end PullFlow
