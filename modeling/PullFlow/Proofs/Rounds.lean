import PullFlow.Proofs.Dealings

/-!
What is left of a round. The monitors that take no orders read, push what they read and look whether
to go on, one after the other and round by round. A look that finds a stop ends the monitor or its
loop. So once every look finds one, a monitor does at most what is left of the round in which it
stands: a read, what comes of it, a push, and what comes of that.
-/

namespace PullFlow

/-- The legs of a round, in their order. -/
inductive Leg where
  | pull
  /-- The read comes to something. -/
  | pulled
  | push
  /-- The sink is through with the payload. -/
  | pushed
  deriving DecidableEq, Repr

/-- A whole round. -/
def Leg.round : List Leg := [.pull, .pulled, .push, .pushed]

namespace MonitorAct

/-- The legs of a round that an action is. -/
def legs : MonitorAct → List Leg
  | pull => [.pull, .pulled]
  | push _ => [.push, .pushed]
  | _ => []

/-- What an action leaves of a round, unless no stop is found with it. -/
def left : MonitorAct → List Leg
  | pull => [.push, .pushed]
  | note _ => Leg.round
  | _ => []

theorem legs_append_left (a : MonitorAct) : (a.legs ++ a.left).Sublist Leg.round := by
  cases a <;> exact of_decide_eq_true rfl

end MonitorAct

namespace MonitorWait

/-- Whether a monitor that takes no orders goes on so with what an action comes to. -/
def suits : MonitorAct → MonitorWait → Bool
  | .pull, onlyRead | .pull, counted _ | .pull, cycle => true
  | .push _, onlyPush | .push _, delivered _ | .push _, forwarded => true
  | .sleep _, slept | .sinksActive, idle => true
  | .stopped, counting _ | .stopped, judging _ => true
  | .report _, reported | .reportExit _, exited | .note _, noted => true
  | _, _ => false

/-- Whether a read is waited for. -/
def reads : MonitorWait → Bool
  | onlyRead | counted _ | cycle => true
  | _ => false

/-- What an outcome leaves of a round. -/
def left (out : Outcome) : MonitorWait → List Leg
  | onlyRead | counted _ | cycle => [.push, .pushed]
  | counting _ => if MonitorBody.yes out then [] else Leg.round
  | slept => if MonitorBody.yes out then Leg.round else []
  | noted => Leg.round
  | _ => []

variable {a : MonitorAct} {w : MonitorWait}

theorem left_sublist_round (out : Outcome) (w : MonitorWait) : (w.left out).Sublist Leg.round := by
  unfold left
  split
  case h_4 | h_5 => split <;> decide
  all_goals decide

theorem left_of_suits {out : Outcome} (h : w.suits a = true)
    (hlook : a = .stopped → MonitorBody.yes out = true)
    (hsleep : ∀ d, a = .sleep d → MonitorBody.yes out = false) : w.left out = a.left := by
  cases a with
  | stopped => cases w <;> first | rfl | exact if_pos (hlook rfl) | cases h
  | sleep d =>
      have hno : ¬ MonitorBody.yes out = true := by simp [hsleep d rfl]
      cases w <;> first | rfl | exact if_neg hno | cases h
  | _ => cases w <;> first | rfl | cases h

theorem reads_eq_false (h : w.suits a = true) (ha : a ≠ .pull) : w.reads = false := by
  cases w <;> first | rfl | (cases a <;> first | exact absurd rfl ha | cases h)

end MonitorWait

namespace MonitorMove

/-- Whether a move is one of a monitor that takes no orders. -/
def suited : MonitorMove → Bool
  | act a w => w.suits a
  | finish _ => true

/-- What is left of a round before a move. -/
def left : MonitorMove → List Leg
  | act a _ => a.legs ++ a.left
  | finish _ => []

/-- A monitor that takes no orders goes on with at most these legs of a round. -/
structure Within (legs : List Leg) (move : MonitorMove) : Prop where
  suited : move.suited = true
  left : move.left.Sublist legs

end MonitorMove

namespace MonitorBody

variable {b : MonitorBody} {a : MonitorAct} {w : MonitorWait} {legs : List Leg}

theorem within_finish (d : Done) : (MonitorMove.finish d).Within legs :=
  ⟨rfl, List.nil_sublist legs⟩

theorem within_countRound (n : Nat) : (countRound n).Within legs := by
  cases n with
  | zero => exact within_finish _
  | succ n => exact ⟨rfl, List.nil_sublist _⟩

theorem within_rest (b : MonitorBody) : b.rest.Within legs := by
  cases b with
  | interval | change | onValue | onDemand => exact ⟨rfl, List.nil_sublist _⟩
  | _ => exact within_finish _

theorem within_begin (h : b ≠ .probe) : b.begin.Within Leg.round := by
  cases b with
  | once | interval | change | onValue | onDemand | recorder => exact ⟨rfl, List.Sublist.refl _⟩
  | count n => exact within_countRound n
  | onCall => exact within_finish _
  | probe => exact absurd rfl h

theorem within_receive (v : Value) (b : MonitorBody) :
    (b.receive v).2.Within [.push, .pushed] := by
  have hpush : (MonitorMove.act (.push v) .forwarded).Within [.push, .pushed] :=
    ⟨rfl, List.Sublist.refl _⟩
  cases b with
  | interval sleep exits =>
      simp only [receive]
      split
      · exact ⟨rfl, List.nil_sublist _⟩
      · exact hpush
  | change sleep last =>
      simp only [receive]
      split
      · exact within_rest (.change sleep last)
      · exact hpush
  | onValue target always sleep matching =>
      simp only [receive]
      split
      · exact hpush
      · exact within_rest (.onValue target always sleep (v == target))
  | _ => exact hpush

/-- A monitor that takes no orders goes on so, and does at most what the outcome leaves to do. -/
theorem within_resume (h : w.suits a = true) (out : Outcome) (b : MonitorBody) :
    (b.resume w out).2.Within (w.left out) := by
  cases w with
  | order | replying | cycling | answered => cases a <;> cases h
  | onlyRead | counted left =>
      cases out with
      | ok v => exact ⟨rfl, List.Sublist.refl _⟩
      | error e => exact within_finish _
  | cycle =>
      cases out with
      | ok v => exact within_receive v b
      | error e => cases e <;> exact ⟨rfl, List.nil_sublist _⟩
  | onlyPush | exited => exact within_finish _
  | delivered left =>
      cases out with
      | ok v => exact within_countRound left
      | error e => exact within_finish _
  | forwarded =>
      cases out with
      | ok v => exact within_rest b
      | error e => exact ⟨rfl, List.nil_sublist _⟩
  | reported => exact within_rest b
  | judging e =>
      simp only [resume]
      split
      · exact within_rest b
      · exact ⟨rfl, List.nil_sublist _⟩
  | counting left =>
      simp only [resume, MonitorWait.left]
      split
      · exact within_finish _
      · exact ⟨rfl, List.Sublist.refl _⟩
  | slept =>
      simp only [resume, MonitorWait.left]
      cases yes out with
      | true =>
          cases b with
          | onDemand sleep => exact within_rest (.onDemand sleep)
          | _ => exact ⟨rfl, List.Sublist.refl _⟩
      | false => cases b <;> exact within_finish _
  | idle =>
      cases b with
      | onDemand sleep =>
          simp only [resume]
          split
          · exact ⟨rfl, List.nil_sublist _⟩
          · exact within_finish _
      | _ => exact within_finish _
  | noted =>
      cases b with
      | recorder r =>
          simp only [resume]
          split
          · exact ⟨rfl, List.Sublist.refl _⟩
          · exact within_finish _
      | _ => exact ⟨rfl, List.Sublist.refl _⟩

end MonitorBody

namespace Stand

/-- Where a monitor stands that takes no orders. -/
inductive Steady : Stand → Prop where
  | ready {move : MonitorMove} : move.suited = true → Steady (ready move)
  | waits {a : MonitorAct} {w : MonitorWait} : w.suits a = true → Steady (waits a w)
  | taken {v : Value} {w : MonitorWait} : w.suits (.push v) = true → Steady (taken v w)
  | settled {a : MonitorAct} {out : Outcome} {w : MonitorWait} :
      a.inquires = false → w.suits a = true → Steady (settled out w)
  | ended : Steady ended

/-- What is left of a round. -/
def left : Stand → List Leg
  | ready move => move.left
  | waits a _ => a.legs.tail ++ a.left
  | settled out w => w.left out
  | taken .. | ended => []

/-- Whatever a push comes to, it is the end of a round. -/
theorem left_of_push {v : Value} {w : MonitorWait} {out : Outcome} (h : w.suits (.push v) = true) :
    (settled out w).left = [] :=
  MonitorWait.left_of_suits h nofun nofun

theorem left_sublist_round (stand : Stand) : stand.left.Sublist Leg.round := by
  cases stand with
  | ready move =>
      cases move with
      | act a w => exact a.legs_append_left
      | finish d => exact List.nil_sublist _
  | waits a w => exact ((List.tail_sublist _).append_right _).trans a.legs_append_left
  | settled out w => exact w.left_sublist_round out
  | taken | ended => exact List.nil_sublist _

end Stand

/-- The leg of a round that a deed is. -/
def Deed.leg? : Deed → Option Leg
  | asks .pull => some .pull
  | told w _ => if w.reads then some .pulled else none
  | asks (.push _) => some .push
  | sinks .. => some .pushed
  | _ => none

namespace Dealings

/-- The legs of rounds among the deeds of a log, in their order. -/
def legs (log : Dealings) : List Leg := log.collected Deed.leg?

theorem legs_cons (d : Deed) (log : Dealings) : legs (d :: log) = log.legs ++ d.leg?.toList :=
  collected_cons d log _

end Dealings

namespace Plays

variable {b body : MonitorBody} {d : Deed} {log later earlier : Dealings} {stand : Stand}

theorem steady (h : Plays b log body stand) (hb : b ≠ .probe) : stand.Steady := by
  induction h with
  | begins => exact .ready (MonitorBody.within_begin hb).suited
  | asks _ _ ih =>
      cases ih with
      | ready hsuits => exact .waits hsuits
  | @passes _ _ a _ _ hpasses ih =>
      cases ih with
      | ready hsuits => exact .settled (by cases a <;> first | rfl | cases hpasses) hsuits
  | looks _ _ ih =>
      cases ih with
      | ready hsuits => exact .settled (a := .stopped) rfl hsuits
  | obeys _ _ ih =>
      cases ih with
      | ready hsuits => cases hsuits
  | @wakes _ _ d _ _ _ ih =>
      cases ih with
      | waits hsuits => exact .settled (a := .sleep d) rfl hsuits
  | takes _ ih =>
      cases ih with
      | waits hsuits => exact .taken hsuits
  | @refuses _ _ v _ _ _ ih =>
      cases ih with
      | waits hsuits => exact .settled (a := .push v) rfl hsuits
  | @announces _ _ v _ _ ih =>
      cases ih with
      | taken hsuits => exact .settled (a := .push v) rfl hsuits
  | answered out _ _ ih =>
      cases ih with
      | waits hsuits => exact .ready (MonitorBody.within_resume hsuits out _).suited
  | told _ ih =>
      cases ih with
      | settled _ hsuits => exact .ready (MonitorBody.within_resume hsuits _ _).suited
  | ends _ _ => exact .ended

/-- A deed takes its leg off what was left of the round, unless it finds no stop. -/
theorem left_step (h : Plays b (d :: log) body stand) (hb : b ≠ .probe) (hd : d ≠ .finds false) :
    ∃ body₀ stand₀, Plays b log body₀ stand₀ ∧
      (d.leg?.toList ++ stand.left).Sublist stand₀.left := by
  cases h with
  | @asks _ _ a w hplays _ =>
      refine ⟨_, _, hplays, ?_⟩
      cases a <;> exact List.Sublist.refl _
  | @passes _ _ a w hplays hpasses =>
      refine ⟨_, _, hplays, ?_⟩
      cases hplays.steady hb with
      | ready hsuits =>
          have hleft : (Stand.settled (.ok .null) w).left = a.left :=
            MonitorWait.left_of_suits hsuits (by rintro rfl; cases hpasses)
              (by rintro d rfl; cases hpasses)
          rw [hleft]
          cases a <;> first | exact List.Sublist.refl _ | cases hpasses
  | @looks _ _ w s hplays =>
      refine ⟨_, _, hplays, ?_⟩
      cases s with
      | false => exact absurd rfl hd
      | true =>
          cases hplays.steady hb with
          | ready hsuits =>
              have hleft : (Stand.settled (.ok (.bool true)) w).left = [] :=
                MonitorWait.left_of_suits hsuits (fun _ => rfl) nofun
              rw [hleft]
              exact List.Sublist.refl _
  | obeys order hplays =>
      cases hplays.steady hb with
      | ready hsuits => cases hsuits
  | @wakes _ _ d w s hplays =>
      refine ⟨_, _, hplays, ?_⟩
      cases s with
      | false => exact absurd rfl hd
      | true =>
          cases hplays.steady hb with
          | waits hsuits =>
              have hleft : (Stand.settled (.ok (.bool (!true))) w).left = [] :=
                MonitorWait.left_of_suits hsuits nofun fun _ _ => rfl
              rw [hleft]
              exact List.Sublist.refl _
  | takes hplays => exact ⟨_, _, hplays, List.Sublist.refl _⟩
  | @refuses _ _ v w e hplays =>
      refine ⟨_, _, hplays, ?_⟩
      cases hplays.steady hb with
      | waits hsuits =>
          rw [Stand.left_of_push hsuits]
          exact List.Sublist.refl _
  | @announces _ _ v w hplays =>
      refine ⟨_, _, hplays, ?_⟩
      cases hplays.steady hb with
      | taken hsuits =>
          rw [Stand.left_of_push hsuits]
          exact List.Sublist.refl _
  | @answered _ body a w out hplays ha =>
      refine ⟨_, _, hplays, ?_⟩
      cases hplays.steady hb with
      | waits hsuits =>
          have hleft : w.left out = a.left :=
            MonitorWait.left_of_suits hsuits (by rintro rfl; cases ha) (by rintro d rfl; cases ha)
          have hleg : (Deed.told w out).leg?.toList = a.legs.tail := by
            cases a with
            | pull => cases w <;> first | rfl | cases hsuits
            | sinksActive => cases w <;> first | rfl | cases hsuits
            | _ => cases ha
          rw [hleg]
          exact (hleft ▸ (MonitorBody.within_resume hsuits out body).left).append_left _
  | @told _ body out w hplays =>
      refine ⟨_, _, hplays, ?_⟩
      cases hplays.steady hb with
      | @settled a _ _ ha hsuits =>
          have hreads : w.reads = false :=
            MonitorWait.reads_eq_false hsuits (by rintro rfl; cases ha)
          rw [Deed.leg?, hreads]
          exact (MonitorBody.within_resume hsuits out body).left
  | ends hplays => exact ⟨_, _, hplays, List.Sublist.refl _⟩

/-- While every look finds a stop, a monitor that takes no orders does what is left of a round. -/
theorem left_of_stopped (h : Plays b (later ++ earlier) body stand) (hb : b ≠ .probe)
    (hstopped : .finds false ∉ later) :
    ∃ body₀ stand₀, Plays b earlier body₀ stand₀ ∧
      (later.legs ++ stand.left).Sublist stand₀.left := by
  -- the latest deed comes off first, and what it leaves is what those before it had left
  induction later generalizing body stand with
  | nil => exact ⟨body, stand, h, List.Sublist.refl _⟩
  | cons d later ih =>
      rw [List.mem_cons, not_or] at hstopped
      obtain ⟨body₁, stand₁, hplays₁, hstep⟩ := left_step h hb (Ne.symm hstopped.1)
      obtain ⟨body₀, stand₀, hplays₀, hlegs⟩ := ih hplays₁ hstopped.2
      refine ⟨body₀, stand₀, hplays₀, List.Sublist.trans ?_ hlegs⟩
      rw [Dealings.legs_cons, List.append_assoc]
      exact hstep.append_left _

/-- From when every look finds a stop, a monitor that takes no orders does no more than a round. -/
theorem legs_sublist_round (h : Plays b (later ++ earlier) body stand) (hb : b ≠ .probe)
    (hstopped : .finds false ∉ later) : later.legs.Sublist Leg.round := by
  obtain ⟨_, stand₀, _, hlegs⟩ := h.left_of_stopped hb hstopped
  exact ((List.sublist_append_left _ _).trans hlegs).trans stand₀.left_sublist_round

end Plays
end PullFlow
