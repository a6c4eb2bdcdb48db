import PullFlow.Proofs.Engine.Bounded
import Mathlib.Logic.Relation

/-!
Which locks a thread has. The locks that the activities of a thread have are those of the flows
that it is the holder of. Below the evaluation of a chain it has that flow's lock and else only
locks of flows from which reads lead to this one; outside of all chains it has none. So if reads do
not lead in a ring, a thread never waits for a lock that it has.
-/

namespace PullFlow.Engine

open Relation

variable {P : Plan} {E : FlowId → FlowId → Prop} {a b : Activity} {rest : List Activity}
  {f g : FlowId}

/-- The locks that activities have. -/
def locksOf (stack : List Activity) : List FlowId := stack.filterMap Activity.holds?

@[simp] theorem locksOf_nil : locksOf [] = [] := rfl

@[simp] theorem locksOf_cons (a : Activity) (rest : List Activity) :
    locksOf (a :: rest) = a.holds?.toList ++ locksOf rest := by
  cases h : a.holds? <;> simp [locksOf, h]

@[simp] theorem locksOf_append (front rest : List Activity) :
    locksOf (front ++ rest) = locksOf front ++ locksOf rest :=
  List.filterMap_append

/-- What may be below an activity. -/
def Rests (E : FlowId → FlowId → Prop) (a : Activity) (below : List Activity) : Prop :=
  match a.layer with
  | .leaf => True
  | .inside f => ∃ b rest, below = b :: rest ∧ b.holds? = some f
  | .entry g => locksOf below = [] ∨ ∃ b rest f, below = b :: rest ∧ b.layer = .inside f ∧ E f g
  | .outer => locksOf below = []

/-- Activities of which each one rests on those below it. -/
inductive Nested (E : FlowId → FlowId → Prop) : List Activity → Prop
  | nil : Nested E []
  | cons {a : Activity} {below : List Activity} : Rests E a below → Nested E below →
      Nested E (a :: below)

theorem Nested.tail (h : Nested E (a :: rest)) : Nested E rest := by
  cases h with
  | cons _ hrest => exact hrest

theorem Nested.rests (h : Nested E (a :: rest)) : Rests E a rest := by
  cases h with
  | cons hrests _ => exact hrests

/-- An activity with a lock is on its way into the chain under it, or starts or ends the flow or
feeds its sink. -/
theorem layer_of_holds (h : a.holds? = some f) : a.layer = .entry f ∨ a.layer = .outer := by
  unfold Activity.holds? at h
  split at h
  all_goals first
    | exact .inr rfl
    | (cases h; exact .inl rfl)
    | cases h

theorem free_of_inside (h : a.layer = .inside f) : a.holds? = none := by
  cases hholds : a.holds? with
  | none => rfl
  | some g =>
      obtain hentry | houter := layer_of_holds hholds
      · rw [h] at hentry
        cases hentry
      · rw [h] at houter
        cases houter

theorem layer_of_awaits (h : a.awaits? = some f) : a.layer = .entry f ∨ a.layer = .outer := by
  unfold Activity.awaits? at h
  split at h
  all_goals first
    | exact .inr rfl
    | (cases h; exact .inl rfl)
    | cases h

theorem free_of_awaits (h : a.awaits? = some f) : a.holds? = none := by
  unfold Activity.awaits? at h
  split at h
  all_goals first
    | rfl
    | cases h

/-- From every flow whose lock is had below the evaluation of a chain, reads lead to that chain. -/
theorem Nested.leads (h : Nested E (a :: rest)) (ha : a.layer = .inside f) :
    ∀ g ∈ locksOf rest, g = f ∨ TransGen E g f := by
  induction hlength : rest.length using Nat.strongRecOn generalizing a rest f with
  | ind length ih =>
  have hrests := h.rests
  rw [Rests, ha] at hrests
  obtain ⟨b, below, rfl, hb⟩ := hrests
  intro g hg
  simp only [locksOf_cons, hb, Option.toList_some, List.singleton_append, List.mem_cons] at hg
  obtain rfl | hg := hg
  · exact .inl rfl
  · have hbelow := h.tail.rests
    obtain hentry | houter := layer_of_holds hb
    · rw [Rests, hentry] at hbelow
      obtain hnone | ⟨c, under, f', rfl, hc, hedge⟩ := hbelow
      · rw [hnone] at hg
        cases hg
      · simp only [locksOf_cons, free_of_inside hc, Option.toList_none, List.nil_append] at hg
        obtain rfl | hpath := ih under.length (by simp at hlength; omega) h.tail.tail hc rfl g hg
        · exact .inr (.single hedge)
        · exact .inr (hpath.tail hedge)
    · rw [Rests, houter] at hbelow
      rw [hbelow] at hg
      cases hg

/-- Where reads do not lead in a ring, no lock that is waited for is had below. -/
theorem Nested.not_held (h : Nested E (a :: rest)) (hring : ∀ f, ¬ TransGen E f f)
    (ha : a.awaits? = some f) : f ∉ locksOf rest := by
  intro hmem
  have hrests := h.rests
  obtain hentry | houter := layer_of_awaits ha
  · rw [Rests, hentry] at hrests
    obtain hnone | ⟨b, below, f', rfl, hb, hedge⟩ := hrests
    · rw [hnone] at hmem
      cases hmem
    · simp only [locksOf_cons, free_of_inside hb, Option.toList_none, List.nil_append] at hmem
      obtain rfl | hpath := h.tail.leads hb f hmem
      · exact hring f (.single hedge)
      · exact hring f (hpath.tail hedge)
  · rw [Rests, houter] at hrests
    rw [hrests] at hmem
    cases hmem

@[simp] theorem holds?_quiet (a : Activity) : (quiet a).holds? = a.holds? := by
  cases a <;> rfl

@[simp] theorem layer_quiet (a : Activity) : (quiet a).layer = a.layer := by
  cases a <;> rfl

@[simp] theorem awaits?_quiet (a : Activity) : (quiet a).awaits? = a.awaits? := by
  cases a <;> rfl

@[simp] theorem tied_quiet : (quiet a).Tied P ↔ a.Tied P := by
  cases a <;> rfl

namespace World

variable {w w₁ start : World} {t u : ThreadId} {turn : Turn}

/-- Flows keep to the plan, activities rest on each other, and the locks are with their threads. -/
structure WellLocked (P : Plan) (w : World) : Prop where
  tied : w.Tied P
  frames : ∀ t, ∀ a ∈ w.tasks t, a.Tied P
  nested : ∀ t, Nested P.Leads (w.tasks t)
  locks : ∀ t f, (locksOf (w.tasks t)).count f = if w.holderOf f = some t then 1 else 0

/-- What a turn leaves on top rests on what is below. -/
theorem nested_turn (h : Nested E (quiet a :: rest)) (hturn : turn.Nests E a) :
    Nested E (turn.frames.map quiet ++ rest) := by
  have hsame {b : Activity} (hb : b.layer = a.layer) : Nested E (quiet b :: rest) := by
    refine .cons ?_ h.tail
    have hrests := h.rests
    rw [Rests, layer_quiet] at hrests ⊢
    rw [hb]
    exact hrests
  cases turn with
  | goto b out => exact hsame hturn
  | exit out => exact h.tail
  | invoke callee back =>
      obtain ⟨hback, _, hopens⟩ := hturn
      refine .cons ?_ (hsame hback)
      have hempty (houter : back.layer = .outer) (hfree : back.holds? = none) :
          locksOf (quiet back :: rest) = [] := by
        have hrests := h.rests
        rw [Rests, layer_quiet, ← hback, houter] at hrests
        simpa [hfree] using hrests
      unfold Rests
      unfold Opens at hopens
      rw [layer_quiet]
      split
      · trivial
      · next f hlayer =>
        rw [hlayer] at hopens
        exact ⟨_, _, rfl, (holds?_quiet back).trans hopens⟩
      · next g hlayer =>
        rw [hlayer] at hopens
        obtain ⟨f, hinside, hedge⟩ | ⟨houter, hfree⟩ := hopens
        · exact .inr ⟨_, _, f, rfl, (layer_quiet back).trans hinside, hedge⟩
        · exact .inl (hempty houter hfree)
      · next hlayer =>
        rw [hlayer] at hopens
        exact hempty hopens.1 hopens.2

/-- The locks that a turn leaves on top. -/
theorem locksOf_frames (hturn : turn.Nests E a) :
    locksOf (turn.frames.map quiet) = turn.holds?.toList := by
  cases turn with
  | goto b out => cases hb : b.holds? <;> simp [Turn.frames, Turn.holds?, hb]
  | exit out => rfl
  | invoke callee back =>
      have hcallee := hturn.2.1
      cases hb : back.holds? <;> simp [Turn.frames, Turn.holds?, hcallee, hb]

theorem holderOf_turn (w : World) (t : ThreadId) (turn : Turn) (f : FlowId) :
    (w.turn t turn).holderOf f = w.holderOf f := rfl

/-- A step takes and gives back locks along with its activity. -/
theorem locks_grip {held : Option FlowId} (hheld : held = a.holds?)
    (hlocks : ∀ f, (held.toList ++ locksOf rest).count f = if w.holderOf f = some t then 1 else 0)
    (hgrip : Grip w t a w₁ turn) (f : FlowId) :
    (turn.holds?.toList ++ locksOf rest).count f = if w₁.holderOf f = some t then 1 else 0 := by
  subst hheld
  cases hgrip with
  | keep hholder hturn => rw [hturn, hholder, hlocks]
  | take g hfree hholder ha hturn =>
      have hbefore := hlocks f
      rw [ha] at hbefore
      rw [hturn, hholder]
      simp only [Option.toList_none, List.nil_append] at hbefore
      simp only [Option.toList_some, List.singleton_append, List.count_cons, hbefore]
      by_cases hgf : g = f
      · subst hgf
        simp [hfree]
      · simp [hgf]
  | drop g ha hholder hturn =>
      have hbefore := hlocks f
      rw [ha] at hbefore
      rw [hturn, hholder]
      simp only [Option.toList_some, List.singleton_append, List.count_cons] at hbefore
      simp only [Option.toList_none, List.nil_append]
      by_cases hgf : g = f
      · subst hgf
        simp only [beq_self_eq_true, if_true] at hbefore ⊢
        split at hbefore
        · simpa using hbefore
        · omega
      · simpa [hgf] using hbefore

/-- Locks of other threads stay with them. -/
theorem holder_grip (hgrip : Grip w t a w₁ turn) (ha : ∀ f, a.holds? = some f → w.holderOf f = some t)
    (hu : u ≠ t) (f : FlowId) : w₁.holderOf f = some u ↔ w.holderOf f = some u := by
  cases hgrip with
  | keep hholder _ => rw [hholder]
  | take g hfree hholder _ _ =>
      rw [hholder]
      split
      · next hgf =>
        subst hgf
        simp [hfree, Ne.symm hu]
      · rfl
  | drop g hg hholder _ =>
      rw [hholder]
      split
      · next hgf =>
        subst hgf
        simp [ha g hg, Ne.symm hu]
      · rfl

namespace WellLocked

theorem holder_of_mem (h : WellLocked P w) (hmem : f ∈ locksOf (w.tasks t)) : w.holderOf f = some t := by
  have hcount := h.locks t f
  have hpos := List.count_pos_iff.mpr hmem
  split at hcount
  · assumption
  · omega

theorem mem_of_holder (h : WellLocked P w) (hholder : w.holderOf f = some t) :
    f ∈ locksOf (w.tasks t) := by
  refine List.count_pos_iff.mp ?_
  rw [h.locks, if_pos hholder]
  exact Nat.one_pos

theorem goes (h : WellLocked P w) (hgoes : Goes w t a rest w₁ turn)
    (hbounded : Bounded P w t a (w₁, turn)) : WellLocked P (w₁.turn t turn) := by
  have hstack := hgoes.tasks
  have hnested := h.nested t
  have hframes := h.frames t
  rw [hstack] at hnested hframes
  have hself := hgoes.tasks_self
  constructor
  · exact (Unmoved.turn turn).tied hbounded.tied
  · intro u b hb
    by_cases hu : u = t
    · subst hu
      rw [hself] at hb
      obtain hb | hb := List.mem_append.mp hb
      · obtain ⟨b, hmem, rfl⟩ := List.mem_map.mp hb
        exact tied_quiet.mpr (hbounded.frames b hmem)
      · exact hframes b (List.mem_cons_of_mem _ hb)
    · obtain hsame | ⟨_, f, m, _, _, hnew⟩ := hgoes.tasks_of_ne hu
      · exact h.frames u b (hsame ▸ hb)
      · rw [hnew, List.mem_singleton] at hb
        subst hb
        trivial
  · intro u
    by_cases hu : u = t
    · subst hu
      rw [hself]
      exact nested_turn hnested hbounded.nests
    · obtain hsame | ⟨_, f, m, _, _, hnew⟩ := hgoes.tasks_of_ne hu
      · rw [hsame]
        exact h.nested u
      · rw [hnew]
        exact .cons rfl .nil
  · intro u f
    rw [holderOf_turn]
    by_cases hu : u = t
    · subst hu
      rw [hself, locksOf_append, locksOf_frames hbounded.nests]
      refine locks_grip rfl (fun g => ?_) hbounded.grip f
      rw [← h.locks, hstack, locksOf_cons, holds?_quiet]
    · have hgrip : w₁.holderOf f = some u ↔ w.holderOf f = some u :=
        holder_grip hbounded.grip (fun g hg => h.holder_of_mem (by simp [hstack, hg])) hu f
      obtain hsame | ⟨hnew, g, m, _, _, htasks⟩ := hgoes.tasks_of_ne hu
      · rw [hsame, h.locks]
        simp only [hgrip]
      · have hnone : w.holderOf f ≠ some u := by
          intro hholder
          have hmem := h.mem_of_holder hholder
          rw [World.tasks, List.getElem?_eq_none (Nat.le_of_eq hnew.symm)] at hmem
          cases hmem
        rw [htasks, if_neg (mt hgrip.mp hnone)]
        rfl

theorem tick (h : WellLocked P w) (nanos : Nat) : WellLocked P (w.tick nanos) :=
  ⟨(Unmoved.tick nanos).tied h.tied, h.frames, h.nested, h.locks⟩

end WellLocked

/-- An answer of the host is a turn. -/
theorem goes_hostReply (w : World) (t : ThreadId) (out : Outcome) :
    w.hostReply t out = w ∨ ∃ r rest, Goes w t (.host r) rest w (.exit out) ∧
      w.hostReply t out = w.turn t (.exit out) := by
  obtain hsame | ⟨th, r, rest, hth, hstack, heq⟩ := hostReply_eq w t out
  · exact .inl hsame
  · refine .inr ⟨r, rest.map quiet, ⟨?_, .plain rfl (.refl w) trivial, .inr ⟨r, rfl⟩⟩, heq⟩
    rw [tasks_eq, stackOf_of_get hth, hstack]
    rfl

theorem step_of_host {r : HostRequest} (h : w.doing? t = some (.host r)) : w.step t = none := by
  cases hstep : w.step t with
  | none => rfl
  | some w' =>
      obtain ⟨th, a, rest, w₁, turn, hth, hstack, hturn, _⟩ := step_eq_some hstep
      rw [doing?, stackOf_of_get hth, hstack] at h
      cases h
      cases hturn

/-- Locks stay well kept. -/
theorem Reach.wellLocked (h : Reach start w) (hstart : WellLocked P start) : WellLocked P w := by
  induction h with
  | refl => exact hstart
  | @step w w' t _ hstep ih =>
      obtain ⟨a, ha⟩ := doing?_of_step hstep
      obtain ⟨rest, w₁, turn, hgoes, rfl⟩ := goes_of_step ha hstep
      have htied := ih.frames t (quiet a) (hgoes.tasks ▸ List.mem_cons_self)
      obtain hturn | ⟨r, rfl⟩ := hgoes.step
      · exact ih.goes hgoes (step_bounded ih.tied (tied_quiet.mp htied) hturn)
      · rw [step_of_host ha] at hstep
        cases hstep
  | @host w t out _ ih =>
      obtain hsame | ⟨r, rest, hgoes, heq⟩ := goes_hostReply w t out
      · rw [hsame]
        exact ih
      · rw [heq]
        exact ih.goes hgoes (.exit ih.tied (.refl w) rfl)
  | tick _ ih => exact ih.tick _

end World
end PullFlow.Engine
