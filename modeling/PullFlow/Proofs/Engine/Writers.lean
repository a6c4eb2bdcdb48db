import PullFlow.Proofs.Engine.Ledger
import PullFlow.Proofs.Scope.Grown

/-!
One writer for each variable. The first value that a sink stores claims a slot that was empty, and
what it stores afterwards goes to the same slot: names that lead to scopes lead there as long as
nobody hides or replaces a scope, and values that are added can only hide one. So a slot that was
filled before is never overwritten, one that is new belongs to the sink that filled it, and all
others are refused there.
-/

namespace PullFlow.Engine

/-- Whether an activity belongs to the set-up of flows. -/
def Activity.settingUp : Activity → Bool
  | .contextualize .. | .prepare .. | .wire .. | .setUpAll _ | .runAll .begin => true
  | _ => false

theorem settingUp_of_aloof {a : Activity} (h : a.aloof = true) : a.settingUp = false := by
  unfold Activity.settingUp
  split
  · cases h
  · cases h
  · cases h
  · cases h
  · cases h
  · rfl

@[simp] theorem settingUp_quiet (a : Activity) : (quiet a).settingUp = a.settingUp := by
  cases a <;> rfl

@[simp] theorem aloof_quiet (a : Activity) : (quiet a).aloof = a.aloof := by
  cases a <;> rfl

namespace World

open Scope

variable {P : Plan} {start w w₁ w' : World} {done done' : List Stored} {st st' : Store}
  {t u : ThreadId} {f : FlowId} {a b : Activity} {rest : List Activity} {turn : Turn}

/-- What sinks have stored is what the scopes have beside the entries of the start, each slot from
one sink. -/
structure Booked (start : World) (done : List Stored) (st : Store) : Prop where
  filled : start.scopes.Filled st
  placed : ∀ r ∈ done, start.scopes.entry? r.slot.1 r.slot.2 = none ∧
    ∃ k s, start.knows? r.sink = some k ∧ k.scope = some s ∧
      (OwnerSearch.seek s (path k.name)).Comes start.scopes r.slot
  present : ∀ r ∈ done, r.slot.1 ∈ start.scopes → (st.entry? r.slot.1 r.slot.2).isSome = true
  sole : ∀ r ∈ done, ∀ r' ∈ done, r.slot = r'.slot → r.slot.1 ∈ start.scopes → r.sink = r'.sink
  latest : ∀ s n e, start.scopes.entry? s n = none → st.entry? s n = some e →
    ∃ r, done.find? (·.slot = (s, n)) = some r ∧ e = .value r.value

namespace Booked

theorem alike (h : Booked start done st) (halike : st.Alike st') : Booked start done st' :=
  ⟨h.filled.alike halike, h.placed, fun r hr hs => by rw [halike.entries]; exact h.present r hr hs,
    h.sole, fun s n e hfree he => h.latest s n e hfree (by rwa [halike.entries] at he)⟩

/-- A sink stores in one slot only. -/
theorem slot_eq (h : Booked start done st) {r r' : Stored} (hr : r ∈ done) (hr' : r' ∈ done)
    (hsink : r.sink = r'.sink) : r.slot = r'.slot := by
  obtain ⟨_, k, s, hk, hs, hcomes⟩ := h.placed r hr
  obtain ⟨_, k', s', hk', hs', hcomes'⟩ := h.placed r' hr'
  rw [hsink, hk'] at hk
  cases hk
  rw [hs'] at hs
  cases hs
  exact hcomes'.unique hcomes

/-- A sink stores a value: it is the first one in its slot, or the sink has stored there before. -/
theorem store (h : Booked start done st) {r : Stored} {k : Variable} {s : ScopeId}
    (hk : start.knows? r.sink = some k) (hs : k.scope = some s)
    (hcomes : (OwnerSearch.seek s (path k.name)).Comes start.scopes r.slot)
    (hfirst : st.entry? r.slot.1 r.slot.2 = none ∨ ∃ r' ∈ done, r'.sink = r.sink) :
    Booked start (r :: done) (st.put r.slot.1 r.slot.2 (.value r.value)) := by
  -- The sink comes to the slot that it came to before.
  have hagain {r' : Stored} (hr' : r' ∈ done) (hsink : r'.sink = r.sink) : r'.slot = r.slot := by
    obtain ⟨_, k', s', hk', hs', hcomes'⟩ := h.placed r' hr'
    rw [hsink, hk] at hk'
    cases hk'
    rw [hs] at hs'
    cases hs'
    exact hcomes.unique hcomes'
  have hfree : start.scopes.entry? r.slot.1 r.slot.2 = none := by
    obtain hnone | ⟨r', hr', hsink⟩ := hfirst
    · cases hentry : start.scopes.entry? r.slot.1 r.slot.2 with
      | none => rfl
      | some e =>
          rw [h.filled.kept _ _ e hentry] at hnone
          cases hnone
    · rw [← hagain hr' hsink]
      exact (h.placed r' hr').1
  have hmem : r.slot.1 ∈ st ↔ r.slot.1 ∈ start.scopes := h.filled.mem _
  have hsole {r' : Stored} (hr' : r' ∈ done) (hslot : r'.slot = r.slot)
      (hscope : r.slot.1 ∈ start.scopes) : r'.sink = r.sink := by
    obtain hnone | ⟨r₀, hr₀, hsink⟩ := hfirst
    · have hpresent := h.present r' hr' (hslot ▸ hscope)
      rw [hslot, hnone] at hpresent
      cases hpresent
    · rw [← hsink]
      have hsame := hslot.trans (hagain hr₀ hsink).symm
      exact h.sole r' hr' r₀ hr₀ hsame (hslot ▸ hscope)
  constructor
  · exact h.filled.put hfree r.value
  · exact List.forall_mem_cons.mpr ⟨⟨hfree, k, s, hk, hs, hcomes⟩, h.placed⟩
  · intro r' hr' hscope
    by_cases hin : r.slot.1 ∈ st
    · rw [Store.entry?_put hin]
      split
      · rfl
      · next hother =>
        obtain rfl | hr' := List.mem_cons.mp hr'
        · exact absurd ⟨rfl, rfl⟩ hother
        · exact h.present r' hr' hscope
    · rw [Store.put_of_not_mem hin]
      obtain rfl | hr' := List.mem_cons.mp hr'
      · exact absurd (hmem.mpr hscope) hin
      · exact h.present r' hr' hscope
  · intro r₁ hr₁ r₂ hr₂ hslot hscope
    obtain rfl | hdone₁ := List.mem_cons.mp hr₁
    · obtain rfl | hdone₂ := List.mem_cons.mp hr₂
      · rfl
      · exact (hsole hdone₂ hslot.symm hscope).symm
    · obtain rfl | hdone₂ := List.mem_cons.mp hr₂
      · exact hsole hdone₁ hslot (hslot ▸ hscope)
      · exact h.sole r₁ hdone₁ r₂ hdone₂ hslot hscope
  · intro s n e hnone he
    rw [List.find?_cons]
    by_cases hin : r.slot.1 ∈ st
    · rw [Store.entry?_put hin] at he
      split at he
      · next hsame =>
        cases he
        exact ⟨r, by simp [hsame], rfl⟩
      · next hother =>
        have hne : r.slot ≠ (s, n) := fun heq => hother (by rw [heq]; exact ⟨rfl, rfl⟩)
        simp only [hne, decide_false]
        exact h.latest s n e hnone he
    · rw [Store.put_of_not_mem hin] at he
      have hne : r.slot ≠ (s, n) := by
        intro heq
        rw [heq] at hin
        exact hin (Store.mem_of_entry he)
      simp only [hne, decide_false]
      exact h.latest s n e hnone he

end Booked

/-- What is known of the sinks that write while flows run. -/
structure Recorded (P : Plan) (start : World) (done : List Stored) (w : World) : Prop where
  locked : WellLocked P w
  ready : ∀ t, ∀ a ∈ w.tasks t, a.settingUp = false
  backed : ∀ t, Backed start done w (w.tasks t)
  resting : ∀ f pipeline, w.pipeline? f = some pipeline → (∀ t p, .pull f p ∉ w.tasks t) →
    pipeline.chain.waiting = []
  booked : Booked start done w.scopes
  known : ∀ i k, w.knows? i = some k → ∃ k₀, start.knows? i = some k₀ ∧ k₀.name = k.name ∧
    k₀.scope = k.scope ∧ (k.claimed = true → ∃ r ∈ done, r.sink = i)
  answered : ∀ t b rest, w.tasks t = b :: rest → ∀ i v k, w.writing? b = some (i, v, k) →
    ∀ v', w.answerOf t = .ok v' → ∃ r ∈ done, r.sink = i

/-- The components that a step changes are those of a flow whose lock the activity has. -/
def Owns (a : Activity) (w w₁ : World) : Prop :=
  ∀ f, w₁.pipeline? f = w.pipeline? f ∨ a.holds? = some f ∨ ∃ p, a = .pull f p

theorem writing?_turn (w : World) (t : ThreadId) (turn : Turn) (a : Activity) :
    (w.turn t turn).writing? a = w.writing? a := rfl

namespace Recorded

/-- Activities that others are in the middle of are not disturbed. -/
theorem undisturbed (h : Recorded P start done w) (hgoes : Goes w t a rest w₁ turn)
    (howns : Owns a w w₁) (hb : b ∈ rest ∨ ∃ u, u ≠ t ∧ b ∈ w.tasks u) (hf : b.uses? = some f) :
    w₁.pipeline? f = w.pipeline? f := by
  obtain hsame | howned := howns f
  · exact hsame
  · have howned' : (quiet a).holds? = some f ∨ ∃ p, quiet a = .pull f p := by
      rw [holds?_quiet]
      refine howned.imp_right ?_
      rintro ⟨p, rfl⟩
      exact ⟨p, rfl⟩
    have hbacked := h.backed t
    rw [hgoes.tasks] at hbacked
    obtain hrest | ⟨u, hu, hmem⟩ := hb
    · exact absurd hf (h.locked.unshared hgoes.tasks hbacked howned' hrest)
    · have hholder := h.locked.holder_of_uses hmem hf
      have hself : w.holderOf f = some t := by
        obtain hholds | ⟨p, hp⟩ := howned'
        · exact h.locked.holder_of_mem (by simp [hgoes.tasks, hholds])
        · exact h.locked.holder_of_uses (b := quiet a) (by simp [hgoes.tasks]) (by rw [hp]; rfl)
      rw [hholder] at hself
      exact absurd (Option.some.inj hself) hu

/-- A turn keeps the record if it does so for the thread that takes it. -/
theorem goes (h : Recorded P start done w) (hgoes : Goes w t a rest w₁ turn)
    (hlocked : WellLocked P (w₁.turn t turn)) (howns : Owns a w w₁)
    (hdone : ∀ r ∈ done, r ∈ done') (hready : ∀ b ∈ turn.frames, b.settingUp = false)
    (hbacked : Backed start done' w₁ rest → Backed start done' w₁ (turn.frames.map quiet ++ rest))
    (hresting : ∀ f pipeline, w₁.pipeline? f = some pipeline →
      (∀ u p, .pull f p ∈ w.tasks u → u = t ∧ quiet a = .pull f p) →
      (∀ p, .pull f p ∉ turn.frames.map quiet) → pipeline.chain.waiting = [])
    (hbooked : Booked start done' w₁.scopes)
    (hknown : ∀ i k, w₁.knows? i = some k → ∃ k', w.knows? i = some k' ∧ k'.name = k.name ∧
      k'.scope = k.scope ∧ (k.claimed = true → k'.claimed = true ∨ ∃ r ∈ done', r.sink = i))
    (hanswered : ∀ b below, turn.frames.map quiet ++ rest = b :: below → ∀ i v k,
      w₁.writing? b = some (i, v, k) → ∀ v', turn.answer = .ok v' → ∃ r ∈ done', r.sink = i) :
    Recorded P start done' (w₁.turn t turn) := by
  have hself := hgoes.tasks_self
  have hold := h.backed t
  rw [hgoes.tasks] at hold
  constructor
  · exact hlocked
  · intro u b hb
    by_cases hu : u = t
    · subst hu
      rw [hself] at hb
      obtain hb | hb := List.mem_append.mp hb
      · obtain ⟨c, hc, rfl⟩ := List.mem_map.mp hb
        rw [settingUp_quiet]
        exact hready c hc
      · exact h.ready u b (by rw [hgoes.tasks]; exact List.mem_cons_of_mem _ hb)
    · obtain hsame | ⟨_, f, m, _, _, hnew⟩ := hgoes.tasks_of_ne hu
      · exact h.ready u b (hsame ▸ hb)
      · rw [hnew, List.mem_singleton] at hb
        subst hb
        rfl
  · intro u
    by_cases hu : u = t
    · subst hu
      rw [hself]
      refine (hbacked (hold.tail.keep hdone fun b hb f hf => ?_)).keep (fun _ => id) fun _ _ _ _ => rfl
      exact h.undisturbed hgoes howns (.inl hb) hf
    · obtain hsame | ⟨_, f, m, _, _, hnew⟩ := hgoes.tasks_of_ne hu
      · rw [hsame]
        refine (h.backed u).keep hdone fun b hb f hf => ?_
        change w₁.pipeline? f = w.pipeline? f
        exact h.undisturbed hgoes howns (.inr ⟨u, hu, hb⟩) hf
      · rw [hnew]
        exact .cons (fun _ _ hb => nomatch hb) .nil
  · intro f pipeline hpipeline hnone
    refine hresting f pipeline hpipeline (fun u p hp => ?_) fun p hp => ?_
    · by_cases hu : u = t
      · subst hu
        rw [hgoes.tasks] at hp
        obtain heq | hp := List.mem_cons.mp hp
        · exact ⟨rfl, heq.symm⟩
        · exact absurd (hself ▸ List.mem_append_right _ hp) (hnone u p)
      · have hbusy : w.tasks u ≠ [] := List.ne_nil_of_mem hp
        exact absurd (hgoes.tasks_of_busy hu hbusy ▸ hp) (hnone u p)
    · exact hnone t p (hself ▸ List.mem_append_left _ hp)
  · exact hbooked
  · intro i k hk
    obtain ⟨k', hk', hname, hscope, hclaimed⟩ := hknown i k hk
    obtain ⟨k₀, hk₀, hname₀, hscope₀, hclaimed₀⟩ := h.known i k' hk'
    refine ⟨k₀, hk₀, hname₀.trans hname, hscope₀.trans hscope, fun hk => ?_⟩
    obtain hbefore | hnow := hclaimed hk
    · obtain ⟨r, hr, hsink⟩ := hclaimed₀ hbefore
      exact ⟨r, hdone r hr, hsink⟩
    · exact hnow
  · intro u b below hb i v k hwriting v' hanswer
    rw [writing?_turn] at hwriting
    by_cases hu : u = t
    · subst hu
      rw [hself] at hb
      rw [hgoes.answerOf_self] at hanswer
      exact hanswered b below hb i v k hwriting v' hanswer
    · rw [hgoes.answerOf_of_ne hu] at hanswer
      obtain hsame | ⟨_, f, m, _, _, hnew⟩ := hgoes.tasks_of_ne hu
      · rw [hsame] at hb
        have hbefore : w.writing? b = some (i, v, k) := by
          rw [← hwriting]
          refine (writing?_congr fun f hf => ?_).symm
          refine h.undisturbed hgoes howns (.inr ⟨u, hu, ?_⟩) hf
          rw [hb]
          exact List.mem_cons_self
        obtain ⟨r, hr, hsink⟩ := h.answered u b below hb i v k hbefore v' hanswer
        exact ⟨r, hdone r hr, hsink⟩
      · rw [hnew] at hb
        cases hb
        cases hwriting

/-- While an activity has the lock of a flow, nobody evaluates its chain but the one above it. -/
theorem unread (h : Recorded P start done w) (hgoes : Goes w t a rest w₁ turn)
    (hholds : a.holds? = some f) (u : ThreadId) (p : PullPoint) : .pull f p ∉ w.tasks u := by
  intro hmem
  have hself : w.holderOf f = some t := h.locked.holder_of_mem (by simp [hgoes.tasks, hholds])
  by_cases hu : u = t
  · subst hu
    have hbacked := h.backed u
    rw [hgoes.tasks] at hmem hbacked
    obtain hp | hmem := List.mem_cons.mp hmem
    · have hfree : (Activity.pull f p).holds? = none := rfl
      rw [hp, holds?_quiet, hholds] at hfree
      cases hfree
    · refine h.locked.unshared hgoes.tasks hbacked (.inl ?_) hmem rfl
      rw [holds?_quiet, hholds]
  · rw [h.locked.holder_of_uses hmem rfl] at hself
    exact hu (Option.some.inj hself)

/-- Below an activity that neither writes nor evaluates a chain, none waits for a write. -/
theorem below_of_backs (h : Backs start done w a rest)
    (hwrite : ∀ s key e first p, a ≠ .write s key e first p) (hpull : ∀ f p, a ≠ .pull f p) :
    ∀ b below, rest = b :: below → w.writing? b = none := by
  unfold Backs at h
  split at h
  · exact (hwrite _ _ _ _ _ rfl).elim
  · exact (hpull _ _ rfl).elim
  · exact h

end Recorded

theorem Tends.owns (h : Tends a w w₁) : Owns a w w₁ := fun f =>
  (h.pipeline f).imp_right fun hholds => .inl hholds.1

theorem Tends.knows? (h : Tends a w w₁) (i : SinkId) : w₁.knows? i = w.knows? i := by
  rw [World.knows?, World.knows?]
  obtain hsame | ⟨_, p, p', hp, hp', hkept⟩ := h.pipeline i.1
  · rw [hsame]
  · rw [hp, hp']
    exact hkept.known i.2

theorem pull_not_aloof {p : PullPoint} (h : a.aloof = true) : quiet a ≠ .pull f p := by
  intro heq
  rw [← aloof_quiet, heq] at h
  cases h

namespace Recorded

/-- A step beside chains, sinks and writes stores nothing. -/
theorem light (h : Recorded P start done w) (hgoes : Goes w t a rest w₁ turn)
    (hlocked : WellLocked P (w₁.turn t turn)) (haloof : a.aloof = true)
    (hlight : Light w a (w₁, turn)) : Recorded P start done (w₁.turn t turn) := by
  obtain ⟨htends, hturn⟩ := hlight
  have hbacked := h.backed t
  rw [hgoes.tasks] at hbacked
  have hbelow : ∀ b below, rest = b :: below → w₁.writing? b = none := by
    intro b below hb
    have hbefore : w.writing? b = none := by
      refine below_of_backs hbacked.head (fun s key e first p heq => ?_)
        (fun f p => pull_not_aloof haloof) b below hb
      rw [← aloof_quiet, heq] at haloof
      cases haloof
    rw [← hbefore]
    refine writing?_congr fun f hf => h.undisturbed hgoes htends.owns (.inl ?_) hf
    rw [hb]
    exact List.mem_cons_self
  have hwaiting {f : FlowId} {pipeline : Pipeline} (hpipeline : w₁.pipeline? f = some pipeline)
      (hnone : ∀ u p, .pull f p ∉ w.tasks u) : pipeline.chain.waiting = [] := by
    obtain hsame | ⟨_, p, p', hp, hp', hkept⟩ := htends.pipeline f
    · exact h.resting f pipeline (hsame ▸ hpipeline) hnone
    · rw [hp'] at hpipeline
      cases hpipeline
      obtain hsame | hempty := hkept.waiting
      · rw [hsame]
        exact h.resting f p hp hnone
      · exact hempty
  have hnopull {f : FlowId} (hpulls : ∀ u p, .pull f p ∈ w.tasks u → u = t ∧ quiet a = .pull f p)
      (u : ThreadId) (p : PullPoint) : .pull f p ∉ w.tasks u :=
    fun hmem => pull_not_aloof haloof (hpulls u p hmem).2
  refine h.goes hgoes hlocked htends.owns (fun _ => id) ?_ ?_ ?_ (h.booked.alike htends.scopes) ?_ ?_
  · intro b hb
    obtain hall | ⟨f, back, rfl, _, _, hback⟩ := hturn
    · exact settingUp_of_aloof (hall b hb)
    · obtain rfl | hb := List.mem_cons.mp hb
      · rfl
      · rw [List.mem_singleton.mp hb]
        exact settingUp_of_aloof hback
  · intro hrest
    obtain hall | ⟨f, back, rfl, hholds, hlayer, hback⟩ := hturn
    · cases turn with
      | goto b out =>
          have hb : (quiet b).aloof = true := (aloof_quiet b).trans (hall b List.mem_cons_self)
          exact .cons (backs_of_aloof hb hbelow) hrest
      | invoke callee back =>
          have hcallee : (quiet callee).aloof = true :=
            (aloof_quiet callee).trans (hall callee List.mem_cons_self)
          have hback : (quiet back).aloof = true :=
            (aloof_quiet back).trans (hall back (List.mem_cons_of_mem _ List.mem_cons_self))
          refine .cons (backs_of_aloof hcallee ?_) (.cons (backs_of_aloof hback hbelow) hrest)
          intro b below hb
          cases hb
          exact writing?_of_aloof hback
      | exit out => exact hrest
    · have hback' : (quiet back).aloof = true := (aloof_quiet back).trans hback
      refine .cons ⟨⟨quiet back, rest, rfl, (layer_quiet back).trans hlayer⟩, ?_⟩
        (.cons (backs_of_aloof hback' hbelow) hrest)
      intro pipeline hpipeline x hx
      change x ∈ pipeline.chain.waiting at hx
      rw [hwaiting hpipeline (h.unread hgoes hholds)] at hx
      cases hx
  · intro f pipeline hpipeline hpulls _
    exact hwaiting hpipeline (hnopull hpulls)
  · intro i k hk
    rw [htends.knows?] at hk
    exact ⟨k, hk, rfl, rfl, .inl⟩
  · intro b below hb i v k hwriting
    have hnone : w₁.writing? b = none := by
      obtain hall | ⟨f, back, rfl, _, _, _⟩ := hturn
      · cases turn with
        | goto c out =>
            cases hb
            exact writing?_of_aloof ((aloof_quiet c).trans (hall c List.mem_cons_self))
        | invoke callee back =>
            cases hb
            exact writing?_of_aloof ((aloof_quiet callee).trans (hall callee List.mem_cons_self))
        | exit out => exact hbelow b below hb
      · cases hb
        simp [writing?, quiet, Chain.writing?]
    rw [hnone] at hwriting
    cases hwriting

end Recorded

/-- Serving a request above an activity that waits for it: a write is that of the sink there, and
anything else keeps away from writes. -/
theorem serve_backed {r : Request} {back : Activity} (hback : Backs start done w back rest)
    (hrest : Backed start done w rest) (hquiet : quiet back = back) (hready : back.settingUp = false)
    (hrequest : (∃ i v k s, w.writing? back = some (i, v, k) ∧ k.scope = some s ∧
        r = .write s k.name v (!k.claimed)) ∨ w.writing? back = none ∧ r.writes = false) :
    (w.serve r back).1.scopes = w.scopes ∧
      (∀ f, (w.serve r back).1.pipeline? f = w.pipeline? f) ∧
      (∀ b ∈ (w.serve r back).2.frames, b.settingUp = false) ∧
      back ∈ (w.serve r back).2.frames.map quiet ∧
      Backed start done (w.serve r back).1 ((w.serve r back).2.frames.map quiet ++ rest) ∧
      ∀ b below, (w.serve r back).2.frames.map quiet ++ rest = b :: below →
        (w.serve r back).1.writing? b = none := by
  obtain ⟨i, v, k, s, hwriting, hs, rfl⟩ | ⟨hnone, hr⟩ := hrequest
  · refine ⟨rfl, fun _ => rfl, ?_, ?_, ?_, ?_⟩
    · exact List.forall_mem_cons.mpr ⟨rfl, List.forall_mem_singleton.mpr hready⟩
    · simp [serve, Turn.frames, hquiet]
    · simp only [serve, Turn.frames, List.map_cons, List.map_nil, hquiet]
      refine .cons ⟨back, rest, i, v, k, rfl, hwriting, rfl, hs, rfl, rfl, fun _ => id⟩ ?_
      exact .cons hback hrest
    · rintro b below hb
      cases hb
      rfl
  · have hcall {callee : Activity} (hcallee : callee.aloof = true) :
        (∀ b ∈ (Turn.invoke callee back).frames, b.settingUp = false) ∧
          back ∈ (Turn.invoke callee back).frames.map quiet ∧
          Backed start done w ((Turn.invoke callee back).frames.map quiet ++ rest) ∧
          ∀ b below, (Turn.invoke callee back).frames.map quiet ++ rest = b :: below →
            w.writing? b = none := by
      have hcallee' : (quiet callee).aloof = true := (aloof_quiet callee).trans hcallee
      refine ⟨?_, by simp [Turn.frames, hquiet], ?_, ?_⟩
      · exact List.forall_mem_cons.mpr
          ⟨settingUp_of_aloof hcallee, List.forall_mem_singleton.mpr hready⟩
      · simp only [Turn.frames, List.map_cons, List.map_nil, hquiet]
        refine .cons (backs_of_aloof hcallee' ?_) (.cons hback hrest)
        intro b below hb
        cases hb
        exact hnone
      · intro b below hb
        cases hb
        exact writing?_of_aloof hcallee'
    have hstay (out : Outcome) : (∀ b ∈ (Turn.goto back out).frames, b.settingUp = false) ∧
        back ∈ (Turn.goto back out).frames.map quiet ∧
        Backed start done w ((Turn.goto back out).frames.map quiet ++ rest) ∧
        ∀ b below, (Turn.goto back out).frames.map quiet ++ rest = b :: below →
          w.writing? b = none := by
      refine ⟨List.forall_mem_singleton.mpr hready, by simp [Turn.frames, hquiet], ?_, ?_⟩
      · simp only [Turn.frames, List.map_cons, List.map_nil, hquiet]
        exact .cons hback hrest
      · intro b below hb
        simp only [Turn.frames, List.map_cons, List.map_nil, hquiet] at hb
        cases hb
        exact hnone
    cases r with
    | write s key v first => cases hr
    | look s key wait => exact ⟨rfl, fun _ => rfl, hcall rfl⟩
    | host r => exact ⟨rfl, fun _ => rfl, hcall rfl⟩
    | payload o =>
        simp only [serve]
        split
        · exact ⟨rfl, fun _ => rfl, hcall rfl⟩
        · exact ⟨rfl, fun _ => rfl, hstay _⟩
    | call name g payload => exact ⟨rfl, fun _ => rfl, hcall rfl⟩
    | stopAll =>
        simp only [serve]
        split
        · exact ⟨rfl, fun _ => rfl, hcall rfl⟩
        · exact ⟨rfl, fun _ => rfl, hstay _⟩
    | note notes =>
        obtain ⟨hready, hmem, hbacked, htop⟩ := hstay (.ok .null)
        exact ⟨rfl, fun _ => rfl, hready, hmem, hbacked.keep (fun _ => id) fun _ _ _ _ => rfl, htop⟩

theorem pipeline?_setPipeline (w : World) {cell : FlowCell} (hcell : w.flow? f = some cell)
    (p : Pipeline) (g : FlowId) :
    (w.setPipeline f p).pipeline? g = if f = g then some p else w.pipeline? g := by
  rw [World.setPipeline, pipeline?_modifyFlow]
  split
  · next hfg =>
    subst hfg
    rw [hcell]
    rfl
  · rfl

theorem writing?_pull {pipeline : Pipeline} (h : w.pipeline? f = some pipeline) (p : PullPoint) :
    w.writing? (.pull f p) =
      (pipeline.chain.writing? p).map fun (i, v, k) => ((f, .tee i), v, k) := by
  rw [writing?, h]
  rfl

namespace Recorded

/-- A step that changes the components of one flow stores nothing. -/
theorem changed (h : Recorded P start done w) (hgoes : Goes w t a rest w₁ turn)
    (hlocked : WellLocked P (w₁.turn t turn)) (howns : a.holds? = some f ∨ ∃ p, a = .pull f p)
    {pipeline pipeline' : Pipeline} (hpipeline : w.pipeline? f = some pipeline)
    (hset : ∀ g, w₁.pipeline? g = if f = g then some pipeline' else w.pipeline? g)
    (hscopes : w₁.scopes = w.scopes)
    (hknows : ∀ seat k, pipeline'.knows? seat = some k → ∃ k', pipeline.knows? seat = some k' ∧
      k'.name = k.name ∧ k'.scope = k.scope ∧
        (k.claimed = true → k'.claimed = true ∨ ∃ r ∈ done, r.sink = (f, seat)))
    (hready : ∀ b ∈ turn.frames, b.settingUp = false)
    (hbacked : Backed start done w₁ rest → Backed start done w₁ (turn.frames.map quiet ++ rest))
    (hwaiting : pipeline'.chain.waiting = [] ∨ (∃ p, .pull f p ∈ turn.frames.map quiet) ∨
      pipeline'.chain.waiting = pipeline.chain.waiting ∧ ∀ p, quiet a ≠ .pull f p)
    (htop : ∀ b below, turn.frames.map quiet ++ rest = b :: below → w₁.writing? b = none) :
    Recorded P start done (w₁.turn t turn) := by
  refine h.goes hgoes hlocked (fun g => ?_) (fun _ => id) hready hbacked ?_ ?_ ?_ ?_
  · rw [hset]
    split
    · next hfg =>
      subst hfg
      exact .inr howns
    · exact .inl rfl
  · intro g other hother hpulls hframes
    rw [hset] at hother
    split at hother
    · next hfg =>
      subst hfg
      cases hother
      obtain hempty | ⟨p, hp⟩ | ⟨hsame, hnot⟩ := hwaiting
      · exact hempty
      · exact absurd hp (hframes p)
      · rw [hsame]
        exact h.resting f pipeline hpipeline fun u p hp => hnot p (hpulls u p hp).2
    · next hfg =>
      refine h.resting g other hother fun u p hp => ?_
      obtain ⟨rfl, heq⟩ := hpulls u p hp
      obtain hholds | ⟨p', rfl⟩ := howns
      · have hfree : (Activity.pull g p).holds? = none := rfl
        rw [← heq, holds?_quiet, hholds] at hfree
        cases hfree
      · cases heq
        exact hfg rfl
  · rw [hscopes]
    exact h.booked
  · intro i k hk
    rw [World.knows?, hset] at hk
    split at hk
    · next hfg =>
      obtain ⟨k', hk', hname, hscope, hclaimed⟩ := hknows i.2 k hk
      refine ⟨k', ?_, hname, hscope, fun hk => (hclaimed hk).imp_right ?_⟩
      · rw [World.knows?, ← hfg, hpipeline]
        exact hk'
      · rw [hfg]
        exact id
    · exact ⟨k, hk, rfl, rfl, .inl⟩
  · intro b below hb i v k hwriting
    rw [htop b below hb] at hwriting
    cases hwriting

/-- What a sink knows once its write has come to an end; a success is in the record. -/
theorem knows_after {k : Variable} {answer : Outcome} {i : SinkId}
    (hanswer : ∀ v, answer = .ok v → ∃ r ∈ done, r.sink = i) :
    k.name = (k.after answer).name ∧ k.scope = (k.after answer).scope ∧
      ((k.after answer).claimed = true → k.claimed = true ∨ ∃ r ∈ done, r.sink = i) := by
  cases answer with
  | ok v => exact ⟨rfl, rfl, fun _ => .inr (hanswer v rfl)⟩
  | error e => exact ⟨rfl, rfl, .inl⟩

/-- A step of a read keeps the record. -/
theorem pull (h : Recorded P start done w) {p : PullPoint}
    (hgoes : Goes w t (.pull f p) rest w₁ turn) (hlocked : WellLocked P (w₁.turn t turn))
    (hstep : w.pull f p (w.answerOf t) = some (w₁, turn)) :
    Recorded P start done (w₁.turn t turn) := by
  have hbacked := h.backed t
  rw [hgoes.tasks] at hbacked
  obtain ⟨⟨c, below, rfl, hlayer⟩, hlone⟩ := hbacked.head
  simp only [World.pull] at hstep
  obtain ⟨cell, hcell, hstep⟩ := Option.map_eq_some_iff.mp hstep
  have hpipeline : w.pipeline? f = some cell.pipeline := by rw [pipeline?, hcell]; rfl
  obtain ⟨hkept, hafter⟩ :=
    cell.pipeline.chain.step_writes (hlone _ hpipeline) w.clock (w.answerOf t)
  have hanswer {i : SinkId} {v : Value} {k : Variable}
      (hwriting : w.writing? (.pull f p) = some (i, v, k)) :=
    h.answered t (.pull f p) (c :: below) hgoes.tasks i v k hwriting
  generalize cell.pipeline.chain.step w.clock p (w.answerOf t) = result at hkept hafter hstep
  obtain ⟨chain, move⟩ := result
  have hset := pipeline?_setPipeline w hcell { cell.pipeline with chain := chain }
  have hknows (seat : Seat) (k : Variable)
      (hk : Pipeline.knows? { cell.pipeline with chain := chain } seat = some k) :
      ∃ k', cell.pipeline.knows? seat = some k' ∧ k'.name = k.name ∧ k'.scope = k.scope ∧
        (k.claimed = true → k'.claimed = true ∨ ∃ r ∈ done, r.sink = (f, seat)) := by
    cases seat with
    | terminal => exact ⟨k, hk, rfl, rfl, .inl⟩
    | tee j =>
        have hchain := hafter j
        rw [show chain.knows? j = some k from hk] at hchain
        split at hchain
        · next i v k' hwriting =>
          have hw : w.writing? (.pull f p) = some ((f, .tee i), v, k') := by
            simp [writing?, hpipeline, hwriting]
          split at hchain
          · next hji =>
            cases hchain
            have hbefore := knows?_of_writing? hw
            rw [World.knows?, hpipeline, ← hji] at hbefore
            exact ⟨k', hbefore, knows_after (hji ▸ hanswer hw)⟩
          · exact ⟨k, hchain.symm, rfl, rfl, .inl⟩
        · exact ⟨k, hchain.symm, rfl, rfl, .inl⟩
  have hscopes : (w.setPipeline f { cell.pipeline with chain := chain }).scopes = w.scopes := rfl
  generalize w.setPipeline f { cell.pipeline with chain := chain } = read at hset hscopes hstep
  have hread : read.pipeline? f = some { cell.pipeline with chain := chain } := by
    rw [hset, if_pos rfl]
  have hrest : Backed start done read (c :: below) := by
    refine hbacked.tail.keep (fun _ => id) fun b hb g hg => ?_
    rw [hset]
    split
    · next hfg =>
      subst hfg
      exact absurd hg (h.locked.unshared hgoes.tasks hbacked (.inr ⟨p, rfl⟩) hb)
    · rfl
  have hbacks {p' : PullPoint} (hlone' : chain.Lone p') :
      Backs start done read (.pull f p') (c :: below) := by
    refine ⟨⟨c, below, rfl, hlayer⟩, fun pipeline hpl => ?_⟩
    rw [hread] at hpl
    cases hpl
    exact hlone'
  cases move with
  | go p' =>
      cases hstep
      refine h.changed hgoes hlocked (.inr ⟨p, rfl⟩) hpipeline hset hscopes hknows
        (List.forall_mem_singleton.mpr rfl) (.cons (hbacks hkept.1))
        (.inr (.inl ⟨p', List.mem_cons_self⟩)) ?_
      intro b below hb
      cases hb
      exact (writing?_pull hread p').trans (by rw [hkept.2]; rfl)
  | ask r p' =>
      obtain ⟨hlone', hrequest⟩ := hkept
      obtain ⟨hsame, hpipes, hready, hmem, hserved, htop⟩ :=
        serve_backed (r := r) (hbacks hlone') hrest rfl rfl <| by
          rw [writing?_pull hread p']
          obtain ⟨i, v, k, s, hwriting, hs, hr⟩ | ⟨hnone, hr⟩ := hrequest
          · exact .inl ⟨(f, .tee i), v, k, s, by rw [hwriting]; rfl, hs, hr⟩
          · exact .inr ⟨by rw [hnone]; rfl, hr⟩
      simp only at hstep
      rw [hstep] at hsame hpipes hready hmem hserved htop
      exact h.changed hgoes hlocked (.inr ⟨p, rfl⟩) hpipeline
        (fun g => (hpipes g).trans (hset g)) (hsame.trans hscopes) hknows hready (fun _ => hserved)
        (.inr (.inl ⟨p', hmem⟩)) htop
  | done out =>
      cases hstep
      refine h.changed hgoes hlocked (.inr ⟨p, rfl⟩) hpipeline hset hscopes hknows
        (List.forall_mem_nil _) id (.inl hkept) ?_
      intro b below hb
      cases hb
      refine writing?_of_not_uses ?_
      cases c <;> first | rfl | cases hlayer

/-- A move of the sink that takes a payload keeps the record. -/
theorem afterSink (h : Recorded P start done w) {v : Value} {p : PushPoint}
    (hgoes : Goes w t (.push f v p) rest w₁ turn) (hlocked : WellLocked P (w₁.turn t turn))
    (hholds : (Activity.push f v p).holds? = some f) {cell : FlowCell}
    (hcell : w.flow? f = some cell) {m : SinkBody × SinkMove}
    (hmove : w.afterSink f v cell m = (w₁, turn))
    (hasks : ∀ r wait, m.2 = .ask r wait → wait.writing = true ∧ m.1.Writes v r ∨
      wait.writing = false ∧ r.writes = false)
    (hknows : ∀ k, m.1.knows? = some k → ∃ k', cell.pipeline.sink.body.knows? = some k' ∧
      k'.name = k.name ∧ k'.scope = k.scope ∧
        (k.claimed = true → k'.claimed = true ∨ ∃ r ∈ done, r.sink = (f, .terminal))) :
    Recorded P start done (w₁.turn t turn) := by
  have hbacked := h.backed t
  rw [hgoes.tasks] at hbacked
  obtain ⟨body, move⟩ := m
  have hpipeline : w.pipeline? f = some cell.pipeline := by rw [pipeline?, hcell]; rfl
  generalize hfilled : ({ cell.pipeline with sink := { cell.pipeline.sink with body := body } } :
    Pipeline) = filled
  have hchain : filled.chain = cell.pipeline.chain := by rw [← hfilled]
  have hsink : filled.sink.body = body := by rw [← hfilled]
  have hseats (seat : Seat) (k : Variable) (hk : filled.knows? seat = some k) :
      ∃ k', cell.pipeline.knows? seat = some k' ∧ k'.name = k.name ∧ k'.scope = k.scope ∧
        (k.claimed = true → k'.claimed = true ∨ ∃ r ∈ done, r.sink = (f, seat)) := by
    cases seat with
    | terminal => exact hknows k (hsink ▸ hk)
    | tee i => exact ⟨k, by rw [← hk, Pipeline.knows?, Pipeline.knows?, hchain], rfl, rfl, .inl⟩
  have hset := pipeline?_setPipeline w hcell filled
  have hscopes : (w.setPipeline f filled).scopes = w.scopes := rfl
  simp only [World.afterSink, hfilled] at hmove
  generalize w.setPipeline f filled = fed at hset hscopes hmove
  have hfed : fed.pipeline? f = some filled := by rw [hset, if_pos rfl]
  have hsame (b : Activity) (hb : b ∈ rest) (g : FlowId) (hg : b.uses? = some g) :
      fed.pipeline? g = w.pipeline? g := by
    rw [hset]
    split
    · next hfg =>
      subst hfg
      exact absurd hg
        (h.locked.unshared hgoes.tasks hbacked (.inl ((holds?_quiet _).trans hholds)) hb)
    · rfl
  have hbelow : ∀ b below, rest = b :: below → fed.writing? b = none := by
    intro b below hb
    rw [writing?_congr (hsame b (by rw [hb]; exact List.mem_cons_self))]
    exact below_of_backs hbacked.head (by rintro _ _ _ _ _ ⟨⟩) (by rintro _ _ ⟨⟩) b below hb
  have hrest : Backed start done fed rest := hbacked.tail.keep (fun _ => id) hsame
  have hwaiting : filled.chain.waiting = cell.pipeline.chain.waiting ∧
      ∀ p', quiet (.push f v p) ≠ .pull f p' :=
    ⟨by rw [hchain], by rintro _ ⟨⟩⟩
  cases move with
  | done d =>
      cases hmove
      have haloof : (Activity.push f v (.performed (cell.pipeline.sink.passOn d))).aloof = true :=
        rfl
      refine h.changed hgoes hlocked (.inl hholds) hpipeline hset hscopes hseats
        (List.forall_mem_singleton.mpr rfl) (.cons (backs_of_aloof haloof hbelow))
        (.inr (.inr hwaiting)) ?_
      intro b below hb
      cases hb
      exact writing?_of_aloof haloof
  | ask r wait =>
      have hwriting : fed.writing? (.push f v (.serving wait)) =
          if wait.writing then body.knows?.map fun k => ((f, .terminal), v, k) else none := by
        cases wait with
        | written => simp [writing?, hfed, Pipeline.knows?, SinkWait.writing, hsink]
        | _ => rfl
      have hback : Backs start done fed (.push f v (.serving wait)) rest := hbelow
      obtain ⟨hsame, hpipes, hready, hmem, hserved, htop⟩ :=
        serve_backed (r := r) hback hrest rfl rfl <| by
          rw [hwriting]
          obtain ⟨hwait, k, s, hk, hs, hr⟩ | ⟨hwait, hr⟩ := hasks r wait rfl
          · dsimp only at hk
            exact .inl ⟨(f, .terminal), v, k, s, by simp [hwait, hk], hs, hr⟩
          · exact .inr ⟨by simp [hwait], hr⟩
      simp only at hmove
      rw [hmove] at hsame hpipes hready hmem hserved htop
      exact h.changed hgoes hlocked (.inl hholds) hpipeline (fun g => (hpipes g).trans (hset g))
        (hsame.trans hscopes) hseats hready (fun _ => hserved) (.inr (.inr hwaiting)) htop

/-- A payload that comes to the sink, or goes on there with an answer, keeps the record. -/
theorem push (h : Recorded P start done w) {v : Value} {p : PushPoint}
    (hgoes : Goes w t (.push f v p) rest w₁ turn) (hlocked : WellLocked P (w₁.turn t turn))
    (hp : p = .begin ∨ ∃ wait, p = .serving wait)
    (hstep : w.push t f v (w.answerOf t) p = some (w₁, turn)) :
    Recorded P start done (w₁.turn t turn) := by
  have hanswer := h.answered t (.push f v p) rest hgoes.tasks
  obtain rfl | ⟨wait, rfl⟩ := hp
  · obtain ⟨cell, hcell, hmove⟩ := Option.map_eq_some_iff.mp hstep
    refine h.afterSink hgoes hlocked rfl hcell hmove (fun r wait => SinkBody.perform_asks) ?_
    intro k hk
    rw [SinkBody.knows?_perform] at hk
    exact ⟨k, hk, rfl, rfl, .inl⟩
  · obtain ⟨cell, hcell, hmove⟩ := Option.map_eq_some_iff.mp hstep
    refine h.afterSink hgoes hlocked rfl hcell hmove
      (fun r wait hask => .inr (SinkBody.resume_asks hask)) ?_
    intro k hk
    rw [SinkBody.knows?_resume] at hk
    cases wait with
    | written =>
        obtain ⟨k', hk', rfl⟩ := Option.map_eq_some_iff.mp hk
        refine ⟨k', hk', knows_after (hanswer (f, .terminal) v k' ?_)⟩
        simp [writing?, pipeline?, hcell, Pipeline.knows?, hk']
    | answer | noted | finished => exact ⟨k, hk, rfl, rfl, .inl⟩

/-- A step of a write changes no components; what it stores is in the record. -/
theorem moved (h : Recorded P start done w) {s : ScopeId} {key : String} {e : Entry} {first : Bool}
    {p : WritePoint} {below : List Activity} {i : SinkId} {v : Value} {k : Variable}
    (hgoes : Goes w t (.write s key e first p) (b :: below) w₁ turn)
    (hlocked : WellLocked P (w₁.turn t turn)) (hwrites : w.writing? b = some (i, v, k))
    (hpipes : ∀ f, w₁.pipeline? f = w.pipeline? f) (hdone : ∀ r ∈ done, r ∈ done')
    (hbooked : Booked start done' w₁.scopes)
    (hturn : (∃ p', turn = .next (.write s key e first p') ∧ Underway start done' i s key p') ∨
      ∃ out, turn = .exit out ∧ ∀ v', out = .ok v' → ∃ r ∈ done', r.sink = i) :
    Recorded P start done' (w₁.turn t turn) := by
  have hbacked := h.backed t
  rw [hgoes.tasks] at hbacked
  have hwriting (b : Activity) : w₁.writing? b = w.writing? b := writing?_congr fun f _ => hpipes f
  refine h.goes hgoes hlocked (fun f => .inl (hpipes f)) hdone ?_ ?_ ?_ hbooked ?_ ?_
  · intro c hc
    obtain ⟨p', rfl, _⟩ | ⟨out, rfl, _⟩ := hturn
    · rw [List.mem_singleton.mp hc]
      rfl
    · cases hc
  · intro hrest
    obtain ⟨p', rfl, hunderway⟩ | ⟨out, rfl, _⟩ := hturn
    · obtain ⟨_, _, i', v', k', hb, hwrites', hname, hscope, hfirst, he, _⟩ := hbacked.head
      cases hb
      rw [hwrites] at hwrites'
      cases hwrites'
      refine .cons ⟨b, below, i, v, k, rfl, ?_, hname, hscope, hfirst, he, hunderway⟩ hrest
      rw [hwriting, hwrites]
    · exact hrest
  · intro f pipeline hpipeline hpulls _
    refine h.resting f pipeline (hpipes f ▸ hpipeline) fun u p' hp' => ?_
    exact nomatch (hpulls u p' hp').2
  · intro i' k' hk'
    rw [World.knows?, hpipes] at hk'
    exact ⟨k', hk', rfl, rfl, .inl⟩
  · intro c below' hc i' v' k' hwrites' v'' hanswer
    rw [hwriting] at hwrites'
    obtain ⟨p', rfl, _⟩ | ⟨out, rfl, hout⟩ := hturn
    · cases hc
      cases hwrites'
    · cases hc
      rw [hwrites] at hwrites'
      cases hwrites'
      exact hout v'' hanswer

/-- A step of a write keeps the record, to which it adds what it stores. -/
theorem write (h : Recorded P start done w) {s : ScopeId} {key : String} {e : Entry} {first : Bool}
    {p : WritePoint} (hgoes : Goes w t (.write s key e first p) rest w₁ turn)
    (hlocked : WellLocked P (w₁.turn t turn)) (hstep : w.write s key e first p = some (w₁, turn)) :
    Recorded P start ((Taken.mk w t (.write s key e first p)).stored?.toList ++ done)
      (w₁.turn t turn) := by
  have htasks : w.tasks t = .write s key e first p :: rest := hgoes.tasks
  have hbacked := h.backed t
  rw [htasks] at hbacked
  obtain ⟨b, below, i, v, k, rfl, hwrites, rfl, hscope, rfl, rfl, hway⟩ := hbacked.head
  cases p with
  | seek q =>
      have hstored : (Taken.mk w t
          (.write s k.name (.value v) (!k.claimed) (.seek q))).stored? = none := by
        simp [Taken.stored?, Taken.refused, storing?, htasks]
      rw [hstored]
      unfold World.write at hstep
      split at hstep
      · next e' heq =>
        cases heq
        cases hstep
        exact h.moved hgoes hlocked hwrites (fun _ => rfl) (fun _ => id) h.booked
          (.inr ⟨_, rfl, fun _ hok => nomatch hok⟩)
      · next owner name heq =>
        cases heq
        cases hstep
        exact h.moved hgoes hlocked hwrites (fun _ => rfl) (fun _ => id) h.booked
          (.inl ⟨_, rfl, hway _ .here⟩)
      · next q' _ _ heq =>
        cases heq
        cases hstep
        refine h.moved hgoes hlocked hwrites (fun _ => rfl) (fun _ => id) h.booked (.inl ⟨_, rfl, ?_⟩)
        intro slot hcomes
        exact hway slot (OwnerSearch.comes_of_step_filled h.booked.filled hcomes)
      all_goals contradiction
  | store owner name =>
      have hstores : w.storing? t = some ⟨i, (owner, name), v⟩ := by
        simp [storing?, htasks, hwrites]
      obtain ⟨k₀, hk₀, hname, hscope₀, hclaimed⟩ := h.known i k (knows?_of_writing? hwrites)
      -- Unless the slot is taken, what is stored there is the sink's first value or a later one.
      have hbooked (hfirst : w.scopes.entry? owner name = none ∨ k.claimed = true) :
          Booked start (⟨i, (owner, name), v⟩ :: done) (w.scopes.put owner name (.value v)) := by
        refine h.booked.store (r := ⟨i, (owner, name), v⟩) hk₀ (hscope₀.trans hscope) ?_
          (hfirst.imp_right hclaimed)
        rw [hname]
        exact hway
      have hnew : ∃ r ∈ (⟨i, (owner, name), v⟩ : Stored) :: done, r.sink = i :=
        ⟨_, List.mem_cons_self, rfl⟩
      unfold World.write at hstep
      dsimp only at hstep
      cases hk : k.claimed with
      | false =>
          rw [hk] at hstep hgoes
          cases hentry : w.scopes.entry? owner name with
          | some e' =>
              have hstored : (Taken.mk w t (.write s k.name (.value v) (!false)
                  (.store owner name))).stored? = none := by
                simp [Taken.stored?, Taken.refused, hentry]
              rw [hentry] at hstep
              cases hstep
              rw [hstored]
              exact h.moved hgoes hlocked hwrites (fun _ => rfl) (fun _ => id) h.booked
                (.inr ⟨_, rfl, fun _ hok => nomatch hok⟩)
          | none =>
              have hstored : (Taken.mk w t (.write s k.name (.value v) (!false)
                  (.store owner name))).stored? = some ⟨i, (owner, name), v⟩ := by
                rw [Taken.stored?, if_neg (by simp [Taken.refused, hentry]), hstores]
              rw [hentry] at hstep
              cases hstep
              rw [hstored]
              exact h.moved hgoes hlocked hwrites (fun _ => rfl) (fun _ => List.mem_cons_of_mem _)
                (hbooked (.inl hentry)) (.inl ⟨_, rfl, hnew⟩)
      | true =>
          rw [hk] at hstep hgoes
          have hstored : (Taken.mk w t (.write s k.name (.value v) (!true)
              (.store owner name))).stored? = some ⟨i, (owner, name), v⟩ := by
            rw [Taken.stored?, if_neg (by simp [Taken.refused]), hstores]
          cases hstep
          rw [hstored]
          exact h.moved hgoes hlocked hwrites (fun _ => rfl) (fun _ => List.mem_cons_of_mem _)
            (hbooked (.inr hk)) (.inr ⟨_, rfl, fun _ _ => hnew⟩)
  | wake =>
      have hstored : (Taken.mk w t
          (.write s k.name (.value v) (!k.claimed) .wake)).stored? = none := by
        simp [Taken.stored?, Taken.refused, storing?, htasks]
      rw [hstored]
      unfold World.write at hstep
      dsimp only at hstep
      split at hstep
      · cases hstep
        exact h.moved hgoes hlocked hwrites (fun _ => rfl) (fun _ => id) h.booked
          (.inr ⟨_, rfl, fun _ _ => hway⟩)
      · cases hstep

end Recorded

end World
end PullFlow.Engine
