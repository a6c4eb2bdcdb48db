import PullFlow.Proofs.Engine.Dormant
import PullFlow.Proofs.Engine.Writers
import Mathlib.Data.List.Find

/-!
One writer for each variable. Whatever the sinks of a running set store, under whatever names, an
entry that was there at the end of the set-up stays as it is, and a slot that has been filled since
belongs to one sink, whose last payload it holds. All other sinks are refused there, and their
payloads fail.
-/

namespace PullFlow.Engine

/-- Whether a sink has just failed with its payload. -/
def Activity.rejects : Activity → Bool
  | .push _ _ (.performed (.error _)) | .pull _ (.reply (.error _)) => true
  | _ => false

namespace World

variable {P : Plan} {start w w₁ w₂ : World} {t : ThreadId} {a : Activity} {rest : List Activity}
  {turn : Turn} {trace : List Taken} {done : List Stored} {e : Error}

/-- The write of a thread is refused: it ends with a conflict, and nothing else happens. -/
def Refuses (w : World) (t : ThreadId) : Prop :=
  ∃ key, w.step t = some (w.turn t (.exit (.error (.claimConflict key))))

/-- A thread tells its sink of a failed write: the sink fails with its payload, and neither scopes
nor what sinks know change. -/
def DropsPayload (w : World) (t : ThreadId) : Prop :=
  ∃ w' b, w.step t = some w' ∧ w'.doing? t = some b ∧ b.rejects = true ∧ w'.scopes = w.scopes ∧
    ∀ i, w'.knows? i = w.knows? i

namespace Recorded

/-- Any step keeps the record, to which it adds what a sink stores in it. -/
theorem step (h : Recorded P start done w) (hgoes : Goes w t a rest w₁ turn)
    (hlocked : WellLocked P (w₁.turn t turn))
    (hstep : a.step w t (w.answerOf t) = some (w₁, turn)) :
    Recorded P start ((Taken.mk w t a).stored?.toList ++ done) (w₁.turn t turn) := by
  by_cases hwrite : ∃ s key e first p, a = .write s key e first p
  · obtain ⟨s, key, e, first, p, rfl⟩ := hwrite
    exact h.write hgoes hlocked hstep
  · have hnone : (Taken.mk w t a).stored? = none := by
      have htasks := hgoes.tasks
      have hstoring : w.storing? t = none := by
        unfold storing?
        split
        · next s key e first owner name back below hw =>
          rw [hw] at htasks
          refine absurd ⟨s, key, e, first, .store owner name, ?_⟩ hwrite
          injection htasks with hhead
          cases a <;> first | exact hhead.symm | cases hhead
        · rfl
      simp [Taken.stored?, hstoring]
    rw [hnone]
    by_cases haloof : a.aloof = true
    · cases hfeeds : a.feeds with
      | false => exact h.light hgoes hlocked haloof (step_light haloof hfeeds hstep)
      | true =>
          unfold Activity.feeds at hfeeds
          split at hfeeds
          · exact h.push hgoes hlocked (.inl rfl) hstep
          · cases hfeeds
    · have hready := h.ready t (quiet a) (hgoes.tasks ▸ List.mem_cons_self)
      rw [settingUp_quiet] at hready
      unfold Activity.aloof at haloof
      split at haloof
      · cases hready
      · cases hready
      · cases hready
      · cases hready
      · cases hready
      · exact absurd ⟨_, _, _, _, _, rfl⟩ hwrite
      · exact h.pull hgoes hlocked hstep
      · exact h.push hgoes hlocked (.inr ⟨_, rfl⟩) hstep
      · contradiction

theorem tick (h : Recorded P start done w) (nanos : Nat) : Recorded P start done (w.tick nanos) :=
  ⟨h.locked.tick nanos, h.ready, fun t => (h.backed t).keep (fun _ => id) fun _ _ _ _ => rfl,
    h.resting, h.booked, h.known, h.answered⟩

/-- When the flows are set up nothing is stored yet. -/
theorem of_poised (h : Poised P start) : Recorded P start [] start := by
  have hbacked {stack : List Activity} (hstack : ∀ b ∈ stack, b.aloof = true) :
      Backed start [] start stack := by
    induction stack with
    | nil => exact .nil
    | cons a below ih =>
        obtain ⟨ha, hbelow⟩ := List.forall_mem_cons.mp hstack
        refine .cons (backs_of_aloof ha fun b rest hb => ?_) (ih hbelow)
        exact writing?_of_aloof (hbelow b (hb ▸ List.mem_cons_self))
  constructor
  · exact h.locked
  · exact fun t b hb => settingUp_of_aloof (h.aloof t b hb)
  · exact fun t => hbacked (h.aloof t)
  · exact fun f pipeline hpipeline _ => (h.blank f pipeline hpipeline).waiting
  · refine ⟨.refl _, List.forall_mem_nil _, List.forall_mem_nil _, List.forall_mem_nil _, ?_⟩
    intro s n e hnone he
    rw [hnone] at he
    cases he
  · intro i k hk
    refine ⟨k, hk, rfl, rfl, fun hclaimed => ?_⟩
    obtain ⟨pipeline, hpipeline, hk⟩ := Option.bind_eq_some_iff.mp hk
    rw [(h.blank i.1 pipeline hpipeline).unclaimed i.2 k hk] at hclaimed
    cases hclaimed
  · intro t b rest htasks i v k hwriting
    have haloof := h.aloof t b (htasks ▸ List.mem_cons_self)
    rw [writing?_of_aloof haloof] at hwriting
    cases hwriting

/-- In every state of a run the record is that of the turns taken. -/
theorem of_run (h : Poised P start) (hrun : Run start trace w) :
    Recorded P start (ledger trace) w := by
  induction hrun with
  | refl => exact .of_poised h
  | @step trace w w' t a _ ha hstep ih =>
      obtain ⟨rest, w₁, turn, hgoes, rfl⟩ := goes_of_step ha hstep
      obtain hturn | ⟨r, rfl⟩ := hgoes.step
      · have htied := ih.locked.frames t (quiet a) (hgoes.tasks ▸ List.mem_cons_self)
        rw [ledger_cons]
        exact ih.step hgoes
          (ih.locked.goes hgoes (step_bounded ih.locked.tied (tied_quiet.mp htied) hturn)) hturn
      · rw [step_of_host ha] at hstep
        cases hstep
  | @host trace w t r out _ ha ih =>
      have hnone : (Taken.mk w t (.host r)).stored? = none := by
        obtain ⟨rest, htasks⟩ := tasks_of_doing ha
        simp [Taken.stored?, storing?, htasks, quiet]
      rw [ledger_cons, hnone]
      obtain hsame | ⟨r', rest, hgoes, heq⟩ := goes_hostReply w t out
      · rw [hsame]
        exact ih
      · rw [heq]
        exact ih.light hgoes (ih.locked.goes hgoes (.exit ih.locked.tied (.refl w) rfl)) rfl
          (.exit (.refl _ w))
  | tick _ ih => exact ih.tick _

end Recorded

/-! What happens at a slot that is taken. -/

theorem step_of_doing (h : w.doing? t = some a) :
    w.step t = (a.step w t (w.answerOf t)).map fun (w, turn) => w.turn t turn := by
  unfold World.step
  cases hth : w.threads[t]? with
  | none => simp [doing?, stackOf, hth] at h
  | some th =>
      cases hstack : th.stack with
      | nil => simp [doing?, stackOf, hth, hstack] at h
      | cons b rest =>
          have hb : b = a := by simpa [doing?, stackOf, hth, hstack] using h
          simp only [hstack, hb, answerOf_of_get hth]

theorem doing_of_tasks {s : ScopeId} {key : String} {e : Entry} {first : Bool} {p : WritePoint}
    (h : w.tasks t = .write s key e first p :: rest) :
    w.doing? t = some (.write s key e first p) := by
  rw [tasks_eq] at h
  cases hstack : w.stackOf t with
  | nil =>
      rw [hstack] at h
      cases h
  | cons b below =>
      rw [hstack] at h
      injection h with hhead
      rw [doing?, hstack]
      cases b <;> first | exact congrArg some hhead | cases hhead

/-- A write that comes to a slot which is filled, but not by its own sink, is refused. -/
theorem Recorded.refuses (h : Recorded P start done w) {r : Stored}
    (hstoring : w.storing? t = some r) {entry : Entry}
    (hfilled : w.scopes.entry? r.slot.1 r.slot.2 = some entry)
    (hother : start.scopes.entry? r.slot.1 r.slot.2 = none →
      ∃ r' ∈ done, r'.slot = r.slot ∧ r'.sink ≠ r.sink) : w.Refuses t := by
  unfold storing? at hstoring
  split at hstoring
  · next s key e first owner name back below htasks =>
    obtain ⟨⟨i, v, k⟩, hwriting, rfl⟩ := Option.map_eq_some_iff.mp hstoring
    have hbacked := h.backed t
    rw [htasks] at hbacked
    obtain ⟨_, _, i', v', k', heq, hwriting', hname, hscope, hfirst, he, hway⟩ := hbacked.head
    cases heq
    rw [hwriting] at hwriting'
    cases hwriting'
    obtain ⟨k₀, hk₀, hname₀, hscope₀, hclaimed⟩ := h.known i k (knows?_of_writing? hwriting)
    -- A sink that had claimed its variable would have done so here.
    have hunclaimed : k.claimed = false := by
      cases hk : k.claimed with
      | false => rfl
      | true =>
          obtain ⟨r, hr, hsink⟩ := hclaimed hk
          obtain ⟨hfree, k₁, s₁, hk₁, hs₁, hcomes⟩ := h.booked.placed r hr
          rw [hsink, hk₀] at hk₁
          cases hk₁
          rw [hscope₀, hscope] at hs₁
          cases hs₁
          rw [hname₀, hname] at hcomes
          have hslot : r.slot = (owner, name) := Scope.OwnerSearch.Comes.unique hway hcomes
          rw [hslot] at hfree
          obtain ⟨r', hr', hslot', hother⟩ := hother hfree
          have hin : owner ∈ start.scopes :=
            (h.booked.filled.mem owner).mp (Scope.Store.mem_of_entry hfilled)
          have hsole := h.booked.sole r' hr' r hr (hslot'.trans hslot.symm) (by rw [hslot']; exact hin)
          exact absurd (hsole.trans hsink) hother
    have hrefused : w.write s key e first (.store owner name) =
        some (w, .exit (.error (.claimConflict key))) := by
      unfold World.write
      dsimp only at hfilled ⊢
      simp [hfirst, hunclaimed, hfilled]
    exact ⟨key, by rw [step_of_doing (doing_of_tasks htasks), Activity.step, hrefused]; rfl⟩
  · cases hstoring

theorem doing?_next (h : w.doing? t = some a) (b : Activity) {f : FlowId} {p : Pipeline} :
    ((w.setPipeline f p).turn t (.next b)).doing? t = some b := by
  cases hth : w.threads[t]? with
  | none => simp [doing?, stackOf, hth] at h
  | some th =>
      have hth' : (w.setPipeline f p).threads[t]? = some th := hth
      rw [doing?, stackOf_turn_self hth']
      rfl

/-- Components that know what they knew. -/
theorem knows?_setPipeline {f : FlowId} {cell : FlowCell} (hcell : w.flow? f = some cell)
    {p : Pipeline} (hp : ∀ seat, p.knows? seat = cell.pipeline.knows? seat) (i : SinkId) :
    (w.setPipeline f p).knows? i = w.knows? i := by
  rw [World.knows?, pipeline?_setPipeline w hcell]
  split
  · next hfi =>
    rw [World.knows?, ← hfi, pipeline?, hcell]
    exact hp i.2
  · rfl

/-- A sink that is told of a failed write fails with its payload. -/
theorem fails_of_error {i : SinkId} {v : Value} {k : Variable} (ha : w.doing? t = some a)
    (hwriting : w.writing? a = some (i, v, k)) (hanswer : w.answerOf t = .error e) : w.DropsPayload t := by
  have hstep := step_of_doing ha
  rw [hanswer] at hstep
  have hfails {f : FlowId} {cell : FlowCell} {p : Pipeline} {b : Activity}
      (hcell : w.flow? f = some cell) (hp : ∀ seat, p.knows? seat = cell.pipeline.knows? seat)
      (hturn : a.step w t (.error e) = some (w.setPipeline f p, .next b))
      (hrejects : b.rejects = true) : w.DropsPayload t := by
    rw [hturn] at hstep
    exact ⟨_, b, hstep, doing?_next ha b, hrejects, rfl, knows?_setPipeline hcell hp⟩
  unfold writing? at hwriting
  split at hwriting
  · next f p =>
    obtain ⟨pipeline, hpipeline, hwriting⟩ := Option.bind_eq_some_iff.mp hwriting
    obtain ⟨⟨j, v', k'⟩, hwriting, _⟩ := Option.map_eq_some_iff.mp hwriting
    obtain ⟨cell, hcell, rfl⟩ := Option.map_eq_some_iff.mp hpipeline
    obtain ⟨c', e', hchain, hops⟩ := Chain.step_written_error hwriting w.clock e
    refine hfails (p := { cell.pipeline with chain := c' }) (b := .pull f (.reply (.error e')))
      hcell ?_ ?_ rfl
    · intro seat
      cases seat with
      | terminal => rfl
      | tee i => exact Chain.knows?_congr (by rw [hops]) i
    · simp only [Activity.step, World.pull, hcell, Option.map_some, hchain]
  · next f v' =>
    obtain ⟨pipeline, hpipeline, hwriting⟩ := Option.bind_eq_some_iff.mp hwriting
    obtain ⟨k', hk, _⟩ := Option.map_eq_some_iff.mp hwriting
    obtain ⟨cell, hcell, rfl⟩ := Option.map_eq_some_iff.mp hpipeline
    refine hfails (p := cell.pipeline)
      (b := .push f v' (.performed (.error (Error.relabel cell.pipeline.sink.kind e)))) hcell
      (fun _ => rfl) ?_ rfl
    simp only [Activity.step, World.push, hcell, Option.map_some,
      SinkBody.resume_written_error hk e, World.afterSink]
    rfl
  · cases hwriting

/-- Every slot has one writer. Once the flows of a set are set up, whatever its threads and those
that stop flows do in any order, the entries of that moment stay; a slot that is filled later has
been stored to by one sink only and has the last value that the sink has stored; a write of any
other sink that comes to either is refused, and a sink whose write has failed fails with its
payload and changes nothing. -/
theorem one_writer_per_slot {fresh : Nat → String} {drafts : List FlowDraft} {scopes : Scope.Store}
    {root : ScopeId} {calls : List Activity}
    (hmade : ofDrafts fresh drafts scopes root = .ok w)
    (hnew : ∀ p ∈ drafts, p.untouched = true) (hcalls : ∀ b ∈ calls, b.stops = true)
    (hsetup : Reach (w.opened (.runAll .begin) calls) w₁)
    (hready : w₁.doing? 0 = some (.runAll .ready)) (hrun : Run w₁ trace w₂) :
    (∀ s n entry, w₁.scopes.entry? s n = some entry → w₂.scopes.entry? s n = some entry ∧
      ∀ t r, w₂.storing? t = some r → r.slot = (s, n) → w₂.Refuses t) ∧
    (∀ s n entry, w₁.scopes.entry? s n = none → w₂.scopes.entry? s n = some entry →
      ∃ sink v, entry = .value v ∧
        (ledger trace).find? (·.sink = sink) = some ⟨sink, (s, n), v⟩ ∧
        (∀ r ∈ ledger trace, r.slot = (s, n) → r.sink = sink) ∧
        ∀ t r, w₂.storing? t = some r → r.slot = (s, n) → r.sink ≠ sink → w₂.Refuses t) ∧
    ∀ t a i v k e, w₂.doing? t = some a → w₂.writing? a = some (i, v, k) →
      w₂.answerOf t = .error e → w₂.DropsPayload t := by
  have hrecord := Recorded.of_run (poised_of_drafts hmade hnew hcalls hsetup hready) hrun
  have hbooked := hrecord.booked
  refine ⟨?_, ?_, fun t a i v k e => fails_of_error⟩
  · intro s n entry hentry
    have hkept := hbooked.filled.kept s n entry hentry
    refine ⟨hkept, fun t r hstoring hslot => ?_⟩
    have hfilled : w₂.scopes.entry? r.slot.1 r.slot.2 = some entry := by
      rw [hslot]
      exact hkept
    refine hrecord.refuses hstoring hfilled fun hfree => ?_
    rw [hslot, hentry] at hfree
    cases hfree
  · intro s n entry hnone hentry
    obtain ⟨r, hfind, hvalue⟩ := hbooked.latest s n entry hnone hentry
    have hr : r ∈ ledger trace := List.mem_of_find?_eq_some hfind
    have hslot : r.slot = (s, n) := by simpa using List.find?_some hfind
    have hscope : s ∈ w₁.scopes := (hbooked.filled.mem s).mp (Scope.Store.mem_of_entry hentry)
    have hsole (r' : Stored) (hr' : r' ∈ ledger trace) (hslot' : r'.slot = (s, n)) :
        r'.sink = r.sink :=
      hbooked.sole r' hr' r hr (hslot'.trans hslot.symm) (by rw [hslot']; exact hscope)
    refine ⟨r.sink, r.value, hvalue, ?_, hsole, fun t r' hstoring hslot' hother => ?_⟩
    · have hsame : (ledger trace).find? (·.sink = r.sink) = (ledger trace).find? (·.slot = (s, n)) := by
        refine List.find?_congr fun r' hr' => decide_eq_decide.mpr ⟨fun hsink => ?_, hsole r' hr'⟩
        exact (hbooked.slot_eq hr' hr hsink).trans hslot
      rw [hsame, hfind, ← hslot]
    · have hfilled : w₂.scopes.entry? r'.slot.1 r'.slot.2 = some entry := by
        rw [hslot']
        exact hentry
      exact hrecord.refuses hstoring hfilled fun _ => ⟨r, hr, hslot.trans hslot'.symm, hother.symm⟩

/-- Two flows that each write a payload to one variable of the root scope. -/
def rivalDrafts : List FlowDraft :=
  [⟨some "a", some (.make "bool.true" (.constant (.bool true)) .none), [],
      some (.make "var.set" (.var "" false none) ⟨[.literal (.text "global.x")], []⟩),
      some (.make "once" .once .none)⟩,
    ⟨some "b", some (.make "bool.false" (.constant (.bool false)) .none), [],
      some (.make "var.set" (.var "" false none) ⟨[.literal (.text "global.x")], []⟩),
      some (.make "once" .once .none)⟩]

def rivals : World :=
  (ofDrafts (fun _ => "") rivalDrafts Scope.Store.empty.addRoot.1 0).toOption.getD empty

/-- The two flows once they are set up. -/
def rivalsReady : World :=
  ((rivals.opened (.runAll .begin) []).replay [] (List.replicate 77 0)).2

/-- The run in which `a` has written while the write of `b` is about to store. -/
def rivalsRun : List Taken × World :=
  rivalsReady.replay [] (List.replicate 11 0 ++ List.replicate 24 1 ++ List.replicate 23 2)

theorem rivals_refuses : (∃ v, rivalsRun.2.scopes.entry? 0 "x" = some (.value v)) ∧
    rivalsRun.2.Refuses 2 := by
  have hmade : ofDrafts (fun _ => "") rivalDrafts Scope.Store.empty.addRoot.1 0 = .ok rivals :=
    made_of_isOk (by decide +kernel)
  have hready : rivalsReady.doing? 0 = some (.runAll .ready) := by rfl
  obtain ⟨_, hslots, _⟩ := one_writer_per_slot hmade (by decide) (List.forall_mem_nil _)
    (run_replay .refl _).reach hready (run_replay .refl _ : Run rivalsReady rivalsRun.1 rivalsRun.2)
  have hfilled : (rivalsRun.2.scopes.entry? 0 "x").isSome = true := by decide +kernel
  obtain ⟨entry, hentry⟩ := Option.isSome_iff_exists.mp hfilled
  have hnone : (rivalsReady.scopes.entry? 0 "x").isNone = true := by decide +kernel
  obtain ⟨sink, v, rfl, hfind, _, hrefuses⟩ :=
    hslots 0 "x" entry (Option.isNone_iff_eq_none.mp hnone) hentry
  have hledger : (ledger rivalsRun.1).map (·.sink) = [(0, .terminal)] := by decide +kernel
  have hsink : sink ∈ (ledger rivalsRun.1).map (·.sink) :=
    List.mem_map.mpr ⟨_, List.mem_of_find?_eq_some hfind, rfl⟩
  have hstoring : (rivalsRun.2.storing? 2).map (fun r => (r.sink, r.slot)) =
      some ((1, .terminal), (0, "x")) := by decide +kernel
  obtain ⟨r, hr, heq⟩ := Option.map_eq_some_iff.mp hstoring
  injection heq with hother hslot
  refine ⟨⟨v, hentry⟩, hrefuses 2 r hr hslot ?_⟩
  rw [hother]
  rintro rfl
  rw [hledger] at hsink
  exact absurd hsink (by decide)

end World
end PullFlow.Engine
