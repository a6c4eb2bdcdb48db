import PullFlow.Proofs.Engine.Rings

/-!
Whether a thread can lock itself up. A thread that waits for a lock goes on only once nobody has it.
Of a document that the checks accept, no run makes a thread wait for a lock of its own unless flows
read each other on demand in a ring. The checks do not look for such rings, and a run of two flows
that feed each other comes to where one of them waits for itself.
-/

namespace PullFlow.Engine.World

open Relation

variable {w w' : World} {t u : ThreadId} {f : FlowId} {a : Activity}

theorem cell_of_holder (h : w.holderOf f = some u) :
    ∃ cell, w.flow? f = some cell ∧ cell.holder = some u :=
  Option.bind_eq_some_iff.mp h

/-- An activity that waits for a lock has no step while anyone has it. -/
theorem activity_step_of_held (hawaits : a.awaits? = some f) (hheld : w.holderOf f = some u)
    (answer : Outcome) : a.step w t answer = none := by
  obtain ⟨cell, hcell, hholder⟩ := cell_of_holder hheld
  have hlock : w.lock t f = none := by simp [lock, hcell, hholder]
  have hpipeline (change : Pipeline → HookEnd Pipeline) (next : Activity) :
      w.onPipeline f change next = none := by simp [onPipeline, hcell, hholder]
  unfold Activity.awaits? at hawaits
  split at hawaits
  all_goals cases hawaits
  · simp [Activity.step, read, hlock]
  · simp [Activity.step, push, hlock]
  · simp [Activity.step, call, hlock]
  · simp [Activity.step, finish, hlock]
  · simp [Activity.step, run, hlock]
  · simp [Activity.step, sinksActive, hcell, hholder]
  · simp [Activity.step, contextualize, hpipeline]
  · simp [Activity.step, prepare, hpipeline]
  · simp [Activity.step, wire, hpipeline]
  · simp [Activity.step, setUpAll, outflowsOf, hcell, hholder]

/-- A thread that waits for a lock does nothing while anyone has it, be it itself. -/
theorem step_of_held (ha : w.doing? t = some a) (hawaits : a.awaits? = some f)
    (hheld : w.holderOf f = some u) : w.step t = none := by
  cases hstep : w.step t with
  | none => rfl
  | some w' =>
      obtain ⟨th, b, rest, w₁, turn, hth, hstack, hturn, _⟩ := step_eq_some hstep
      rw [doing?, stackOf_of_get hth, hstack] at ha
      cases ha
      rw [activity_step_of_held hawaits hheld] at hturn
      cases hturn

/-- In a set made of a document nobody has a lock before the run. -/
theorem wellLocked_of_document {fresh : Nat → String} {d : Blueprint.Document}
    {vars : List (String × Value)} {calls : List Activity}
    (hmade : ofDocument Catalog.registry fresh d vars = .ok w)
    (hcalls : ∀ a ∈ calls, a.stops = true) :
    WellLocked w.plan (w.opened (.runAll .begin) calls) := by
  have htied : w.Tied w.plan := by
    refine tied_plan ?_ fun f cell hcell => ?_
    · obtain ⟨_, _, drafts, _, _, _, hdrafts⟩ := ofDocument_eq_ok.mp hmade
      obtain ⟨cells, directory, _, rfl⟩ := ofDrafts_eq_ok.mp hdrafts
      rfl
    · obtain ⟨_, _, hdescribed⟩ := described_of_ofDocument hmade hcell
      exact hdescribed.unattached
  have hfree (f : FlowId) : w.holderOf f = none := by
    rw [holderOf]
    cases hcell : w.flow? f with
    | none => rfl
    | some cell =>
        obtain ⟨_, _, hdescribed⟩ := described_of_ofDocument hmade hcell
        exact hdescribed.unattached.holder
  exact wellLocked_opened htied hfree hcalls

/-- In a run of a document that is accepted, where flows do not read each other on demand in a ring,
no thread waits for a lock that it has. -/
theorem never_awaits_own_lock {fresh : Nat → String} {d : Blueprint.Document}
    {vars : List (String × Value)} {calls : List Activity}
    (hmade : ofDocument Catalog.registry fresh d vars = .ok w)
    (hdraws : ∀ name, ¬ TransGen (Lint.Draws d) name name)
    (hcalls : ∀ a ∈ calls, a.stops = true) (hrun : Reach (w.opened (.runAll .begin) calls) w')
    (ha : w'.doing? t = some a) (hawaits : a.awaits? = some f) : w'.holderOf f ≠ some t := by
  have hlocked := hrun.wellLocked (wellLocked_of_document hmade hcalls)
  obtain ⟨rest, hstack⟩ : ∃ rest, w'.tasks t = quiet a :: rest := by
    rw [tasks_eq]
    cases hstack : w'.stackOf t with
    | nil =>
        rw [doing?, hstack] at ha
        cases ha
    | cons b rest =>
        rw [doing?, hstack] at ha
        cases ha
        exact ⟨rest.map quiet, rfl⟩
  intro hown
  have hmem := hlocked.mem_of_holder hown
  rw [hstack, locksOf_cons, holds?_quiet, free_of_awaits hawaits] at hmem
  refine (hstack ▸ hlocked.nested t).not_held (no_ring_of_ofDocument hmade hdraws) ?_ hmem
  rw [awaits?_quiet, hawaits]

/-- Two flows: `a` feeds `b`, which reads it on demand and runs once. -/
def feedDocument : Blueprint.Document :=
  ⟨[⟨some "a", some (.bare "bool.true"), [],
        some ⟨Blueprint.flowKind, none, [.flow "b"], []⟩, none⟩,
      ⟨some "b", none, [], some (.bare "none"), some (.bare "once")⟩], []⟩

/-- The run of the two flows up to where the thread of `b`, which has the lock of `b`, waits for
that of `a`. -/
def feedStart : World :=
  (ofDocument Catalog.registry (fun _ => "") feedDocument []).toOption.getD empty

def feedReads : World :=
  ((feedStart.opened (.runAll .begin) []).replay []
    (List.replicate 88 0 ++ List.replicate 7 1 ++ List.replicate 13 2)).2

theorem no_ring_of_feeds (name : String) : ¬ TransGen (Lint.Draws feedDocument) name name := by
  have hdraws {x y : String} (h : Lint.Draws feedDocument x y) : x = "b" ∧ y = "a" := by
    obtain ⟨f, hf, g, hg, hx, hreads, hy, hdemanded⟩ := h
    simp only [feedDocument, List.mem_cons, List.not_mem_nil, or_false] at hf hg
    obtain rfl | rfl := hg
    · cases hy
      simp only [Blueprint.Flow.demandedBy?, if_true] at hdemanded
      exact ⟨(Option.some.inj hdemanded).symm, rfl⟩
    · cases hdemanded
  intro hring
  obtain ⟨y, hfirst, _⟩ := TransGen.head'_iff.mp hring
  obtain ⟨x, _, hlast⟩ := TransGen.tail'_iff.mp hring
  have := (hdraws hfirst).1.symm.trans (hdraws hlast).2
  contradiction

theorem feed_made : ofDocument Catalog.registry (fun _ => "") feedDocument [] = .ok feedStart :=
  made_of_isOk (by decide +kernel)

/-- The thread of `b` never waits for a lock of its own, as where it waits for that of `a`. -/
theorem feed_awaits_other : feedReads.holderOf 1 = some 2 ∧
    (feedReads.doing? 2).bind Activity.awaits? = some 0 ∧ feedReads.holderOf 0 ≠ some 2 := by
  have hawaits : (feedReads.doing? 2).bind Activity.awaits? = some 0 := by decide +kernel
  obtain ⟨a, ha, hlock⟩ := Option.bind_eq_some_iff.mp hawaits
  have hreach : Reach (feedStart.opened (.runAll .begin) []) feedReads := (run_replay .refl _).reach
  exact ⟨by decide +kernel, hawaits, never_awaits_own_lock feed_made no_ring_of_feeds
    (List.forall_mem_nil _) hreach ha hlock⟩

/-- Two flows that feed each other, each of which the other reads on demand. -/
def ringDocument : Blueprint.Document :=
  ⟨[⟨some "a", none, [], some ⟨Blueprint.flowKind, none, [.flow "b"], []⟩, none⟩,
      ⟨some "b", none, [], some ⟨Blueprint.flowKind, none, [.flow "a"], []⟩, none⟩], []⟩

def ringStart : World :=
  (ofDocument Catalog.registry (fun _ => "") ringDocument []).toOption.getD empty

/-- The run of the two flows in which, once both have started, `a` reads `b` and so `a`. -/
def ringStuck : World :=
  ((ringStart.opened (.runAll .begin) []).replay []
    (List.replicate 88 0 ++ List.replicate 7 2 ++ List.replicate 17 1)).2

/-- The checks accept two flows that feed each other, and a thread of them comes to wait for a lock
that it has itself, and so does nothing more. -/
theorem ring_awaits_own_lock :
    ofDocument Catalog.registry (fun _ => "") ringDocument [] = .ok ringStart ∧
      Reach (ringStart.opened (.runAll .begin) []) ringStuck ∧
      (ringStuck.doing? 1).bind Activity.awaits? = some 0 ∧ ringStuck.holderOf 0 = some 1 ∧
      ringStuck.step 1 = none := by
  have hawaits : (ringStuck.doing? 1).bind Activity.awaits? = some 0 := by decide +kernel
  have hheld : ringStuck.holderOf 0 = some 1 := by decide +kernel
  obtain ⟨a, ha, hlock⟩ := Option.bind_eq_some_iff.mp hawaits
  exact ⟨made_of_isOk (by decide +kernel), (run_replay .refl _).reach, hawaits, hheld,
    step_of_held ha hlock hheld⟩

end PullFlow.Engine.World
