import PullFlow.Proofs.Engine.Upkeep

/-!
What sinks have stored so far, read off the turns of a run. A write stands above the activity that
hands a payload to a sink: the one at the end of a flow, or a tee of a chain that is evaluated. That
activity has the lock of its flow, so no other one changes what the sink knows meanwhile.
-/

namespace PullFlow.Engine

/-- A sink of a set: the flow it belongs to and its seat there. -/
abbrev SinkId := FlowId × Seat

/-- A value that a sink has stored in a slot. -/
structure Stored where
  sink : SinkId
  slot : ScopeId × String
  value : Value

/-- The flow whose components an activity is in the middle of. -/
def Activity.uses? : Activity → Option FlowId
  | .pull f _ | .push f _ (.serving _) => some f
  | _ => none

section Locks

variable {E : FlowId → FlowId → Prop} {f : FlowId} {b : Activity} {below stack : List Activity}

/-! Who is in the middle of components has the lock of their flow. -/

theorem Nested.of_append {front : List Activity} (h : Nested E (front ++ stack)) :
    Nested E stack := by
  induction front with
  | nil => exact h
  | cons a front ih => exact ih h.tail

theorem mem_locksOf_of_uses (h : Nested E (b :: below)) (hb : b.uses? = some f) :
    f ∈ locksOf (b :: below) := by
  unfold Activity.uses? at hb
  split at hb
  · cases hb
    have hrests := h.rests
    obtain ⟨c, rest, rfl, hc⟩ : ∃ c rest, below = c :: rest ∧ c.holds? = some f := hrests
    simp [hc]
  · cases hb
    simp [Activity.holds?]
  · cases hb

theorem mem_locksOf_of_mem (h : Nested E stack) (hmem : b ∈ stack) (hb : b.uses? = some f) :
    f ∈ locksOf stack := by
  obtain ⟨front, below, rfl⟩ := List.append_of_mem hmem
  rw [locksOf_append]
  exact List.mem_append_right _ (mem_locksOf_of_uses h.of_append hb)

end Locks

namespace World

/-- What a sink knows of its variable. -/
def knows? (w : World) (i : SinkId) : Option Variable := (w.pipeline? i.1).bind (·.knows? i.2)

/-- The write that an activity waits for: the sink, the payload and what the sink knows. -/
def writing? (w : World) : Activity → Option (SinkId × Value × Variable)
  | .pull f p =>
      (w.pipeline? f).bind fun pipeline =>
        (pipeline.chain.writing? p).map fun (i, v, k) => ((f, .tee i), v, k)
  | .push f v (.serving .written) =>
      (w.pipeline? f).bind fun pipeline =>
        (pipeline.knows? .terminal).map fun k => ((f, .terminal), v, k)
  | _ => none

end World

namespace World

/-- What the sink of a thread is about to store: its write has come to the slot. -/
def storing? (w : World) (t : ThreadId) : Option Stored :=
  match w.tasks t with
  | .write _ _ _ _ (.store owner name) :: back :: _ =>
      (w.writing? back).map fun (sink, v, _) => ⟨sink, (owner, name), v⟩
  | _ => none

namespace Taken

/-- Whether a write that must be the first one finds its slot filled. -/
def refused (taken : Taken) : Bool :=
  match taken.activity with
  | .write _ _ _ true (.store owner name) => (taken.before.scopes.entry? owner name).isSome
  | _ => false

/-- What a sink stores in a turn. -/
def stored? (taken : Taken) : Option Stored :=
  if taken.refused then none else taken.before.storing? taken.thread

end Taken
end World

/-- What sinks have stored in the course of turns, the latest first. -/
def ledger (trace : List World.Taken) : List Stored := trace.filterMap World.Taken.stored?

theorem ledger_cons (taken : World.Taken) (trace : List World.Taken) :
    ledger (taken :: trace) = taken.stored?.toList ++ ledger trace := by
  cases h : taken.stored? <;> simp [ledger, h]

namespace World

open Scope Relation

variable {P : Plan} {E : FlowId → FlowId → Prop} {w w₁ w' : World} {t u : ThreadId} {f : FlowId}
  {a b : Activity} {rest below stack : List Activity} {i : SinkId} {v : Value} {k : Variable}

theorem knows?_of_writing? (h : w.writing? a = some (i, v, k)) : w.knows? i = some k := by
  unfold writing? at h
  split at h
  · obtain ⟨pipeline, hpipeline, h⟩ := Option.bind_eq_some_iff.mp h
    obtain ⟨⟨j, v', k'⟩, hwriting, heq⟩ := Option.map_eq_some_iff.mp h
    cases heq
    rw [knows?, hpipeline]
    unfold Chain.writing? at hwriting
    split at hwriting
    · split at hwriting
      · next op wait _ hwaiting =>
        obtain ⟨_, _, hwriting⟩ := Option.bind_eq_some_iff.mp hwriting
        obtain ⟨k', hk, heq⟩ := Option.map_eq_some_iff.mp hwriting
        cases heq
        simp [Pipeline.knows?, Chain.knows?, Chain.operators, hwaiting, hk]
      · cases hwriting
    · cases hwriting
  · obtain ⟨pipeline, hpipeline, h⟩ := Option.bind_eq_some_iff.mp h
    obtain ⟨k', hk, heq⟩ := Option.map_eq_some_iff.mp h
    cases heq
    rw [knows?, hpipeline]
    exact hk
  · cases h

/-- An activity that is not in the middle of components waits for no write. -/
theorem writing?_of_not_uses (h : a.uses? = none) : w.writing? a = none := by
  unfold Activity.uses? at h
  split at h
  · cases h
  · cases h
  · next hpull hpush =>
    unfold writing?
    split
    · exact (hpull _ _ rfl).elim
    · exact (hpush _ _ _ rfl).elim
    · rfl

theorem writing?_of_aloof (h : a.aloof = true) : w.writing? a = none := by
  refine writing?_of_not_uses ?_
  unfold Activity.uses?
  split
  · cases h
  · cases h
  · rfl

/-- What an activity waits for depends on the components that it is in the middle of. -/
theorem writing?_congr (h : ∀ f, a.uses? = some f → w'.pipeline? f = w.pipeline? f) :
    w'.writing? a = w.writing? a := by
  unfold writing?
  split
  · rw [h _ rfl]
  · rw [h _ rfl]
  · rfl

/-- How far the write of a sink has come. -/
def Underway (start : World) (done : List Stored) (i : SinkId) (s : ScopeId) (key : String) :
    WritePoint → Prop
  | .seek q => ∀ slot, q.Comes start.scopes slot →
      (OwnerSearch.seek s (path key)).Comes start.scopes slot
  | .store owner name => (OwnerSearch.seek s (path key)).Comes start.scopes (owner, name)
  | .wake => ∃ r ∈ done, r.sink = i

/-- What an activity stands above: a write above the activity that waits for it, the evaluation of a
chain above the one that has the lock for it, and all others above one that waits for no write. -/
def Backs (start : World) (done : List Stored) (w : World) (a : Activity) (below : List Activity) :
    Prop :=
  match a with
  | .write s key e first p => ∃ b rest i v k, below = b :: rest ∧ w.writing? b = some (i, v, k) ∧
      k.name = key ∧ k.scope = some s ∧ first = !k.claimed ∧ e = .value v ∧
      Underway start done i s key p
  | .pull f p => (∃ b rest, below = b :: rest ∧ b.layer = .entry f) ∧
      ∀ pipeline, w.pipeline? f = some pipeline → pipeline.chain.Lone p
  | _ => ∀ b rest, below = b :: rest → w.writing? b = none

inductive Backed (start : World) (done : List Stored) (w : World) : List Activity → Prop
  | nil : Backed start done w []
  | cons {a : Activity} {below : List Activity} : Backs start done w a below →
      Backed start done w below → Backed start done w (a :: below)

variable {start : World} {done done' : List Stored}

theorem Backed.head (h : Backed start done w (a :: below)) : Backs start done w a below := by
  cases h with
  | cons hhead _ => exact hhead

theorem Backed.tail (h : Backed start done w (a :: below)) : Backed start done w below := by
  cases h with
  | cons _ htail => exact htail

theorem Underway.mono {s : ScopeId} {key : String} {p : WritePoint}
    (h : Underway start done i s key p) (hdone : ∀ r ∈ done, r ∈ done') :
    Underway start done' i s key p := by
  cases p with
  | seek q => exact h
  | store owner name => exact h
  | wake =>
      obtain ⟨r, hr, hsink⟩ := h
      exact ⟨r, hdone r hr, hsink⟩

/-- An activity that waits for no write may stand above any other such. -/
theorem backs_of_aloof (ha : a.aloof = true)
    (hbelow : ∀ b rest, below = b :: rest → w.writing? b = none) : Backs start done w a below := by
  unfold Backs
  split
  · cases ha
  · cases ha
  · exact hbelow

/-- Activities stay in their places while the components they are in the middle of stay. -/
theorem Backed.keep (h : Backed start done w stack) (hdone : ∀ r ∈ done, r ∈ done')
    (hsame : ∀ b ∈ stack, ∀ f, b.uses? = some f → w'.pipeline? f = w.pipeline? f) :
    Backed start done' w' stack := by
  induction h with
  | nil => exact .nil
  | @cons a below hhead htail ih =>
      have hbelow : ∀ b ∈ below, ∀ f, b.uses? = some f → w'.pipeline? f = w.pipeline? f :=
        fun b hb => hsame b (List.mem_cons_of_mem _ hb)
      refine .cons ?_ (ih hbelow)
      unfold Backs at hhead ⊢
      split
      · obtain ⟨b, rest, i, v, k, rfl, hwriting, hname, hscope, hfirst, he, hunderway⟩ := hhead
        refine ⟨b, rest, i, v, k, rfl, ?_, hname, hscope, hfirst, he, hunderway.mono hdone⟩
        rw [writing?_congr (hbelow b List.mem_cons_self), hwriting]
      · next f p =>
        refine ⟨hhead.1, fun pipeline hpipeline => hhead.2 pipeline ?_⟩
        rw [← hsame _ List.mem_cons_self f rfl, hpipeline]
      · next hwrite hpull =>
        intro b rest hb
        subst hb
        rw [writing?_congr (hbelow b List.mem_cons_self)]
        split at hhead
        · exact (hwrite _ _ _ _ _ rfl).elim
        · exact (hpull _ _ rfl).elim
        · exact hhead b rest rfl

theorem WellLocked.holder_of_uses (h : WellLocked P w) (hmem : b ∈ w.tasks t)
    (hb : b.uses? = some f) : w.holderOf f = some t :=
  h.holder_of_mem (mem_locksOf_of_mem (h.nested t) hmem hb)

/-- Below an activity that has a lock, or that evaluates the chain under it, no other one is in the
middle of the components of that flow. -/
theorem WellLocked.unshared (h : WellLocked P w) (htasks : w.tasks t = a :: rest)
    (hbacked : Backed start done w (a :: rest))
    (ha : a.holds? = some f ∨ ∃ p, a = .pull f p) (hmem : b ∈ rest) : b.uses? ≠ some f := by
  intro hb
  have hnested := h.nested t
  rw [htasks] at hnested
  have hcount : (locksOf (a :: rest)).count f ≤ 1 := by
    rw [← htasks, h.locks]
    split <;> omega
  obtain hholds | ⟨p, rfl⟩ := ha
  · have hbelow := List.count_pos_iff.mpr (mem_locksOf_of_mem hnested.tail hmem hb)
    simp only [locksOf_cons, hholds, Option.toList_some, List.singleton_append,
      List.count_cons_self] at hcount
    omega
  · obtain ⟨⟨c, below, rfl, hlayer⟩, _⟩ := hbacked.head
    obtain ⟨c', below', heq, hc⟩ : ∃ c' below', c :: below = c' :: below' ∧ c'.holds? = some f :=
      hnested.rests
    cases heq
    obtain rfl | hmem := List.mem_cons.mp hmem
    · unfold Activity.uses? at hb
      split at hb
      · cases hlayer
      · cases hlayer
      · cases hb
    · have hbelow := List.count_pos_iff.mpr (mem_locksOf_of_mem hnested.tail.tail hmem hb)
      simp only [locksOf_cons, hc, Option.toList_some, List.singleton_append] at hcount
      rw [show (Activity.pull f p).holds? = none from rfl, Option.toList_none, List.nil_append,
        List.count_cons_self] at hcount
      omega

end World
end PullFlow.Engine
