import PullFlow.Proofs.Engine.Frames
import PullFlow.Proofs.Engine.Ledger
import PullFlow.Proofs.Scope.Claims

/-!
Who creates the slots of scopes that many threads share. A call finds the owner of its key scope by
scope and tests and fills the slot in one later step, and between any two steps other threads write
and new scopes are made. Keys that differ may come to one slot. The test and the write are one
step, so the first write of a slot is one write, and every claim that comes later is refused.
-/

namespace PullFlow

namespace Scope

/-- A store and a later one that has more scopes and is otherwise the same. -/
structure Store.Spread (st st' : Store) : Prop where
  mem : ∀ s ∈ st, s ∈ st'
  parents : ∀ s ∈ st, st'.parent? s = st.parent? s
  entries : ∀ s n, st'.entry? s n = st.entry? s n

section Spread

variable {st st' : Store} {s : ScopeId} {names : List String} {q : OwnerSearch}

theorem Store.Alike.spread (h : st.Alike st') : st.Spread st' :=
  ⟨fun s hs => (h.members s).mpr hs, fun s _ => h.parents s, h.entries⟩

theorem Store.spread_addChild (st : Store) (parent : ScopeId) : st.Spread (st.addChild parent).1 where
  mem _ hs := mem_append hs
  parents s hs := by
    rw [parent?, parent?, addChild, nodes_append, if_neg (Nat.ne_of_lt hs)]
  entries s n := entry?_append rfl s n

theorem Store.Spread.sound (h : st.Spread st') {e : Entry} (he : st.Sound e) : st'.Sound e := by
  cases e with
  | value v => trivial
  | scope t => exact h.mem t he

theorem Store.Spread.owner (h : st.Spread st') (hst : st.Formed) (hst' : st'.Formed) (hs : s ∈ st) :
    st'.owner s names = st.owner s names :=
  owner_congr hst hst' h.parents (fun s _ n _ => h.entries s n) hs

namespace OwnerSearch

/-- A search for the owner of a path that is in a store and has some of the names left. -/
def Heads (st : Store) (names : List String) : OwnerSearch → Prop
  | .seek s left => s ∈ st ∧ left <:+ names
  | .climb here name rest => (∀ s ∈ here, s ∈ st) ∧ name :: rest <:+ names
  | .finished (.ok (o, n)) => o ∈ st ∧ [n] <:+ names
  | .finished (.error e) => ∃ left, left <:+ names ∧ e = .undefinedKey (keyOf left)

theorem Heads.mono (h : q.Heads st names) (hmem : ∀ s ∈ st, s ∈ st') : q.Heads st' names := by
  cases q with
  | seek s left => exact ⟨hmem s h.1, h.2⟩
  | climb here name rest => exact ⟨fun s hs => hmem s (h.1 s hs), h.2⟩
  | finished owner =>
      cases owner with
      | ok slot => exact ⟨hmem _ h.1, h.2⟩
      | error e => exact h

theorem Heads.step (h : q.Heads st names) (hst : st.Formed) : (q.step st).Heads st names := by
  cases q with
  | seek s left =>
      cases left with
      | nil => exact ⟨[], h.2, rfl⟩
      | cons name rest =>
          cases rest with
          | nil => exact h
          | cons next rest => exact ⟨fun t ht => Option.mem_some.mp ht ▸ h.1, h.2⟩
  | climb here name rest =>
      cases here with
      | none => exact ⟨_, h.2, rfl⟩
      | some s =>
          simp only [OwnerSearch.step]
          cases hentry : st.entry? s name with
          | none => exact ⟨fun p hp => Nat.lt_trans (hst.parents s p hp) (h.1 s rfl), h.2⟩
          | some e =>
              cases e with
              | value v => exact ⟨_, h.2, rfl⟩
              | scope t => exact ⟨hst.entries s name _ hentry, (List.suffix_cons _ _).trans h.2⟩
  | finished owner => exact h

/-- A search comes to the same owner from its next point. -/
theorem result_step (hst : st.Formed) (q : OwnerSearch) : (q.step st).result st = q.result st := by
  cases q with
  | seek s left =>
      cases left with
      | nil => rfl
      | cons name rest =>
          cases rest with
          | nil => rfl
          | cons next rest => rfl
  | climb here name rest =>
      cases here with
      | none => rfl
      | some s =>
          simp only [OwnerSearch.step, result, Option.bind_some, hst.findHead?_eq s]
          cases st.entry? s name with
          | none => rfl
          | some e =>
              cases e with
              | value v => rfl
              | scope t => rfl
  | finished owner => rfl

theorem Heads.result_spread (h : q.Heads st names) (hspread : st.Spread st') (hst : st.Formed)
    (hst' : st'.Formed) : q.result st' = q.result st := by
  cases q with
  | seek s left => exact hspread.owner hst hst' h.1
  | climb here name rest =>
      cases here with
      | none => rfl
      | some s =>
          have hhead : st'.findHead? s name = st.findHead? s name :=
            Store.findHead?_congr hst hst' hspread.parents (fun s _ => hspread.entries s name)
              (h.1 s rfl)
          simp only [result, Option.bind_some, hhead]
          cases hfound : st.findHead? s name with
          | none => rfl
          | some e =>
              cases e with
              | value v => rfl
              | scope t => exact hspread.owner hst hst' (hst.findHead hfound)
  | finished owner => rfl

end OwnerSearch

end Spread

end Scope

namespace Engine

open Scope (Store OwnerSearch path keyOf)

namespace World

/-- A call of a scope of a store, about to begin. -/
inductive Offered (st : Store) : Activity → Prop
  | look {s : ScopeId} (key : String) (wait : Bool) : s ∈ st → Offered st (lookFor s key wait)
  | write {s : ScopeId} {e : Entry} (key : String) (first : Bool) : s ∈ st → st.Sound e →
      Offered st (writeTo s key e first)
  | close {s : ScopeId} : s ∈ st → Offered st (.close s .mark)

/-- The states of threads that share a store, with the turns taken on the way, the latest first.
Between two turns a call may come, on a thread of its own, and any scope may get a child. -/
inductive Shared (st : Store) : List Taken → World → Prop
  | refl {w : World} : w.scopes = st → w.threads = [] → Shared st [] w
  | call {trace : List Taken} {w : World} {a : Activity} : Shared st trace w →
      Offered w.scopes a → Shared st trace (w.spawn a).1
  | child {trace : List Taken} {w : World} {s : ScopeId} : Shared st trace w → s ∈ w.scopes →
      Shared st trace { w with scopes := (w.scopes.addChild s).1 }
  | turn {trace : List Taken} {w w' : World} {t : ThreadId} {a : Activity} : Shared st trace w →
      w.doing? t = some a → w.step t = some w' → Shared st (⟨w, t, a⟩ :: trace) w'

namespace Taken

/-- What a turn writes: the scope and the name there, and the entry. -/
def written? (taken : Taken) : Option ((ScopeId × String) × Entry) :=
  match taken.activity with
  | .write _ _ e _ (.store owner name) => if taken.refused then none else some ((owner, name), e)
  | _ => none

/-- Whether a claim comes to a slot in a turn and is not refused. -/
def wins (slot : ScopeId × String) (taken : Taken) : Bool :=
  match taken.activity with
  | .write _ _ _ true (.store owner name) => (owner, name) == slot && !taken.refused
  | _ => false

end Taken

/-- What was written in the course of turns, the latest first. -/
def written (trace : List Taken) : List ((ScopeId × String) × Entry) :=
  trace.filterMap Taken.written?

/-- Whether nothing has been written since a thread took its first turn. -/
def undisturbed (t : ThreadId) : List Taken → Bool
  | [] => true
  | taken :: earlier =>
      undisturbed t earlier && (taken.written?.isNone || earlier.all (·.thread != t))

/-- The steps of a write. -/
inductive Writes (w : World) (s : ScopeId) (key : String) (e : Entry) :
    Bool → WritePoint → World → Turn → Prop
  | search {first : Bool} {q : OwnerSearch} : (∀ owner, q ≠ .finished owner) →
      Writes w s key e first (.seek q) w
        (.next (.write s key e first (.seek (q.step w.scopes))))
  | found {first : Bool} {o : ScopeId} {n : String} :
      Writes w s key e first (.seek (.finished (.ok (o, n)))) w
        (.next (.write s key e first (.store o n)))
  | lost {first : Bool} {error : Error} :
      Writes w s key e first (.seek (.finished (.error error))) w (.exit (.error error))
  | refused {o : ScopeId} {n : String} : (w.scopes.entry? o n).isSome →
      Writes w s key e true (.store o n) w (.exit (.error (.claimConflict key)))
  | won {o : ScopeId} {n : String} : w.scopes.entry? o n = none →
      Writes w s key e true (.store o n) { w with scopes := w.scopes.put o n e }
        (.next (.write s key e true .wake))
  | set {o : ScopeId} {n : String} :
      Writes w s key e false (.store o n) { w with scopes := w.scopes.put o n e } .done
  | woken {first : Bool} : Writes w s key e first .wake (w.wake s) .done

section Steps

variable {st : Store} {w w₁ w' : World} {t u : ThreadId} {a : Activity} {s o : ScopeId}
  {n key : String} {e : Entry} {first : Bool} {p : WritePoint} {turn : Turn} {trace : List Taken}

theorem write_writes (h : w.write s key e first p = some (w₁, turn)) :
    Writes w s key e first p w₁ turn := by
  cases p with
  | seek q =>
      cases q with
      | finished owner =>
          cases owner with
          | ok slot =>
              cases h
              exact .found
          | error error =>
              cases h
              exact .lost
      | seek here names =>
          cases h
          exact .search nofun
      | climb here name rest =>
          cases h
          exact .search nofun
  | store o n =>
      cases first with
      | false =>
          cases h
          exact .set
      | true =>
          simp only [World.write, if_true] at h
          split at h
          · next found hentry =>
            cases h
            exact .refused (by rw [hentry]; rfl)
          · next hentry =>
            cases h
            exact .won hentry
  | wake =>
      simp only [World.write] at h
      split at h
      · cases h
        exact .woken
      · cases h

/-! The calls of the threads. -/

/-- Whether a thread has taken a turn. -/
def Began (t : ThreadId) (trace : List Taken) : Prop := ∃ taken ∈ trace, taken.thread = t

/-- Whether a thread has written nothing. -/
def Spared (t : ThreadId) (trace : List Taken) : Prop :=
  ∀ taken ∈ trace, taken.thread = t → taken.written? = none

/-- How far a thread has come with the search for the owner of a key. Unless something has been
written meanwhile, the search comes to what the key has as its owner. -/
structure Seeks (st : Store) (trace : List Taken) (t : ThreadId) (s : ScopeId) (key : String)
    (q : OwnerSearch) : Prop where
  heads : q.Heads st (path key)
  spared : Spared t trace
  comes : q = .seek s (path key) ∨
    Began t trace ∧ (undisturbed t trace = true → q.result st = st.owner s (path key))

/-- What is known of a call that is under way. -/
def InHand (st : Store) (trace : List Taken) (t : ThreadId) : Activity → Prop
  | .look .. | .close .. => True
  | .write s key e _ (.seek q) => s ∈ st ∧ st.Sound e ∧ Seeks st trace t s key q
  | .write s key e _ (.store o n) =>
      s ∈ st ∧ st.Sound e ∧ Seeks st trace t s key (.finished (.ok (o, n)))
  | .write _ _ _ first .wake =>
      first = true ∧ ∃ taken ∈ trace, taken.thread = t ∧ ∃ slot, taken.wins slot = true
  | _ => False

/-- The entry written last to a slot. -/
def lastWritten? (trace : List Taken) (slot : ScopeId × String) : Option Entry :=
  ((written trace).find? (·.1 = slot)).map (·.2)

/-- What holds at all times of a store that threads share. -/
structure Tallied (st : Store) (trace : List Taken) (w : World) : Prop where
  formed : w.scopes.Formed
  entries : ∀ s n, w.scopes.entry? s n = (lastWritten? trace (s, n)).or (st.entry? s n)
  threads : ∀ taken ∈ trace, taken.thread < w.jobs.length
  calls : ∀ t, ∀ a ∈ w.tasks t, w.tasks t = [a] ∧ InHand w.scopes trace t a

variable {taken : Taken} {q : OwnerSearch} {st' : Store}

theorem written_cons (taken : Taken) (trace : List Taken) :
    written (taken :: trace) = taken.written?.toList ++ written trace := by
  cases h : taken.written? <;> simp [written, h]

theorem Began.cons (h : Began t trace) (taken : Taken) : Began t (taken :: trace) :=
  h.imp fun _ h => ⟨List.mem_cons_of_mem _ h.1, h.2⟩

theorem Spared.cons (h : Spared t trace) (htaken : taken.thread = t → taken.written? = none) :
    Spared t (taken :: trace) :=
  List.forall_mem_cons.mpr ⟨htaken, h⟩

theorem undisturbed_before (h : undisturbed t (taken :: trace) = true) :
    undisturbed t trace = true :=
  (Bool.and_eq_true_iff.mp h).1

/-- A write disturbs all who have begun. -/
theorem Began.disturbed (h : Began t trace) (htaken : taken.written? ≠ none) :
    undisturbed t (taken :: trace) = false := by
  obtain ⟨first, hmem, rfl⟩ := h
  cases hwritten : taken.written? with
  | none => exact absurd hwritten htaken
  | some r =>
      have hany : (trace.all (·.thread != first.thread)) = false :=
        List.all_eq_false.mpr ⟨first, hmem, by simp⟩
      simp [undisturbed, hwritten, hany]

/-- A search stays where it is while the store grows by scopes. -/
theorem Seeks.spread (h : Seeks st trace t s key q) (hspread : st.Spread st') (hst : st.Formed)
    (hst' : st'.Formed) (hs : s ∈ st) : Seeks st' trace t s key q where
  heads := h.heads.mono hspread.mem
  spared := h.spared
  comes := h.comes.imp_right fun ⟨hbegan, hcomes⟩ => ⟨hbegan, fun hquiet => by
    rw [h.heads.result_spread hspread hst hst', hcomes hquiet, hspread.owner hst hst' hs]⟩

/-- Turns in which the thread itself writes nothing, and others nothing once it has begun. -/
theorem Seeks.cons (h : Seeks st trace t s key q) (hown : taken.thread = t → taken.written? = none)
    : Seeks st (taken :: trace) t s key q where
  heads := h.heads
  spared := h.spared.cons hown
  comes := h.comes.imp_right fun ⟨hbegan, hcomes⟩ =>
    ⟨hbegan.cons taken, fun hquiet => hcomes (undisturbed_before hquiet)⟩

/-- A write of another thread. -/
theorem Seeks.put (h : Seeks st trace t s key q) (hother : taken.thread ≠ t)
    (htaken : taken.written? ≠ none) (o : ScopeId) (n : String) (e : Entry) :
    Seeks (st.put o n e) (taken :: trace) t s key q where
  heads := h.heads.mono fun s hs => (Store.mem_put st o s n e).mpr hs
  spared := h.spared.cons fun hsame => absurd hsame hother
  comes := h.comes.imp_right fun ⟨hbegan, _⟩ =>
    ⟨hbegan.cons taken, fun hquiet => by rw [hbegan.disturbed htaken] at hquiet; cases hquiet⟩

/-- A step of the search. -/
theorem Seeks.step (h : Seeks st trace t s key q) (hst : st.Formed) (hown : taken.thread = t)
    (htaken : taken.written? = none) : Seeks st (taken :: trace) t s key (q.step st) where
  heads := h.heads.step hst
  spared := h.spared.cons fun _ => htaken
  comes := by
    refine .inr ⟨⟨taken, List.mem_cons_self, hown⟩, fun hquiet => ?_⟩
    rw [OwnerSearch.result_step hst]
    obtain rfl | ⟨_, hcomes⟩ := h.comes
    · rfl
    · exact hcomes (undisturbed_before hquiet)

theorem InHand.spread (h : InHand st trace t a) (hspread : st.Spread st') (hst : st.Formed)
    (hst' : st'.Formed) : InHand st' trace t a := by
  unfold InHand at h
  split at h
  · trivial
  · trivial
  · exact ⟨hspread.mem _ h.1, hspread.sound h.2.1, h.2.2.spread hspread hst hst' h.1⟩
  · exact ⟨hspread.mem _ h.1, hspread.sound h.2.1, h.2.2.spread hspread hst hst' h.1⟩
  · exact h
  · exact h.elim

theorem InHand.cons (h : InHand st trace t a) (hown : taken.thread = t → taken.written? = none) :
    InHand st (taken :: trace) t a := by
  unfold InHand at h
  split at h
  · trivial
  · trivial
  · exact ⟨h.1, h.2.1, h.2.2.cons hown⟩
  · exact ⟨h.1, h.2.1, h.2.2.cons hown⟩
  · exact ⟨h.1, h.2.imp fun _ h => ⟨List.mem_cons_of_mem _ h.1, h.2⟩⟩
  · exact h.elim

theorem InHand.put (h : InHand st trace t a) (hother : taken.thread ≠ t)
    (htaken : taken.written? ≠ none) (o : ScopeId) (n : String) (e : Entry) :
    InHand (st.put o n e) (taken :: trace) t a := by
  have hsound {e' : Entry} (he : st.Sound e') : (st.put o n e).Sound e' :=
    (Store.sound_update st o _ e').mpr he
  unfold InHand at h
  split at h
  · trivial
  · trivial
  · exact ⟨(Store.mem_put ..).mpr h.1, hsound h.2.1, h.2.2.put hother htaken o n e⟩
  · exact ⟨(Store.mem_put ..).mpr h.1, hsound h.2.1, h.2.2.put hother htaken o n e⟩
  · exact ⟨h.1, h.2.imp fun _ h => ⟨List.mem_cons_of_mem _ h.1, h.2⟩⟩
  · exact h.elim

/-- A call that has just come. -/
theorem Offered.inHand (h : Offered st a) (hnew : ∀ taken ∈ trace, taken.thread ≠ t) :
    InHand st trace t (quiet a) := by
  cases h with
  | look key wait hs => trivial
  | write key first hs he =>
      exact ⟨hs, he, ⟨hs, List.suffix_rfl⟩, fun taken hmem ht => absurd ht (hnew taken hmem), .inl rfl⟩
  | close hs => trivial

theorem not_asks_look {wait : Bool} {p : LookPoint} {callee : Activity} :
    ¬ (Activity.look s key wait p).Asks callee := by
  intro h
  cases h with
  | move hmover => cases hmover

theorem not_asks_close {p : ClosePoint} {callee : Activity} :
    ¬ (Activity.close s p).Asks callee := by
  intro h
  cases h with
  | move hmover => cases hmover

namespace Tallied

variable {start : Store} {rest : List Activity}

theorem init (hscopes : w.scopes = st) (hthreads : w.threads = []) (hst : st.Formed) :
    Tallied st [] w where
  formed := hscopes ▸ hst
  entries s n := by rw [hscopes]; rfl
  threads _ hmem := absurd hmem List.not_mem_nil
  calls t a ha := by
    rw [tasks_eq, stackOf, hthreads] at ha
    exact absurd ha List.not_mem_nil

theorem call (h : Tallied start trace w) (ha : Offered w.scopes a) :
    Tallied start trace (w.spawn a).1 where
  formed := h.formed
  entries := h.entries
  threads taken hmem := by
    rw [length_jobs, spawn, List.length_append]
    exact Nat.lt_add_right 1 (length_jobs w ▸ h.threads taken hmem)
  calls t b hb := by
    have hstack : (w.spawn a).1.stackOf t = if t = w.threads.length then [a] else w.stackOf t := by
      rw [stackOf, stackOf, spawn]
      rcases Nat.lt_trichotomy t w.threads.length with ht | rfl | ht
      · rw [List.getElem?_append_left ht, if_neg (Nat.ne_of_lt ht)]
      · simp
      · rw [if_neg (Nat.ne_of_gt ht), List.getElem?_eq_none (by simp; omega),
          List.getElem?_eq_none (Nat.le_of_lt ht)]
    rw [tasks_eq, hstack] at hb ⊢
    split at hb
    · next ht =>
      obtain rfl := List.mem_singleton.mp hb
      refine ⟨by rw [if_pos ht]; rfl, ha.inHand fun taken hmem hsame => ?_⟩
      have hlt : taken.thread < w.threads.length := length_jobs w ▸ h.threads taken hmem
      exact Nat.ne_of_lt hlt (hsame.trans ht)
    · next ht =>
      rw [if_neg ht, ← tasks_eq]
      exact h.calls t b (tasks_eq w t ▸ hb)

theorem child (h : Tallied start trace w) (hs : s ∈ w.scopes) :
    Tallied start trace { w with scopes := (w.scopes.addChild s).1 } := by
  have hformed : (w.scopes.addChild s).1.Formed :=
    h.formed.append _ rfl fun p hp => Option.mem_some.mp hp ▸ hs
  refine ⟨hformed, fun o n => ?_, h.threads, fun t a ha => ?_⟩
  · exact ((Store.spread_addChild w.scopes s).entries o n).trans (h.entries o n)
  · obtain ⟨htasks, hhand⟩ := h.calls t a ha
    exact ⟨htasks, hhand.spread (Store.spread_addChild w.scopes s) h.formed hformed⟩

/-- A turn that leaves the calls of the other threads in hand. -/
theorem goes (h : Tallied start trace w) (hgoes : Goes w t a rest w₁ turn)
    (hformed : w₁.scopes.Formed)
    (hentries : ∀ s n, w₁.scopes.entry? s n =
      (lastWritten? (⟨w, t, a⟩ :: trace) (s, n)).or (start.entry? s n))
    (hothers : ∀ u, u ≠ t → ∀ b, InHand w.scopes trace u b →
      InHand w₁.scopes (⟨w, t, a⟩ :: trace) u b)
    (hself : turn.frames = [] ∨
      ∃ b, turn.frames = [b] ∧ InHand w₁.scopes (⟨w, t, a⟩ :: trace) t (quiet b)) :
    Tallied start (⟨w, t, a⟩ :: trace) (w₁.turn t turn) where
  formed := hformed
  entries := hentries
  threads := by
    have hlength : w.jobs.length ≤ (w₁.turn t turn).jobs.length := by
      have hsame : (w₁.turn t turn).jobs.length = w₁.jobs.length := by
        rw [length_jobs, length_jobs, World.turn, modifyThread, List.length_modify]
      rw [hsame]
      obtain hjobs | ⟨f, m, _, _, _, hjobs⟩ := hgoes.moves.jobs <;> rw [hjobs]
      simp
    refine List.forall_mem_cons.mpr ⟨Nat.lt_of_lt_of_le (jobs_lt hgoes.busy) hlength,
      fun taken hmem => Nat.lt_of_lt_of_le (h.threads taken hmem) hlength⟩
  calls u b hb := by
    obtain ⟨hone, hhand⟩ := h.calls t _ (hgoes.tasks ▸ List.mem_cons_self)
    by_cases hu : u = t
    · subst hu
      rw [hgoes.tasks] at hone
      rw [hgoes.tasks_self, (List.cons.inj hone).2, List.append_nil] at hb ⊢
      obtain hframes | ⟨b', hframes, hhand'⟩ := hself
      · rw [hframes] at hb
        exact absurd hb List.not_mem_nil
      · rw [hframes] at hb ⊢
        obtain rfl := List.mem_singleton.mp hb
        exact ⟨rfl, hhand'⟩
    · obtain hsame | ⟨_, f, m, rfl, _⟩ := hgoes.tasks_of_ne hu
      · rw [hsame] at hb ⊢
        obtain ⟨htasks, hhand⟩ := h.calls u b hb
        exact ⟨htasks, hothers u hu b hhand⟩
      · exact hhand.elim

/-- A turn that writes nothing. -/
theorem reads (h : Tallied start trace w) (hgoes : Goes w t a rest w₁ turn)
    (halike : w.scopes.Alike w₁.scopes) (hnone : (⟨w, t, a⟩ : Taken).written? = none)
    (hself : turn.frames = [] ∨
      ∃ b, turn.frames = [b] ∧ InHand w.scopes (⟨w, t, a⟩ :: trace) t (quiet b)) :
    Tallied start (⟨w, t, a⟩ :: trace) (w₁.turn t turn) := by
  have hformed := h.formed.alike halike
  refine h.goes hgoes hformed (fun s n => ?_) (fun u _ b hb => ?_) ?_
  · rw [halike.entries, h.entries, lastWritten?, lastWritten?, written_cons, hnone]
    rfl
  · exact (hb.cons fun _ => hnone).spread halike.spread h.formed hformed
  · exact hself.imp_right fun ⟨b, hb, hhand⟩ =>
      ⟨b, hb, hhand.spread halike.spread h.formed hformed⟩

/-- A turn that writes. -/
theorem writes (h : Tallied start trace w) (hgoes : Goes w t a rest w₁ turn) (ho : o ∈ w.scopes)
    (he : w.scopes.Sound e) (hput : w₁.scopes = w.scopes.put o n e)
    (hsome : (⟨w, t, a⟩ : Taken).written? = some ((o, n), e))
    (hself : turn.frames = [] ∨
      ∃ b, turn.frames = [b] ∧ InHand w₁.scopes (⟨w, t, a⟩ :: trace) t (quiet b)) :
    Tallied start (⟨w, t, a⟩ :: trace) (w₁.turn t turn) := by
  refine h.goes hgoes (hput ▸ h.formed.put ho n he) (fun s name => ?_) (fun u hu b hb => ?_) hself
  · rw [hput, Store.entry?_put ho, lastWritten?, written_cons, hsome]
    by_cases hslot : s = o ∧ name = n
    · obtain ⟨rfl, rfl⟩ := hslot
      simp
    · have hne : ¬ (o, n) = (s, name) := fun heq => hslot ⟨(congrArg Prod.fst heq).symm,
        (congrArg Prod.snd heq).symm⟩
      simp only [Option.toList_some, List.singleton_append, if_neg hslot]
      rw [List.find?_cons_of_neg (by simpa using hne), h.entries]
      rfl
  · rw [hput]
    exact hb.put (fun hsame => hu hsame.symm) (by rw [hsome]; simp) o n e

/-- A turn of a thread that reads or closes. -/
theorem light (h : Tallied start trace w) (hgoes : Goes w t a rest w₁ turn)
    (ha : (∃ s key wait p, a = .look s key wait p) ∨ ∃ s p, a = .close s p)
    (hstep : a.step w t (w.answerOf t) = some (w₁, turn)) :
    Tallied start (⟨w, t, a⟩ :: trace) (w₁.turn t turn) := by
  have hstacks := step_stacks hstep
  obtain ⟨s, key, wait, p, rfl⟩ | ⟨s, p, rfl⟩ := ha
  · refine h.reads hgoes (look_light hstep).tends.scopes rfl ?_
    cases turn with
    | goto b answer =>
        cases hstacks
        exact .inr ⟨_, rfl, trivial⟩
    | invoke callee back =>
        obtain ⟨hasks, hback⟩ := hstacks
        cases hback
        exact absurd hasks not_asks_look
    | exit out => exact .inl rfl
  · refine h.reads hgoes (close_light hstep).tends.scopes rfl ?_
    cases turn with
    | goto b answer =>
        cases hstacks
        exact .inr ⟨_, rfl, trivial⟩
    | invoke callee back =>
        obtain ⟨hasks, hback⟩ := hstacks
        cases hback
        exact absurd hasks not_asks_close
    | exit out => exact .inl rfl

/-- A turn of a thread that writes. -/
theorem write (h : Tallied start trace w) (hgoes : Goes w t (.write s key e first p) rest w₁ turn)
    (hstep : w.write s key e first p = some (w₁, turn)) :
    Tallied start (⟨w, t, .write s key e first p⟩ :: trace) (w₁.turn t turn) := by
  obtain ⟨_, hhand⟩ := h.calls t _ (hgoes.tasks ▸ List.mem_cons_self)
  cases write_writes hstep with
  | @search _ q _ =>
      obtain ⟨hs, he, hseeks⟩ := hhand
      exact h.reads hgoes (.refl _) rfl
        (.inr ⟨_, rfl, hs, he, hseeks.step h.formed rfl rfl⟩)
  | found =>
      obtain ⟨hs, he, hseeks⟩ := hhand
      exact h.reads hgoes (.refl _) rfl
        (.inr ⟨_, rfl, hs, he, hseeks.step h.formed rfl rfl⟩)
  | lost => exact h.reads hgoes (.refl _) rfl (.inl rfl)
  | refused hfilled =>
      exact h.reads hgoes (.refl _) (by simp [Taken.written?, Taken.refused, hfilled]) (.inl rfl)
  | @won o n hfree =>
      have hrefused : Taken.refused ⟨w, t, .write s key e true (.store o n)⟩ = false := by
        simp [Taken.refused, hfree]
      refine h.writes hgoes hhand.2.2.heads.1 hhand.2.1 rfl
        (by simp [Taken.written?, hrefused])
        (.inr ⟨_, rfl, rfl, _, List.mem_cons_self, rfl, (o, n), ?_⟩)
      simp [Taken.wins, hrefused]
  | set => exact h.writes hgoes hhand.2.2.heads.1 hhand.2.1 rfl rfl (.inl rfl)
  | woken => exact h.reads hgoes (.refl _) rfl (.inl rfl)

end Tallied

/-- What holds of a shared store at all times. -/
theorem Shared.tallied (h : Shared st trace w) (hst : st.Formed) : Tallied st trace w := by
  induction h with
  | refl hscopes hthreads => exact .init hscopes hthreads hst
  | call _ ha ih => exact ih.call ha
  | child _ hs ih => exact ih.child hs
  | turn _ ha hstep ih =>
      obtain ⟨rest, w₁, turn, hgoes, rfl⟩ := goes_of_step ha hstep
      obtain ⟨_, hhand⟩ := ih.calls _ _ (hgoes.tasks ▸ List.mem_cons_self)
      obtain hturn | ⟨r, rfl⟩ := hgoes.step
      · rename_i a _ _
        cases a with
        | look s key wait p => exact ih.light hgoes (.inl ⟨s, key, wait, p, rfl⟩) hturn
        | close s p => exact ih.light hgoes (.inr ⟨s, p, rfl⟩) hturn
        | write s key e first p => exact ih.write hgoes hturn
        | _ => exact hhand.elim
      · exact hhand.elim

/-! Who writes first. -/

theorem written?_of_wins {slot : ScopeId × String} (h : taken.wins slot = true) :
    ∃ e, taken.written? = some (slot, e) := by
  unfold Taken.wins at h
  split at h
  · next o n hactivity =>
    obtain ⟨hslot, hrefused⟩ := Bool.and_eq_true_iff.mp h
    obtain rfl := beq_iff_eq.mp hslot
    have hnot : taken.refused = false := by simpa using hrefused
    exact ⟨_, by rw [Taken.written?, hactivity]; simp only [hnot]; rfl⟩
  · cases h

theorem entry?_of_wins {o : ScopeId} (h : taken.wins (o, n) = true) :
    taken.before.scopes.entry? o n = none := by
  unfold Taken.wins at h
  split at h
  · next hactivity =>
    obtain ⟨hslot, hrefused⟩ := Bool.and_eq_true_iff.mp h
    cases beq_iff_eq.mp hslot
    simpa [Taken.refused, hactivity] using hrefused
  · cases h

/-- A slot that a claim finds free was not there at first and has not been written. -/
theorem Tallied.unwritten {slot : ScopeId × String} (h : Tallied st trace taken.before)
    (hwins : taken.wins slot = true) :
    st.entry? slot.1 slot.2 = none ∧ ∀ r ∈ written trace, r.1 ≠ slot := by
  have hnone := h.entries slot.1 slot.2
  rw [entry?_of_wins hwins] at hnone
  obtain ⟨hlast, hfirst⟩ := Option.or_eq_none_iff.mp hnone.symm
  refine ⟨hfirst, fun r hr hslot => ?_⟩
  have := List.find?_eq_none.mp (Option.map_eq_none_iff.mp hlast) r hr
  exact this (by simpa using hslot)

/-- The claim that comes to a slot first is alone, and nothing was written there before. -/
theorem Shared.wins_once (h : Shared st trace w) (hst : st.Formed) (slot : ScopeId × String) :
    trace.countP (Taken.wins slot) ≤ 1 ∧
    ∀ later taken earlier, trace = later ++ taken :: earlier → taken.wins slot = true →
      st.entry? slot.1 slot.2 = none ∧ ∀ r ∈ written earlier, r.1 ≠ slot := by
  induction h with
  | refl => exact ⟨Nat.zero_le _, fun later taken earlier hnil => by simp at hnil⟩
  | call _ _ ih => exact ih
  | child _ _ ih => exact ih
  | @turn trace w w' t a hshared _ _ ih =>
      have htallied : Tallied st trace (Taken.before ⟨w, t, a⟩) := hshared.tallied hst
      have hunwritten (hwins : Taken.wins slot ⟨w, t, a⟩ = true) := htallied.unwritten hwins
      constructor
      · rw [List.countP_cons]
        split
        · next hwins =>
          -- An earlier claim of the slot would have written it.
          have hnone : trace.countP (Taken.wins slot) = 0 := by
            refine List.countP_eq_zero.mpr fun taken hmem hbefore => ?_
            obtain ⟨e, hwritten⟩ := written?_of_wins hbefore
            exact (hunwritten hwins).2 _ (List.mem_filterMap.mpr ⟨taken, hmem, hwritten⟩) rfl
          omega
        · exact ih.1
      · intro later taken earlier htrace hwins
        cases later with
        | nil =>
            obtain ⟨rfl, rfl⟩ := List.cons.inj htrace
            exact hunwritten hwins
        | cons last later => exact ih.2 later taken earlier (List.cons.inj htrace).2 hwins

/-- A slot that was there in some state is there in every later one. -/
theorem Shared.stays (h : Shared st trace w) (hst : st.Formed) :
    ∀ taken ∈ trace, ∀ s n, (taken.before.scopes.entry? s n).isSome →
      (w.scopes.entry? s n).isSome := by
  have hlast := (h.tallied hst).entries
  induction h with
  | refl => exact fun taken hmem => nomatch hmem
  | call hshared _ ih => exact ih (hshared.tallied hst).entries
  | child hshared _ ih =>
      intro taken hmem s n hthere
      rw [(Store.spread_addChild _ _).entries]
      exact ih (hshared.tallied hst).entries taken hmem s n hthere
  | @turn trace w w' t a hshared _ _ ih =>
      intro taken hmem s n hthere
      have hbefore : (w.scopes.entry? s n).isSome := by
        obtain rfl | hmem := List.mem_cons.mp hmem
        · exact hthere
        · exact ih (hshared.tallied hst).entries taken hmem s n hthere
      rw [(hshared.tallied hst).entries] at hbefore
      rw [hlast, lastWritten?, written_cons]
      cases hwritten : Taken.written? ⟨w, t, a⟩ with
      | none => exact hbefore
      | some r =>
          by_cases hslot : r.1 = (s, n)
          · simp [hslot]
          · rw [Option.toList_some, List.singleton_append, List.find?_cons_of_neg (by simpa using hslot)]
            exact hbefore

/-- Over a whole run of threads that claim, set and read keys of shared scopes, while scopes get
children: at most one claim of a slot succeeds, and it has created the slot; a slot holds what was
written to it last, and none is removed. A claim that succeeds has won a slot; a write that fails
leaves all scopes as they were, its whole call long, because its slot was taken or because its key
has no owner, which is what the store says of the key unless it was written to meanwhile. -/
theorem claimed_once (hst : st.Formed) (h : Shared st trace w) :
    (∀ slot, trace.countP (Taken.wins slot) ≤ 1 ∧
      ∀ later taken earlier, trace = later ++ taken :: earlier → taken.wins slot = true →
        st.entry? slot.1 slot.2 = none ∧ ∀ r ∈ written earlier, r.1 ≠ slot) ∧
    (∀ s n, w.scopes.entry? s n = (lastWritten? trace (s, n)).or (st.entry? s n)) ∧
    (∀ taken ∈ trace, ∀ s n, (taken.before.scopes.entry? s n).isSome →
      (w.scopes.entry? s n).isSome) ∧
    (∀ t s key e first o n, w.doing? t = some (.write s key e first (.store o n)) →
      o ∈ w.scopes ∧ [n] <:+ path key ∧
        (undisturbed t trace = true → w.scopes.owner s (path key) = .ok (o, n))) ∧
    ∀ t s key e first p w₁ out, w.doing? t = some (.write s key e first p) →
      w.write s key e first p = some (w₁, .exit out) →
      (out = .ok .null ∧
        if first then ∃ taken ∈ trace, taken.thread = t ∧ ∃ slot, taken.wins slot = true
        else ∃ o n, p = .store o n ∧ w₁.scopes = w.scopes.put o n e) ∨
      w₁ = w ∧ Spared t trace ∧
        ((first = true ∧ out = .error (.claimConflict key) ∧
          ∃ o n, p = .store o n ∧ (w.scopes.entry? o n).isSome) ∨
        ∃ left, left <:+ path key ∧ out = .error (.undefinedKey (keyOf left)) ∧
          (undisturbed t trace = true →
            w.scopes.owner s (path key) = .error (.undefinedKey (keyOf left)))) := by
  have htallied := h.tallied hst
  have hhand {t : ThreadId} {s : ScopeId} {key : String} {e : Entry} {first : Bool} {p : WritePoint}
      (hdoing : w.doing? t = some (.write s key e first p)) :
      InHand w.scopes trace t (.write s key e first p) := by
    obtain ⟨rest, htasks⟩ := tasks_of_doing hdoing
    exact (htallied.calls t _ (htasks ▸ List.mem_cons_self)).2
  have hcomes {t : ThreadId} {s : ScopeId} {key : String} {owner : Except Error (ScopeId × String)}
      (hseeks : Seeks w.scopes trace t s key (.finished owner))
      (hquiet : undisturbed t trace = true) : w.scopes.owner s (path key) = owner := by
    obtain hfirst | ⟨_, hcomes⟩ := hseeks.comes
    · cases hfirst
    · exact (hcomes hquiet).symm
  refine ⟨h.wins_once hst, htallied.entries, h.stays hst, ?_, ?_⟩
  · intro t s key e first o n hdoing
    obtain ⟨_, _, hseeks⟩ := hhand hdoing
    exact ⟨hseeks.heads.1, hseeks.heads.2, hcomes hseeks⟩
  · intro t s key e first p w₁ out hdoing hwrite
    have hknown := hhand hdoing
    cases write_writes hwrite with
    | lost =>
        obtain ⟨_, _, hseeks⟩ := hknown
        obtain ⟨left, hleft, rfl⟩ := hseeks.heads
        exact .inr ⟨rfl, hseeks.spared, .inr ⟨left, hleft, rfl, hcomes hseeks⟩⟩
    | refused hfilled =>
        obtain ⟨_, _, hseeks⟩ := hknown
        exact .inr ⟨rfl, hseeks.spared, .inl ⟨rfl, rfl, _, _, rfl, hfilled⟩⟩
    | set => exact .inl ⟨rfl, _, _, rfl, rfl⟩
    | woken =>
        obtain ⟨rfl, hwon⟩ := hknown
        exact .inl ⟨rfl, hwon⟩

end Steps

/-- Turns that threads take one after the other. -/
theorem Shared.replay {st : Store} {trace : List Taken} {w : World} (h : Shared st trace w)
    (ts : List ThreadId) : Shared st (w.replay trace ts).1 (w.replay trace ts).2 := by
  induction ts generalizing trace w with
  | nil => exact h
  | cons t ts ih =>
      unfold World.replay
      split
      · next a w' hdoing hstep => exact ih (h.turn hdoing hstep)
      · exact h

/-- A root scope that has its child as an entry. -/
def homestead : Store := ((Store.empty.addRoot.1.addChild 0).1.put 0 "a" (.scope 1))

/-- Two threads are to claim one slot, each by a key of its own. -/
def contest : World :=
  let w : World := { empty with scopes := homestead }
  ((w.spawn (writeTo 0 "a.k" (.value (.int 1)) true)).1.spawn
    (writeTo 1 "k" (.value (.int 2)) true)).1

/-- The first thread has written, and the root scope has got another child. -/
def contestWon : List Taken × World :=
  let (trace, w) := contest.replay [] [0, 0, 0, 0, 0]
  (trace, { w with scopes := (w.scopes.addChild 0).1 })

/-- The other thread has found the slot. -/
def contestLost : List Taken × World := contestWon.2.replay contestWon.1 [1, 1]

theorem contest_shared : Shared homestead contestLost.1 contestLost.2 := by
  have hstart : Shared homestead [] { empty with scopes := homestead } := .refl rfl rfl
  have hfirst := hstart.call (.write (s := 0) "a.k" true (by decide) (e := .value (.int 1)) trivial)
  have hboth := hfirst.call (.write (s := 1) "k" true (by decide) (e := .value (.int 2)) trivial)
  exact ((hboth.replay [0, 0, 0, 0, 0]).child (s := 0) (by decide +kernel)).replay [1, 1]

/-- The claim by the other key is refused, and the first value stays. -/
theorem contest_claimed_once : homestead.Formed ∧ Shared homestead contestLost.1 contestLost.2 ∧
    contestLost.1.countP (Taken.wins (1, "k")) = 1 ∧
    contestLost.2.scopes.entry? 1 "k" = some (.value (.int 1)) ∧
    contestLost.2.write 1 "k" (.value (.int 2)) true (.store 1 "k") =
      some (contestLost.2, .exit (.error (.claimConflict "k"))) ∧ Spared 1 contestLost.1 := by
  have hset : (Store.empty.addRoot.1.addChild 0).1.set 0 "a" (.scope 1) false = .ok homestead := rfl
  have hsound : (Store.empty.addRoot.1.addChild 0).1.Sound (.scope 1) :=
    show 1 ∈ (Store.empty.addRoot.1.addChild 0).1 by decide
  have hgrown : Store.Grown homestead :=
    .set (.child (.root .empty) (by decide)) (by decide) hsound hset
  obtain ⟨hwins, hentries, _, _, hends⟩ := claimed_once hgrown.formed contest_shared
  have hrefused : contestLost.2.write 1 "k" (.value (.int 2)) true (.store 1 "k") =
      some (contestLost.2, .exit (.error (.claimConflict "k"))) := by rfl
  refine ⟨hgrown.formed, contest_shared, Nat.le_antisymm (hwins (1, "k")).1 (by decide +kernel),
    hentries 1 "k", hrefused, ?_⟩
  obtain ⟨hok, _⟩ | ⟨_, hspared, _⟩ := hends 1 1 "k" _ true _ _ _ (by rfl) hrefused
  · cases hok
  · exact hspared

end World
end Engine
end PullFlow
