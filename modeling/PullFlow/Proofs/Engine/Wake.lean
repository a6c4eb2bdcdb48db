import PullFlow.Proofs.Engine.Threads
import PullFlow.Proofs.Scope.Trees

/-!
No reader of a variable sleeps through a claim or a close that concerns it. Threads that read, claim
and close in any order are at the gate of a tree one at a time, and nobody is woken while a reader
there searches and falls asleep. So an entry that the reader's search has missed is still to be
announced when the reader sleeps.
-/

namespace PullFlow.Engine.World

open Scope (Store path)

/-- A read, a claim or a close of a scope that has not begun. -/
inductive Fresh (st : Store) : Activity → Prop
  | look (s : ScopeId) (key : String) (wait : Bool) : Fresh st (lookFor s key wait)
  | claim {s : ScopeId} {e : Entry} (key : String) :
      s ∈ st → st.Within s e → Fresh st (writeTo s key e true)
  | close (s : ScopeId) : Fresh st (.close s .mark)

/-- A write that can be under way when all writes are claims: it keeps to its tree. -/
def Claiming (st : Store) (s : ScopeId) : WritePoint → Prop
  | .seek search => search.Keeps st s
  | .store o _ => o ∈ st ∧ st.rootOf o = st.rootOf s
  | .wake => True

/-- A read, a claim or a close of a scope that may be under way. -/
def UnderWay (st : Store) : Activity → Prop
  | .look .. | .close .. => True
  | .write s _ e first p => first = true ∧ s ∈ st ∧ st.Within s e ∧ Claiming st s p
  | _ => False

/-- A call under way, and calls after it. -/
def Calls (st : Store) : List Activity → Prop
  | [] => True
  | a :: rest => UnderWay st a ∧ ∀ b ∈ rest, Fresh st b

/-- The scope whose readers an activity has yet to wake. -/
def wakes? : Activity → Option ScopeId
  | .write s _ _ true .wake | .close s .wake => some s
  | _ => none

/-- The scope at whose gate an activity stands. -/
def atGate? : Activity → Option ScopeId
  | .look s _ _ (.check _) | .look s _ _ .decide => some s
  | _ => none

/-- The thread at the gate of a tree. -/
def gateOf (w : World) (root : ScopeId) : Option ThreadId := (w.scopes.nodes[root]?).bind (·.gate)

/-- Some thread has claimed a key or closed a scope in a tree and has yet to wake its readers. -/
def WakeDue (w : World) (root : ScopeId) : Prop :=
  ∃ t a s, w.doing? t = some a ∧ wakes? a = some s ∧ w.scopes.rootOf s = root

/-- What a reader at the gate or asleep relies on, unless its tree is about to be woken. -/
def Watch (w : World) : Activity → Prop
  | .look s key _ (.check search) =>
      (search.Keeps w.scopes s ∧ search.result w.scopes = w.scopes.find? s (path key)) ∨
        w.WakeDue (w.scopes.rootOf s)
  | .look s key _ .decide => w.scopes.find? s (path key) = none ∨ w.WakeDue (w.scopes.rootOf s)
  | .look s key _ .asleep =>
      (w.scopes.find? s (path key) = none ∧ w.scopes.isClosed s = false) ∨
        w.WakeDue (w.scopes.rootOf s)
  | _ => True

/-- What holds at all times when threads read, claim and close. -/
structure Orderly (w : World) : Prop where
  formed : w.scopes.Formed
  apart : w.scopes.Apart
  calls : ∀ t, Calls w.scopes (w.stackOf t)
  gate : ∀ t a s, w.doing? t = some a → atGate? a = some s → w.gateOf (w.scopes.rootOf s) = some t
  watch : ∀ t a, w.doing? t = some a → Watch w a

/-- Threads that are each about to read, claim and close, with nobody at a gate. -/
structure Ready (w : World) : Prop where
  formed : w.scopes.Formed
  apart : w.scopes.Apart
  free : ∀ root, w.gateOf root = none
  fresh : ∀ t, ∀ a ∈ w.stackOf t, Fresh w.scopes a

variable {w w' w₁ : World} {t : ThreadId} {th : Thread} {a : Activity} {rest : List Activity}

theorem Fresh.underWay {st : Store} (h : Fresh st a) : UnderWay st a := by
  cases h with
  | look s key wait => trivial
  | claim key hs he => exact ⟨rfl, hs, he, hs, rfl⟩
  | close s => trivial

theorem Fresh.watch {st : Store} (h : Fresh st a) : Watch w a := by
  cases h <;> trivial

theorem Fresh.atGate? {st : Store} (h : Fresh st a) : atGate? a = none := by
  cases h <;> rfl

theorem Fresh.keep {st st' : Store} (h : Fresh st a) (hmem : ∀ s, s ∈ st' ↔ s ∈ st)
    (hroots : ∀ s, st'.rootOf s = st.rootOf s) : Fresh st' a := by
  cases h with
  | look s key wait => exact .look s key wait
  | claim key hs he => exact .claim key ((hmem _).mpr hs) (he.keep hmem hroots)
  | close s => exact .close s

theorem Fresh.rouse {st : Store} (h : Fresh st a) (root : ScopeId) : rouse st root a = a := by
  cases h <;> rfl

theorem UnderWay.keep {st st' : Store} (h : UnderWay st a) (hmem : ∀ s, s ∈ st' ↔ s ∈ st)
    (hroots : ∀ s, st'.rootOf s = st.rootOf s) : UnderWay st' a := by
  cases a with
  | look s key wait p => trivial
  | close s p => trivial
  | write s key e first p =>
      obtain ⟨hfirst, hs, he, hp⟩ := h
      refine ⟨hfirst, (hmem s).mpr hs, he.keep hmem hroots, ?_⟩
      cases p with
      | seek search => exact hp.keep hmem hroots
      | store o n => exact ⟨(hmem o).mpr hp.1, by simpa only [hroots] using hp.2⟩
      | wake => trivial
  | _ => exact h.elim

theorem Calls.keep {st st' : Store} {stack : List Activity} (h : Calls st stack)
    (hmem : ∀ s, s ∈ st' ↔ s ∈ st) (hroots : ∀ s, st'.rootOf s = st.rootOf s) :
    Calls st' stack := by
  cases stack with
  | nil => trivial
  | cons a rest => exact ⟨h.1.keep hmem hroots, fun b hb => (h.2 b hb).keep hmem hroots⟩

theorem doing?_of_stack (ht : w.threads[t]? = some th) (hstack : th.stack = a :: rest) :
    w.doing? t = some a := by
  rw [doing?, stackOf_of_get ht, hstack]
  rfl

theorem stackOf_of_threads (h : w'.threads = w.threads) (u : ThreadId) :
    w'.stackOf u = w.stackOf u := by
  rw [stackOf, stackOf, h]

theorem WakeDue.turn {root : ScopeId} {turn : Turn} (h : w.WakeDue root)
    (ht : w.threads[t]? = some th) (hstack : th.stack = a :: rest) (hquiet : wakes? a = none)
    (hthreads : w₁.threads = w.threads) (hroots : ∀ s, w₁.scopes.rootOf s = w.scopes.rootOf s) :
    (w₁.turn t turn).WakeDue root := by
  obtain ⟨u, b, s, hdoing, hwakes, hroot⟩ := h
  have hne : u ≠ t := by
    intro hsame
    subst hsame
    have hb : b = a := Option.some_inj.mp (hdoing.symm.trans (doing?_of_stack ht hstack))
    rw [hb, hquiet] at hwakes
    cases hwakes
  refine ⟨u, b, s, ?_, hwakes, (hroots s).trans hroot⟩
  rw [doing?, stackOf_turn_of_ne _ hne, stackOf_of_threads hthreads]
  exact hdoing

/-- What a reader relies on stays true when no entry is written and no scope closed. -/
theorem Watch.keep (h : Watch w a) (halike : w.scopes.Alike w'.scopes)
    (hclosed : ∀ s, w'.scopes.isClosed s = w.scopes.isClosed s)
    (hdue : ∀ s key wait p, a = .look s key wait p →
      w.WakeDue (w.scopes.rootOf s) → w'.WakeDue (w.scopes.rootOf s)) : Watch w' a := by
  cases a with
  | look s key wait p =>
      have hlater := hdue s key wait p rfl
      cases p with
      | check search =>
          simp only [Watch, search.result_alike halike, halike.find?, halike.roots]
          exact h.imp (fun h => ⟨h.1.keep halike.roots, h.2⟩) hlater
      | decide =>
          simp only [Watch, halike.find?, halike.roots]
          exact h.imp_right hlater
      | asleep =>
          simp only [Watch, halike.find?, hclosed, halike.roots]
          exact h.imp_right hlater
      | _ => trivial
  | _ => trivial

/-- What a reader relies on stays true when another tree is written or a scope of it closed. -/
theorem Watch.keep_of_due {root : ScopeId} (h : Watch w a)
    (hroots : ∀ s, w'.scopes.rootOf s = w.scopes.rootOf s)
    (hfind : ∀ s names, w.scopes.rootOf s ≠ root →
      w'.scopes.find? s names = w.scopes.find? s names)
    (hresult : ∀ s (search : Scope.Search), w.scopes.rootOf s ≠ root → search.Keeps w.scopes s →
      search.result w'.scopes = search.result w.scopes)
    (hclosed : ∀ s, w.scopes.rootOf s ≠ root → w'.scopes.isClosed s = w.scopes.isClosed s)
    (hdue : ∀ root, w.WakeDue root → w'.WakeDue root) (hroot : w'.WakeDue root) : Watch w' a := by
  cases a with
  | look s key wait p =>
      by_cases hs : w.scopes.rootOf s = root
      · have hs' : w'.WakeDue (w'.scopes.rootOf s) := by rwa [hroots, hs]
        cases p with
        | check search => exact .inr hs'
        | decide => exact .inr hs'
        | asleep => exact .inr hs'
        | _ => trivial
      · cases p with
        | check search =>
            simp only [Watch, hfind s _ hs, hroots]
            exact h.imp (fun h => ⟨h.1.keep hroots, (hresult s search hs h.1).trans h.2⟩) (hdue _)
        | decide =>
            simp only [Watch, hfind s _ hs, hroots]
            exact h.imp_right (hdue _)
        | asleep =>
            simp only [Watch, hfind s _ hs, hclosed s hs, hroots]
            exact h.imp_right (hdue _)
        | _ => trivial
  | _ => trivial

/-- A turn of one thread, which leaves an activity or none on top of its later calls. -/
theorem Orderly.turn (h : Orderly w) (w₁ : World) {turn : Turn} (next : Option Activity)
    (ht : w.threads[t]? = some th) (hstack : th.stack = a :: rest)
    (hthreads : w₁.threads = w.threads) (hformed : w₁.scopes.Formed) (hapart : w₁.scopes.Apart)
    (hmem : ∀ s, s ∈ w₁.scopes ↔ s ∈ w.scopes)
    (hroots : ∀ s, w₁.scopes.rootOf s = w.scopes.rootOf s)
    (hgate : ∀ root u, u ≠ t → w.gateOf root = some u → w₁.gateOf root = some u)
    (hwatch : ∀ b, Watch w b → Watch (w₁.turn t turn) b) (hframes : turn.frames = next.toList)
    (hnext : ∀ b ∈ next, UnderWay w₁.scopes b ∧ Watch (w₁.turn t turn) b ∧
      ∀ s, atGate? b = some s → w₁.gateOf (w₁.scopes.rootOf s) = some t) :
    Orderly (w₁.turn t turn) := by
  have hself : (w₁.turn t turn).stackOf t = next.toList ++ rest := by
    rw [stackOf_turn_self (hthreads ▸ ht), hframes, stackOf_of_threads hthreads, stackOf_of_get ht,
      hstack]
    rfl
  have hother (u : ThreadId) (hu : u ≠ t) : (w₁.turn t turn).stackOf u = w.stackOf u := by
    rw [stackOf_turn_of_ne _ hu, stackOf_of_threads hthreads]
  have hrest (b : Activity) (hb : b ∈ rest) : Fresh w₁.scopes b := by
    have hcalls := h.calls t
    rw [stackOf_of_get ht, hstack] at hcalls
    exact (hcalls.2 b hb).keep hmem hroots
  -- the activity of the thread is the next one or a call that has not begun
  have htop (b : Activity) (hb : (w₁.turn t turn).doing? t = some b) :
      b ∈ next ∨ Fresh w₁.scopes b := by
    rw [doing?, hself] at hb
    cases next with
    | some c => exact .inl hb
    | none => exact .inr (hrest b (List.mem_of_head? hb))
  have hdoing (u : ThreadId) (hu : u ≠ t) : (w₁.turn t turn).doing? u = w.doing? u := by
    rw [doing?, hother u hu, doing?]
  constructor
  · exact hformed
  · exact hapart
  · intro u
    by_cases hu : u = t
    · subst hu
      rw [hself]
      cases next with
      | some b => exact ⟨(hnext b rfl).1, hrest⟩
      | none =>
          cases rest with
          | nil => trivial
          | cons b rest =>
              have hb := hrest b (List.mem_cons_self ..)
              exact ⟨hb.underWay, fun c hc => hrest c (List.mem_cons_of_mem b hc)⟩
    · rw [hother u hu]
      exact (h.calls u).keep hmem hroots
  · intro u b s hb hs
    by_cases hu : u = t
    · subst hu
      obtain hb | hb := htop b hb
      · exact (hnext b hb).2.2 s hs
      · rw [hb.atGate?] at hs
        cases hs
    · rw [hdoing u hu] at hb
      have hheld := hgate _ u hu (h.gate u b s hb hs)
      rwa [← hroots s] at hheld
  · intro u b hb
    by_cases hu : u = t
    · subst hu
      obtain hb | hb := htop b hb
      · exact (hnext b hb).2.1
      · exact hb.watch
    · rw [hdoing u hu] at hb
      exact hwatch b (h.watch u b hb)

/-- A turn that writes no entry and closes no scope. -/
theorem Orderly.calm (h : Orderly w) (w₁ : World) {turn : Turn} (next : Option Activity)
    (ht : w.threads[t]? = some th) (hstack : th.stack = a :: rest) (hquiet : wakes? a = none)
    (hthreads : w₁.threads = w.threads) (halike : w.scopes.Alike w₁.scopes)
    (hclosed : ∀ s, w₁.scopes.isClosed s = w.scopes.isClosed s)
    (hgate : ∀ root u, u ≠ t → w.gateOf root = some u → w₁.gateOf root = some u)
    (hframes : turn.frames = next.toList)
    (hnext : ∀ b ∈ next, UnderWay w₁.scopes b ∧ Watch (w₁.turn t turn) b ∧
      ∀ s, atGate? b = some s → w₁.gateOf (w₁.scopes.rootOf s) = some t) :
    Orderly (w₁.turn t turn) := by
  refine h.turn w₁ next ht hstack hthreads (h.formed.alike halike) (h.apart.alike halike)
    halike.members halike.roots hgate (fun b hb => ?_) hframes hnext
  exact hb.keep halike hclosed fun _ _ _ _ _ hdue =>
    hdue.turn ht hstack hquiet hthreads halike.roots

theorem enterGate_eq_some {s : ScopeId} (h : w.enterGate t s = some w₁) :
    w.gateOf (w.scopes.rootOf s) = none ∧ w₁.threads = w.threads ∧ w.scopes.Alike w₁.scopes ∧
      (∀ s, w₁.scopes.isClosed s = w.scopes.isClosed s) ∧
      ∀ root, w₁.gateOf root = if root = w.scopes.rootOf s then some t else w.gateOf root := by
  unfold enterGate at h
  cases hnode : w.scopes.nodes[w.scopes.rootOf s]? with
  | none => simp [hnode] at h
  | some node =>
      cases hgate : node.gate with
      | some u => simp [hnode, hgate] at h
      | none =>
          simp only [hnode, hgate, Option.some.injEq] at h
          subst h
          refine ⟨by simp [gateOf, hnode, hgate], rfl,
            Scope.Store.alike_update _ _ (fun _ => rfl) (fun _ => rfl) (fun _ => rfl),
            fun s => Scope.Store.isClosed_update _ _ s fun _ => rfl, fun root => ?_⟩
          simp only [gateOf, Scope.Store.nodes_update]
          by_cases hroot : root = w.scopes.rootOf s
          · simp [hroot, hnode]
          · simp [hroot, Ne.symm hroot]

theorem leaveGate_alike (w : World) (s : ScopeId) :
    w.scopes.Alike (w.leaveGate s).scopes ∧
      (∀ u, (w.leaveGate s).scopes.isClosed u = w.scopes.isClosed u) ∧
      ∀ root, root ≠ w.scopes.rootOf s → (w.leaveGate s).gateOf root = w.gateOf root := by
  refine ⟨Scope.Store.alike_update _ _ (fun _ => rfl) (fun _ => rfl) (fun _ => rfl),
    fun u => Scope.Store.isClosed_update _ _ u fun _ => rfl, fun root hroot => ?_⟩
  simp [gateOf, leaveGate, Scope.Store.nodes_update, Ne.symm hroot]

theorem gateFree_iff (w : World) (s : ScopeId) :
    w.gateFree s = true ↔ w.gateOf (w.scopes.rootOf s) = none := by
  rw [gateFree, gateOf]
  cases w.scopes.nodes[w.scopes.rootOf s]? with
  | none => simp
  | some node => simp

/-- A step of a read that stays where it is with regard to the gate. -/
theorem Orderly.goOn {b : Activity} (h : Orderly w) (ht : w.threads[t]? = some th)
    (hstack : th.stack = a :: rest) (hquiet : wakes? a = none) (hb : UnderWay w.scopes b)
    (hwatch : Watch (w.turn t (.next b)) b)
    (hgate : ∀ s, atGate? b = some s → atGate? a = some s) : Orderly (w.turn t (.next b)) := by
  refine h.calm w (some b) ht hstack hquiet rfl (.refl _) (fun _ => rfl)
    (fun _ _ _ hu => hu) rfl ?_
  intro c hsame
  cases hsame
  exact ⟨hb, hwatch, fun s hs => h.gate t a s (doing?_of_stack ht hstack) (hgate s hs)⟩

/-- A step after which an activity is over. -/
theorem Orderly.exit {out : Outcome} (h : Orderly w) (ht : w.threads[t]? = some th)
    (hstack : th.stack = a :: rest) (hquiet : wakes? a = none) :
    Orderly (w.turn t (.exit out)) := by
  refine h.calm w none ht hstack hquiet rfl (.refl _) (fun _ => rfl) (fun _ _ _ hu => hu) rfl ?_
  intro b hsame
  cases hsame

/-- A reader that leaves the gate of its tree. -/
theorem Orderly.leave (h : Orderly w) {s : ScopeId} {turn : Turn} (next : Option Activity)
    (ht : w.threads[t]? = some th) (hstack : th.stack = a :: rest) (hquiet : wakes? a = none)
    (hat : atGate? a = some s) (hframes : turn.frames = next.toList)
    (hnext : ∀ b ∈ next, UnderWay w.scopes b ∧ Watch ((w.leaveGate s).turn t turn) b ∧
      atGate? b = none) : Orderly ((w.leaveGate s).turn t turn) := by
  obtain ⟨halike, hclosed, hgates⟩ := leaveGate_alike w s
  have hthreads : (w.leaveGate s).threads = w.threads := rfl
  refine h.calm _ next ht hstack hquiet hthreads halike hclosed (fun root u hu hheld => ?_)
    hframes ?_
  · -- the gate that is left was the thread's own
    have hroot : root ≠ w.scopes.rootOf s := by
      intro hsame
      subst hsame
      have hown := h.gate t a s (doing?_of_stack ht hstack) hat
      exact hu (Option.some_inj.mp (hheld.symm.trans hown))
    rw [hgates root hroot, hheld]
  · intro b hb
    obtain ⟨hway, hwatch, hfree⟩ := hnext b hb
    exact ⟨hway.keep halike.members halike.roots, hwatch, fun s hs => by simp [hfree] at hs⟩

theorem Orderly.look {s : ScopeId} {key : String} {wait : Bool} {p : LookPoint} {turn : Turn}
    (h : Orderly w) (ht : w.threads[t]? = some th)
    (hstack : th.stack = .look s key wait p :: rest)
    (hstep : w.look t s key wait p = some (w₁, turn)) : Orderly (w₁.turn t turn) := by
  have hdoing := doing?_of_stack ht hstack
  have hwatch := h.watch t _ hdoing
  cases p with
  | search search =>
      have hsearch (q : Scope.Search) : Orderly (w.turn t (.next (.look s key wait (.search q)))) :=
        h.goOn ht hstack rfl trivial trivial nofun
      rcases search with ⟨_, _, _⟩ | ⟨_, _⟩ | ⟨_ | e⟩
      · cases hstep
        exact hsearch _
      · cases hstep
        exact hsearch _
      · cases wait <;> cases hstep
        · exact h.exit ht hstack rfl
        · exact h.goOn ht hstack rfl trivial trivial nofun
      · cases hstep
        exact h.exit ht hstack rfl
  | gate =>
      simp only [World.look, Option.map_eq_some_iff] at hstep
      obtain ⟨w₂, henter, heq⟩ := hstep
      cases heq
      obtain ⟨hfree, hthreads, halike, hclosed, hgates⟩ := enterGate_eq_some henter
      refine h.calm w₁ (some _) ht hstack rfl hthreads halike hclosed
        (fun root u hu hheld => ?_) rfl ?_
      · rw [hgates, if_neg, hheld]
        intro hsame
        subst hsame
        simp [hfree] at hheld
      · intro b hsame
        cases hsame
        refine ⟨trivial, .inl ⟨Scope.Search.keeps_start .., Scope.Search.result_start ..⟩, ?_⟩
        intro s' hsame
        cases hsame
        rw [hgates, halike.roots, if_pos rfl]
  | check search =>
      have hdue {next : Activity} : w.WakeDue (w.scopes.rootOf s) →
          (w.turn t (.next next)).WakeDue (w.scopes.rootOf s) :=
        fun hdue => hdue.turn ht hstack rfl rfl fun _ => rfl
      have hcheck (q : Scope.Search) (hq : q = search.step w.scopes) :
          Orderly (w.turn t (.next (.look s key wait (.check q)))) := by
        refine h.goOn ht hstack rfl trivial ?_ fun _ => id
        subst hq
        exact hwatch.imp (fun hsearch => ⟨hsearch.1.step h.apart,
          (Scope.Search.result_step h.formed search).trans hsearch.2⟩) hdue
      rcases search with ⟨_, _, _⟩ | ⟨_, _⟩ | ⟨_ | e⟩
      · cases hstep
        exact hcheck _ rfl
      · cases hstep
        exact hcheck _ rfl
      · cases hstep
        exact h.goOn ht hstack rfl trivial (hwatch.imp (fun hsearch => hsearch.2.symm) hdue)
          fun _ => id
      · cases hstep
        exact h.leave none ht hstack rfl rfl rfl (by rintro b ⟨⟩)
  | decide =>
      simp only [World.look] at hstep
      cases hclosed : w.scopes.isClosed s with
      | true =>
          simp only [hclosed, if_true] at hstep
          cases hstep
          exact h.leave none ht hstack rfl rfl rfl (by rintro b ⟨⟩)
      | false =>
          simp only [hclosed] at hstep
          cases hstep
          refine h.leave (some _) ht hstack rfl rfl rfl ?_
          intro b hsame
          cases hsame
          obtain ⟨halike, hsame, _⟩ := leaveGate_alike w s
          refine ⟨trivial, ?_, rfl⟩
          have hthreads : (w.leaveGate s).threads = w.threads := rfl
          refine hwatch.imp (fun hnone => ⟨(halike.find? s _).trans hnone, (hsame s).trans hclosed⟩)
            fun hdue => ?_
          change WakeDue _ ((w.leaveGate s).scopes.rootOf s)
          rw [halike.roots s]
          exact hdue.turn ht hstack rfl hthreads halike.roots
  | asleep => cases hstep

/-- A claim is stored: the readers of its tree are due to be woken. -/
theorem Orderly.claimed {s o : ScopeId} {key n : String} {e : Entry} (h : Orderly w)
    (ht : w.threads[t]? = some th)
    (hstack : th.stack = .write s key e true (.store o n) :: rest) :
    Orderly (World.turn { w with scopes := w.scopes.put o n e } t
      (.next (.write s key e true .wake))) := by
  have hway := h.calls t
  rw [stackOf_of_get ht, hstack] at hway
  obtain ⟨⟨_, hs, he, ho, hroot⟩, _⟩ := hway
  have hin : w.scopes.Within o e := he.of_rootOf hroot
  have hmem (u : ScopeId) : u ∈ w.scopes.put o n e ↔ u ∈ w.scopes := Scope.Store.mem_put ..
  have hroots (u : ScopeId) : (w.scopes.put o n e).rootOf u = w.scopes.rootOf u :=
    Scope.Store.rootOf_put ..
  have hother {u : ScopeId} (hu : w.scopes.rootOf u ≠ w.scopes.rootOf s) :
      w.scopes.rootOf o ≠ w.scopes.rootOf u := fun heq => hu (heq.symm.trans hroot)
  let stored : World := { w with scopes := w.scopes.put o n e }
  have hstored : stored.threads[t]? = some th := ht
  have hdue : (stored.turn t (.next (.write s key e true .wake))).WakeDue (w.scopes.rootOf s) := by
    refine ⟨t, .write s key e true .wake, s, ?_, rfl, hroots s⟩
    rw [doing?, stackOf_turn_self hstored]
    rfl
  refine h.turn stored (some _) ht hstack rfl (h.formed.put ho n hin.sound) (h.apart.put ho n hin)
    hmem hroots (fun root u hu hheld => ?_) (fun b hb => ?_) rfl ?_
  · rw [← hheld]
    simp only [gateOf, stored, Scope.Store.put, Scope.Store.nodes_update]
    by_cases hrooto : o = root
    · simp only [hrooto, if_true]
      cases w.scopes.nodes[root]? <;> rfl
    · simp only [hrooto, if_false]
  · exact hb.keep_of_due hroots
      (fun u names hu => h.apart.find?_put_of_rootOf_ne ho (hother hu) n e names)
      (fun u search hu hkeeps => hkeeps.result_put h.apart ho (hother hu) n e)
      (fun u _ => Scope.Store.isClosed_put ..)
      (fun root hroot => hroot.turn ht hstack rfl rfl hroots) hdue
  · intro b hsame
    cases hsame
    exact ⟨⟨rfl, (hmem s).mpr hs, he.keep hmem hroots, trivial⟩, trivial, by rintro _ ⟨⟩⟩

/-- A scope is closed: the readers of its tree are due to be woken. -/
theorem Orderly.closed {s : ScopeId} (h : Orderly w) (ht : w.threads[t]? = some th)
    (hstack : th.stack = .close s .mark :: rest) :
    Orderly (World.turn { w with scopes := w.scopes.close s } t (.next (.close s .wake))) := by
  have halike := Scope.Store.alike_close w.scopes s
  let closed : World := { w with scopes := w.scopes.close s }
  have hmarked : closed.threads[t]? = some th := ht
  have hdue : (closed.turn t (.next (.close s .wake))).WakeDue (w.scopes.rootOf s) := by
    refine ⟨t, .close s .wake, s, ?_, rfl, halike.roots s⟩
    rw [doing?, stackOf_turn_self hmarked]
    rfl
  refine h.turn closed (some _) ht hstack rfl (h.formed.alike halike) (h.apart.alike halike)
    halike.members halike.roots (fun root u hu hheld => ?_) (fun b hb => ?_) rfl ?_
  · rw [← hheld]
    simp only [gateOf, closed, Scope.Store.close, Scope.Store.nodes_update]
    by_cases hroot : s = root
    · simp only [hroot, if_true]
      cases w.scopes.nodes[root]? <;> rfl
    · simp only [hroot, if_false]
  · refine hb.keep_of_due halike.roots (fun u names _ => halike.find? u names)
      (fun u search _ _ => search.result_alike halike) (fun u hu => ?_)
      (fun root hroot => hroot.turn ht hstack rfl rfl halike.roots) hdue
    have hne : s ≠ u := fun heq => hu (congrArg w.scopes.rootOf heq.symm)
    change (w.scopes.close s).isClosed u = w.scopes.isClosed u
    simp only [Scope.Store.isClosed, Scope.Store.close, Scope.Store.nodes_update, hne, if_false]
  · intro b hsame
    cases hsame
    exact ⟨trivial, trivial, by rintro _ ⟨⟩⟩

theorem underWay_rouse {st : Store} {root : ScopeId} (h : UnderWay st a) :
    UnderWay st (rouse st root a) := by
  cases a with
  | look s key wait p => cases p <;> trivial
  | _ => exact h

theorem wakes?_rouse (st : Store) (root : ScopeId) (a : Activity) :
    wakes? (rouse st root a) = wakes? a := by
  cases a with
  | look s key wait p => cases p <;> rfl
  | _ => rfl

theorem atGate?_rouse (st : Store) (root : ScopeId) (a : Activity) :
    atGate? (rouse st root a) = atGate? a := by
  cases a with
  | look s key wait p =>
      cases p with
      | asleep =>
          simp only [rouse]
          split <;> rfl
      | _ => rfl
  | _ => rfl

/-- A reader of another tree sleeps on. -/
theorem rouse_eq_self {st : Store} {root : ScopeId}
    (h : ∀ s key wait p, a = .look s key wait p → st.rootOf s ≠ root) : rouse st root a = a := by
  cases a with
  | look s key wait p =>
      cases p with
      | asleep => exact congrArg _ (if_neg (h s key wait _ rfl))
      | _ => rfl
  | _ => rfl

theorem map_rouse {st : Store} (hrest : ∀ b ∈ rest, Fresh st b) (root : ScopeId) :
    rest.map (rouse st root) = rest :=
  (List.map_congr_left (g := id) fun b hb => (hrest b hb).rouse root).trans (List.map_id rest)

theorem Calls.tail {st : Store} (h : Calls st (a :: rest)) : Calls st rest := by
  cases rest with
  | nil => trivial
  | cons b rest =>
      have hb := h.2 b (List.mem_cons_self ..)
      exact ⟨hb.underWay, fun c hc => h.2 c (List.mem_cons_of_mem b hc)⟩

theorem Calls.rouse {st : Store} {stack : List Activity} (h : Calls st stack) (root : ScopeId) :
    Calls st (stack.map (World.rouse st root)) := by
  cases stack with
  | nil => trivial
  | cons a rest =>
      refine ⟨underWay_rouse h.1, ?_⟩
      rw [map_rouse h.2]
      exact h.2

section Woken

variable {s : ScopeId} (h : Orderly w) (ht : w.threads[t]? = some th)
  (hstack : th.stack = a :: rest)
include h ht hstack

theorem Orderly.stackOf_woken_self : ((w.wake s).turn t .done).stackOf t = rest := by
  have hcalls := h.calls t
  rw [stackOf_of_get ht, hstack] at hcalls
  have hget : (w.wake s).threads[t]? = some
      { th with stack := th.stack.map (rouse w.scopes (w.scopes.rootOf s)) } := by
    simp [wake, ht]
  rw [stackOf_turn_self hget, stackOf_wake, stackOf_of_get ht, hstack]
  exact map_rouse hcalls.2 _

omit h ht hstack in
theorem stackOf_woken_of_ne {u : ThreadId} (hu : u ≠ t) : ((w.wake s).turn t .done).stackOf u =
    (w.stackOf u).map (rouse w.scopes (w.scopes.rootOf s)) := by
  rw [stackOf_turn_of_ne _ hu, stackOf_wake]

/-- What a thread does now, it did before it was roused. -/
theorem Orderly.doing_before {u : ThreadId} {b : Activity}
    (hb : ((w.wake s).turn t .done).doing? u = some b) :
    Fresh w.scopes b ∨ ∃ c, w.doing? u = some c ∧ b = rouse w.scopes (w.scopes.rootOf s) c := by
  by_cases hu : u = t
  · subst hu
    have hcalls := h.calls u
    rw [stackOf_of_get ht, hstack] at hcalls
    rw [doing?, h.stackOf_woken_self ht hstack] at hb
    exact .inl (hcalls.2 b (List.mem_of_head? hb))
  · rw [doing?, stackOf_woken_of_ne hu, List.head?_map] at hb
    obtain ⟨c, hc, hbc⟩ := Option.map_eq_some_iff.mp hb
    exact .inr ⟨c, hc, hbc.symm⟩

omit h in
/-- The readers of other trees are still due to be woken. -/
theorem WakeDue.woken (hwakes : wakes? a = some s) {root : ScopeId}
    (hroot : root ≠ w.scopes.rootOf s) (hdue : w.WakeDue root) :
    ((w.wake s).turn t .done).WakeDue root := by
  obtain ⟨u, c, s', hc, hwakes', hs'⟩ := hdue
  have hu : u ≠ t := by
    intro hsame
    subst hsame
    have hca : c = a := Option.some_inj.mp (hc.symm.trans (doing?_of_stack ht hstack))
    rw [hca, hwakes] at hwakes'
    cases hwakes'
    exact hroot hs'.symm
  refine ⟨u, rouse w.scopes (w.scopes.rootOf s) c, s', ?_, ?_, hs'⟩
  · rw [doing?, stackOf_woken_of_ne hu, List.head?_map, ← doing?, hc]
    rfl
  · rw [wakes?_rouse, hwakes']

/-- No reader of the tree is at its gate, and none of them sleeps any more. -/
theorem Orderly.watch_woken (hwakes : wakes? a = some s) (hfree : w.gateFree s = true)
    {u : ThreadId} {c : Activity} (hc : w.doing? u = some c) :
    Watch ((w.wake s).turn t .done) (rouse w.scopes (w.scopes.rootOf s) c) := by
  by_cases hs : ∃ s' key wait p, c = .look s' key wait p ∧ w.scopes.rootOf s' = w.scopes.rootOf s
  · obtain ⟨s', key, wait, p, rfl, hs'⟩ := hs
    have hnot : atGate? (.look s' key wait p) ≠ some s' := by
      intro hat
      have hheld := h.gate u _ s' hc hat
      rw [hs', (gateFree_iff w s).mp hfree] at hheld
      cases hheld
    cases p with
    | check search => exact absurd rfl hnot
    | decide => exact absurd rfl hnot
    | asleep =>
        simp only [rouse, hs', if_true]
        trivial
    | _ => trivial
  · have hother (s' : ScopeId) (key : String) (wait : Bool) (p : LookPoint)
        (heq : c = .look s' key wait p) : w.scopes.rootOf s' ≠ w.scopes.rootOf s :=
      fun hs' => hs ⟨s', key, wait, p, heq, hs'⟩
    rw [rouse_eq_self hother]
    exact (h.watch u c hc).keep (.refl _) (fun _ => rfl) fun s' key wait p heq =>
      WakeDue.woken ht hstack hwakes (hother s' key wait p heq)

/-- With the gate of a tree free, all its sleeping readers are woken. -/
theorem Orderly.woken (hwakes : wakes? a = some s) (hfree : w.gateFree s = true) :
    Orderly ((w.wake s).turn t .done) := by
  constructor
  · exact h.formed
  · exact h.apart
  · intro u
    by_cases hu : u = t
    · subst hu
      have hcalls := h.calls u
      rw [stackOf_of_get ht, hstack] at hcalls
      rw [h.stackOf_woken_self ht hstack]
      exact hcalls.tail
    · rw [stackOf_woken_of_ne hu]
      exact (h.calls u).rouse _
  · intro u b s' hb hs'
    obtain hb | ⟨c, hc, rfl⟩ := h.doing_before ht hstack hb
    · rw [hb.atGate?] at hs'
      cases hs'
    · rw [atGate?_rouse] at hs'
      exact h.gate u c s' hc hs'
  · intro u b hb
    obtain hb | ⟨c, hc, rfl⟩ := h.doing_before ht hstack hb
    · exact hb.watch
    · exact h.watch_woken ht hstack hwakes hfree hc

end Woken

theorem Orderly.write {s : ScopeId} {key : String} {e : Entry} {first : Bool} {p : WritePoint}
    {turn : Turn} (h : Orderly w) (ht : w.threads[t]? = some th)
    (hstack : th.stack = .write s key e first p :: rest)
    (hstep : w.write s key e first p = some (w₁, turn)) : Orderly (w₁.turn t turn) := by
  have hway := h.calls t
  rw [stackOf_of_get ht, hstack] at hway
  obtain ⟨⟨rfl, hs, he, hp⟩, _⟩ := hway
  cases p with
  | seek search =>
      have hquiet : wakes? (.write s key e true (.seek search)) = none := rfl
      have hseek (q : WritePoint) (hq : Claiming w.scopes s q) :
          Orderly (w.turn t (.next (.write s key e true q))) :=
        h.goOn ht hstack hquiet ⟨rfl, hs, he, hq⟩ trivial nofun
      have hnext := Scope.OwnerSearch.Keeps.step h.formed h.apart hp
      rcases search with ⟨_, _⟩ | ⟨_, _, _⟩ | ⟨_ | ⟨o, n⟩⟩
      · cases hstep
        exact hseek _ hnext
      · cases hstep
        exact hseek _ hnext
      · cases hstep
        exact h.exit ht hstack hquiet
      · cases hstep
        exact hseek (.store o n) hp
  | store o n =>
      simp only [World.write, if_true] at hstep
      cases hentry : w.scopes.entry? o n with
      | some found =>
          simp only [hentry] at hstep
          cases hstep
          exact h.exit ht hstack rfl
      | none =>
          simp only [hentry] at hstep
          cases hstep
          exact h.claimed ht hstack
  | wake =>
      simp only [World.write] at hstep
      split at hstep
      · next hfree =>
        cases hstep
        exact h.woken ht hstack rfl hfree
      · cases hstep

theorem Orderly.close {s : ScopeId} {p : ClosePoint} {turn : Turn} (h : Orderly w)
    (ht : w.threads[t]? = some th) (hstack : th.stack = .close s p :: rest)
    (hstep : w.close s p = some (w₁, turn)) : Orderly (w₁.turn t turn) := by
  cases p with
  | mark =>
      cases hstep
      exact h.closed ht hstack
  | wake =>
      simp only [World.close] at hstep
      split at hstep
      · next hfree =>
        cases hstep
        exact h.woken ht hstack rfl hfree
      · cases hstep

theorem Orderly.step (h : Orderly w) (hstep : w.step t = some w') : Orderly w' := by
  obtain ⟨th, a, rest, w₁, turn, ht, hstack, ha, rfl⟩ := step_eq_some hstep
  have hway := h.calls t
  rw [stackOf_of_get ht, hstack] at hway
  cases a with
  | look s key wait p => exact h.look ht hstack ha
  | write s key e first p => exact h.write ht hstack ha
  | close s p => exact h.close ht hstack ha
  | _ => exact hway.1.elim

theorem Orderly.hostReply (h : Orderly w) (t : ThreadId) (out : Outcome) :
    w.hostReply t out = w := by
  obtain heq | ⟨th, r, rest, ht, hstack, _⟩ := hostReply_eq w t out
  · exact heq
  · have hway := h.calls t
    rw [stackOf_of_get ht, hstack] at hway
    exact hway.1.elim

theorem Ready.orderly {start : World} (h : Ready start) : Orderly start := by
  have htop (t : ThreadId) (a : Activity) (ha : start.doing? t = some a) : Fresh start.scopes a :=
    h.fresh t a (List.mem_of_head? ha)
  constructor
  · exact h.formed
  · exact h.apart
  · intro t
    have hfresh := h.fresh t
    cases hstack : start.stackOf t with
    | nil => trivial
    | cons a rest =>
        rw [hstack] at hfresh
        exact ⟨(hfresh a (List.mem_cons_self ..)).underWay,
          fun b hb => hfresh b (List.mem_cons_of_mem a hb)⟩
  · intro t a s ha hs
    rw [(htop t a ha).atGate?] at hs
    cases hs
  · intro t a ha
    exact (htop t a ha).watch

theorem Orderly.reach {start : World} (h : Orderly start) (hr : Reach start w) : Orderly w := by
  induction hr with
  | refl => exact h
  | step _ hstep ih => exact ih.step hstep
  | host _ ih =>
      rw [ih.hostReply]
      exact ih
  | tick _ ih => exact ⟨ih.formed, ih.apart, ih.calls, ih.gate, ih.watch⟩

/-- A step of a read moves no other thread, and leads to a decision only from a search at the gate
that came to nothing. -/
theorem look_eq_some {s : ScopeId} {key : String} {wait : Bool} {p : LookPoint} {turn : Turn}
    (hstep : w.look t s key wait p = some (w₁, turn)) :
    w₁.threads = w.threads ∧ (∀ s' key' wait',
      turn.frames.head? = some (.look s' key' wait' .decide) →
        s' = s ∧ key' = key ∧ wait' = wait ∧ p = .check (.finished none)) := by
  cases p with
  | search search =>
      rcases search with ⟨_, _, _⟩ | ⟨_, _⟩ | ⟨_ | e⟩
      · cases hstep
        exact ⟨rfl, nofun⟩
      · cases hstep
        exact ⟨rfl, nofun⟩
      · cases wait <;> cases hstep <;> exact ⟨rfl, nofun⟩
      · cases hstep
        exact ⟨rfl, nofun⟩
  | gate =>
      simp only [World.look, Option.map_eq_some_iff] at hstep
      obtain ⟨w₂, henter, heq⟩ := hstep
      cases heq
      exact ⟨(enterGate_eq_some henter).2.1, nofun⟩
  | check search =>
      rcases search with ⟨_, _, _⟩ | ⟨_, _⟩ | ⟨_ | e⟩
      · cases hstep
        exact ⟨rfl, nofun⟩
      · cases hstep
        exact ⟨rfl, nofun⟩
      · cases hstep
        refine ⟨rfl, ?_⟩
        intro s' key' wait' hsame
        cases hsame
        exact ⟨rfl, rfl, rfl, rfl⟩
      · cases hstep
        exact ⟨rfl, nofun⟩
  | decide =>
      simp only [World.look] at hstep
      split at hstep <;> cases hstep <;> exact ⟨rfl, nofun⟩
  | asleep => cases hstep

/-- A step of a write or a close moves no other thread, or wakes the readers of a tree. -/
theorem threads_of_change {turn : Turn} {answer : Outcome} (hway : UnderWay w.scopes a)
    (hlook : ∀ s key wait p, a ≠ .look s key wait p)
    (hstep : a.step w t answer = some (w₁, turn)) :
    (w₁.threads = w.threads ∨ ∃ s, w₁ = w.wake s) ∧
      ∀ s key wait, turn.frames.head? ≠ some (.look s key wait .decide) := by
  cases a with
  | look s key wait p => exact absurd rfl (hlook s key wait p)
  | write s key e first p =>
      cases p with
      | seek search =>
          rcases search with ⟨_, _⟩ | ⟨_, _, _⟩ | ⟨_ | ⟨o, n⟩⟩ <;> cases hstep <;>
            exact ⟨.inl rfl, nofun⟩
      | store o n =>
          simp only [Activity.step, World.write] at hstep
          split at hstep
          · split at hstep <;> cases hstep <;> exact ⟨.inl rfl, nofun⟩
          · cases hstep
            exact ⟨.inl rfl, nofun⟩
      | wake =>
          simp only [Activity.step, World.write] at hstep
          split at hstep <;> cases hstep
          exact ⟨.inr ⟨s, rfl⟩, nofun⟩
  | close s p =>
      cases p with
      | mark =>
          cases hstep
          exact ⟨.inl rfl, nofun⟩
      | wake =>
          simp only [Activity.step, World.close] at hstep
          split at hstep <;> cases hstep
          exact ⟨.inr ⟨s, rfl⟩, nofun⟩
  | _ => exact hway.elim

theorem decide_of_rouse {st : Store} {root s : ScopeId} {key : String} {wait : Bool}
    (h : rouse st root a = .look s key wait .decide) : a = .look s key wait .decide := by
  cases a with
  | look s key wait p =>
      cases p with
      | asleep =>
          simp only [rouse] at h
          split at h <;> cases h
      | _ => exact h
  | _ => exact h

/-- A thread that decides did so before the step, or has just ended its search at the gate. -/
theorem Orderly.decide_before {s : ScopeId} {key : String} {wait : Bool} {u : ThreadId}
    (h : Orderly w) (hstep : w.step u = some w')
    (hdoing : w'.doing? t = some (.look s key wait .decide)) :
    w.doing? t = some (.look s key wait .decide) ∨
      w.doing? t = some (.look s key wait (.check (.finished none))) := by
  obtain ⟨th, a, rest, w₁, turn, ht, hstack, ha, rfl⟩ := step_eq_some hstep
  have hcalls := h.calls u
  rw [stackOf_of_get ht, hstack] at hcalls
  have hmoves : (w₁.threads = w.threads ∨ ∃ s, w₁ = w.wake s) ∧
      ∀ s key wait, turn.frames.head? = some (.look s key wait .decide) →
        a = .look s key wait (.check (.finished none)) := by
    by_cases hlook : ∃ s key wait p, a = .look s key wait p
    · obtain ⟨s', key', wait', p, rfl⟩ := hlook
      obtain ⟨hthreads, hframes⟩ := look_eq_some ha
      refine ⟨.inl hthreads, fun s key wait hhead => ?_⟩
      obtain ⟨rfl, rfl, rfl, rfl⟩ := hframes s key wait hhead
      rfl
    · have hnot : ∀ s key wait p, a ≠ .look s key wait p :=
        fun s key wait p heq => hlook ⟨s, key, wait, p, heq⟩
      obtain ⟨hthreads, hframes⟩ := threads_of_change hcalls.1 hnot ha
      exact ⟨hthreads, fun s key wait hhead => absurd hhead (hframes s key wait)⟩
  obtain ⟨hthreads, hframes⟩ := hmoves
  obtain ⟨f, hf, hstacks, th₁, ht₁⟩ : ∃ f : Activity → Activity,
      (∀ b s key wait, f b = .look s key wait .decide → b = .look s key wait .decide) ∧
      (∀ v, w₁.stackOf v = (w.stackOf v).map f) ∧ ∃ th₁, w₁.threads[u]? = some th₁ := by
    obtain hthreads | ⟨s, rfl⟩ := hthreads
    · exact ⟨id, fun _ _ _ _ hb => hb, fun v => by simp [stackOf_of_threads hthreads],
        th, hthreads ▸ ht⟩
    · have ht₁ : (w.wake s).threads[u]? = some
          { th with stack := th.stack.map (rouse w.scopes (w.scopes.rootOf s)) } := by
        simp [wake, ht]
      exact ⟨rouse w.scopes (w.scopes.rootOf s), fun _ _ _ _ hb => decide_of_rouse hb,
        stackOf_wake w s, _, ht₁⟩
  by_cases hu : t = u
  · subst hu
    rw [doing?, stackOf_turn_self ht₁, hstacks, stackOf_of_get ht, hstack] at hdoing
    cases hturn : turn.frames with
    | nil =>
        rw [hturn, List.map_cons, List.nil_append, List.tail_cons, List.head?_map] at hdoing
        obtain ⟨b, hb, hfb⟩ := Option.map_eq_some_iff.mp hdoing
        cases hf b s key wait hfb
        cases hcalls.2 _ (List.mem_of_head? hb)
    | cons b frames =>
        rw [hturn] at hdoing hframes
        refine .inr ?_
        rw [doing?_of_stack ht hstack, hframes s key wait hdoing]
  · rw [doing?, stackOf_turn_of_ne _ hu, hstacks, List.head?_map] at hdoing
    obtain ⟨b, hb, hfb⟩ := Option.map_eq_some_iff.mp hdoing
    rw [hf b s key wait hfb] at hb
    exact .inl hb

theorem valueOf_ne_interrupted (e : Entry) (key k : String) :
    e.valueOf key ≠ .error (.interrupted k) := by
  cases e <;> simp [Entry.valueOf]

theorem interrupted_at_decide {s : ScopeId} {key k : String} {wait : Bool} {p : LookPoint}
    (h : w.look t s key wait p = some (w₁, .exit (.error (.interrupted k)))) :
    p = .decide ∧ k = key ∧ w.scopes.isClosed s = true := by
  cases p with
  | search search =>
      rcases search with ⟨_, _, _⟩ | ⟨_, _⟩ | ⟨_ | e⟩
      · cases h
      · cases h
      · cases wait <;> cases h
      · simp only [World.look, Option.some.injEq, Prod.mk.injEq, Turn.exit.injEq] at h
        exact absurd h.2 (valueOf_ne_interrupted e key k)
  | gate => simp [World.look, Turn.next] at h
  | check search =>
      rcases search with ⟨_, _, _⟩ | ⟨_, _⟩ | ⟨_ | e⟩
      · cases h
      · cases h
      · cases h
      · simp only [World.look, Option.some.injEq, Prod.mk.injEq, Turn.exit.injEq] at h
        exact absurd h.2 (valueOf_ne_interrupted e key k)
  | decide =>
      simp only [World.look] at h
      split at h
      · next hclosed =>
        cases h
        exact ⟨rfl, rfl, hclosed⟩
      · cases h
  | asleep => cases h

/-- A reader decides only after its search at the gate has come to nothing. -/
theorem checked_of_decide {start : World} (h : Ready start) (hr : Reach start w) {s : ScopeId}
    {key : String} {wait : Bool} (hdoing : w.doing? t = some (.look s key wait .decide)) :
    ∃ w₀, Reach start w₀ ∧ Reach w₀ w ∧
      w₀.doing? t = some (.look s key wait (.check (.finished none))) := by
  induction hr with
  | refl => cases h.fresh t _ (List.mem_of_head? hdoing)
  | @step w w' u hr hstep ih =>
      have horderly := h.orderly.reach hr
      obtain hbefore | hbefore := horderly.decide_before hstep hdoing
      · obtain ⟨w₀, hstart, hw₀, hcheck⟩ := ih hbefore
        exact ⟨w₀, hstart, hw₀.step hstep, hcheck⟩
      · exact ⟨w, hr, Reach.refl.step hstep, hbefore⟩
  | host hr ih =>
      rw [(h.orderly.reach hr).hostReply] at hdoing ⊢
      exact ih hdoing
  | tick hr ih =>
      obtain ⟨w₀, hstart, hw₀, hcheck⟩ := ih hdoing
      exact ⟨w₀, hstart, hw₀.tick, hcheck⟩

/-- A reader sleeps only while its key is nowhere to be found and its scope is open, or while a
claim or a close in its tree has yet to wake it. A read is broken off only if its own scope is
closed and its search at the gate came to nothing. -/
theorem asleep_unresolved_or_wakeDue {start w : World} (h : Ready start) (hr : Reach start w) :
    (∀ t s key wait, w.doing? t = some (.look s key wait .asleep) →
      (w.scopes.find? s (path key) = none ∧ w.scopes.isClosed s = false) ∨
        w.WakeDue (w.scopes.rootOf s)) ∧
    (∀ t s key wait p w₁ k, w.doing? t = some (.look s key wait p) →
      w.look t s key wait p = some (w₁, .exit (.error (.interrupted k))) →
      k = key ∧ w.scopes.isClosed s = true ∧
        (w.scopes.find? s (path key) = none ∨ w.WakeDue (w.scopes.rootOf s)) ∧
        ∃ w₀, Reach start w₀ ∧ Reach w₀ w ∧
          w₀.doing? t = some (.look s key wait (.check (.finished none)))) := by
  have horderly := h.orderly.reach hr
  constructor
  · intro t s key wait hdoing
    exact horderly.watch t _ hdoing
  · intro t s key wait p w₁ k hdoing hlook
    obtain ⟨rfl, rfl, hclosed⟩ := interrupted_at_decide hlook
    exact ⟨rfl, hclosed, horderly.watch t _ hdoing, checked_of_decide h hr hdoing⟩

/-- A reader and a writer of one variable of a root scope. -/
def duet : World :=
  { scopes := Scope.Store.empty.addRoot.1, root := 0, flows := [], set := [], directory := []
    threads := [⟨[lookFor 0 "k" true], .ok .null, [], none⟩,
      ⟨[writeTo 0 "k" (.value .null) true], .ok .null, [], none⟩]
    clock := 0, stoppable := false, events := [], journal := [] }

/-- The reader sleeps, and the writer has stored its entry. -/
def duetAsleep : World := (duet.replay [] [0, 0, 0, 0, 0, 0, 0, 0, 1, 1, 1]).2

theorem duet_ready : Ready duet := by
  have hgrown : Scope.Store.Grown Scope.Store.empty.addRoot.1 := .root .empty
  have hone : ∀ s ∈ duet.scopes, duet.scopes.rootOf s = 0 := by
    intro s hs
    have hs : s < 1 := hs
    rw [Nat.lt_one_iff.mp hs]
    rfl
  refine ⟨hgrown.formed, hgrown.formed.apart hone, ?_, ?_⟩
  · rintro (_ | root)
    · rfl
    · rfl
  · rintro (_ | _ | t) a ha
    · rw [List.mem_singleton.mp ha]
      exact .look 0 "k" true
    · rw [List.mem_singleton.mp ha]
      exact .claim "k" (by decide) trivial
    · cases ha

theorem duetAsleep_reached : Reach duet duetAsleep := (run_replay .refl _).reach

theorem asleep_in_duet : duetAsleep.doing? 0 = some (.look 0 "k" true .asleep) ∧
    ((duetAsleep.scopes.find? 0 (path "k") = none ∧ duetAsleep.scopes.isClosed 0 = false) ∨
      duetAsleep.WakeDue 0) :=
  ⟨by rfl, (asleep_unresolved_or_wakeDue duet_ready duetAsleep_reached).1 0 0 "k" true (by rfl)⟩

end PullFlow.Engine.World
