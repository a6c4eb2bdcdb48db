import PullFlow.Proofs.Lint
import Mathlib.Data.List.Cycle

/-!
The search for rings of calls. What it finds is a ring of calls that goes once through flows above
its least one, and it finds one from every flow that is the least of some ring. So it finds nothing
exactly if no two flows can call each other back.
-/

namespace PullFlow.Lint

open Blueprint Relation

variable {d : Document} {a b start : String}

/-- The flow of name `a` calls the one of name `b`, and both are there. -/
def NamedCall (d : Document) (a b : String) : Prop :=
  (∃ f ∈ d.flows, f.name = some a ∧ b ∈ f.calledFlows) ∧ b ∈ flowNames d

/-- A ring of calls: at least two flows, each once, of which each calls the next. -/
structure CallRing (d : Document) (s : Cycle String) : Prop where
  calls : s.Chain (NamedCall d)
  once : s.Nodup
  several : s.Nontrivial

theorem namedCall_iff (hdistinct : (flowNames d).Nodup) :
    NamedCall d a b ↔ b ∈ callsOf (byName d) a ∧ b ∈ Fields.keys (byName d) := by
  rw [mem_keys_byName, NamedCall]
  refine and_congr_left fun _ => ?_
  constructor
  · rintro ⟨f, hf, hname, hcall⟩
    rw [callsOf, byName_of_mem hdistinct hf hname]
    exact hcall
  · intro hcall
    rw [callsOf] at hcall
    split at hcall
    · next f hf =>
      obtain ⟨hmem, hname⟩ := mem_byName hf
      exact ⟨f, hmem, hname, hcall⟩
    · cases hcall

theorem NamedCall.caller (h : NamedCall d a b) : a ∈ flowNames d :=
  let ⟨f, hf, hname, _⟩ := h.1
  mem_flowNames.mpr ⟨f, hf, hname⟩

section Search

variable {calls : String → List String} {free way ring : List String} {current : String}

/-- What the search finds goes on from the way that it has, each call leading to a flow that was
free and is not come to again, and closes at the start. -/
theorem found_of_ringFrom? (hfree : free.Nodup)
    (hfound : ringFrom? calls start free way current = some ring) :
    ∃ more, ring = way ++ more ++ [start] ∧ 1 < way.length + more.length ∧ more.Nodup ∧
      (∀ x ∈ more, x ∈ free) ∧
        (current :: (more ++ [start])).IsChain fun a b => b ∈ calls a := by
  induction free, way, current using ringFrom?.induct generalizing ring with
  | case1 free way current ih =>
    rw [ringFrom?] at hfound
    obtain ⟨next, hcall, hnext⟩ := List.exists_of_findSome?_eq_some hfound
    split at hnext
    · next hclosed =>
      cases hnext
      obtain ⟨rfl, hlong⟩ := hclosed
      exact ⟨[], by simp, hlong, List.nodup_nil, List.forall_mem_nil _, by simpa using hcall⟩
    · split at hnext
      · next hmem =>
        obtain ⟨more, rfl, hlong, honce, hfrom, hchain⟩ := ih next hmem (hfree.erase next) hnext
        have hnew (x : String) (hx : x ∈ more) : x ≠ next ∧ x ∈ free :=
          hfree.mem_erase_iff.mp (hfrom x hx)
        refine ⟨next :: more, by simp, ?_, ?_, ?_, ?_⟩
        · simp only [List.length_append, List.length_cons, List.length_nil] at hlong ⊢
          omega
        · exact List.nodup_cons.mpr ⟨fun hmore => (hnew next hmore).1 rfl, honce⟩
        · exact List.forall_mem_cons.mpr ⟨hmem, fun x hx => (hnew x hx).2⟩
        · exact List.isChain_cons_cons.mpr ⟨hcall, hchain⟩
      · cases hnext

/-- If the search from a flow finds nothing, no way leads from a flow that it calls back to it
through flows that are free. -/
theorem no_via_of_ringFrom?_start {next : String} (hfree : free.Nodup)
    (hnone : ringFrom? calls start free [start] start = none) (hcall : next ∈ calls start)
    (hnext : next ∈ free) : ¬ Via (fun a b => b ∈ calls a) (· ∈ free) next start := by
  intro hvia
  rw [ringFrom?, List.findSome?_eq_none_iff] at hnone
  have hgone := hnone next hcall
  rw [if_neg (fun h => Nat.lt_irrefl 1 h.2), dif_pos hnext] at hgone
  refine no_via_of_ringFrom?_none (hfree.erase next) hgone (.inl (by simp)) (by simp) ?_
  exact hvia.leave.mono fun x hx => hfree.mem_erase_iff.mpr ⟨hx.2, hx.1⟩

end Search

theorem Via.imp {C C' : String → String → Prop} {S S' : String → Prop} (h : Via C S a b)
    (hC : ∀ a b, C a b → C' a b) (hS : ∀ a b, C a b → S b → S' b) : Via C' S' a b := by
  induction h with
  | edge hcall => exact .edge (hC _ _ hcall)
  | step hcall hb _ ih => exact .step (hC _ _ hcall) (hS _ _ hcall hb) ih

/-- A chain of calls is a way. -/
theorem via_of_isChain {C : String → String → Prop} {S : String → Prop} {between : List String}
    (hchain : (a :: (between ++ [b])).IsChain C) (hbetween : ∀ x ∈ between, S x) :
    Via C S a b := by
  induction between generalizing a with
  | nil => exact .edge (List.isChain_pair.mp hchain)
  | cons x rest ih =>
      obtain ⟨hcall, hchain⟩ := List.isChain_cons_cons.mp hchain
      obtain ⟨hx, hrest⟩ := List.forall_mem_cons.mp hbetween
      exact .step hcall hx (ih hchain hrest)

/-- A ring read from one of its flows. -/
theorem exists_from_of_mem {s : Cycle String} (h : start ∈ s) :
    ∃ between : List String, s = ↑(start :: between) := by
  induction s using Cycle.induction_on with
  | nil => exact absurd h (Cycle.notMem_nil _)
  | cons first rest _ =>
      obtain ⟨before, after, hsplit⟩ := List.append_of_mem (Cycle.mem_coe_iff.mp h)
      refine ⟨after ++ before, ?_⟩
      rw [hsplit, Cycle.coe_eq_coe]
      exact List.isRotated_append

/-- What the rule reports are the rings that the search finds, flow by flow. -/
theorem mem_callCycle {x : Finding} : x ∈ callCycle d ↔
    ∃ start ring, start ∈ Fields.keys (byName d) ∧ ringOf? (byName d) start = some ring ∧
      x = ⟨"call_cycle", .error, start, (Misuse.callRing ring).message,
        some "Break the cycle; a called flow must not call back into its caller"⟩ := by
  simp only [callCycle, List.mem_filterMap, Option.map_eq_some_iff]
  constructor
  · rintro ⟨start, hstart, ring, hring, rfl⟩
    exact ⟨start, ring, hstart, hring, rfl⟩
  · rintro ⟨start, ring, hstart, hring, rfl⟩
    exact ⟨start, hstart, ring, hring, rfl⟩

theorem flows_callCycle : (callCycle d).map (·.flow) =
    (Fields.keys (byName d)).filter fun name => (ringOf? (byName d) name).isSome := by
  simp only [callCycle]
  induction Fields.keys (byName d) with
  | nil => rfl
  | cons name rest ih =>
      cases hring : ringOf? (byName d) name <;> simp [hring, ih]

/-- Two flows that can call each other back are on a way of calls from the least such flow to it
through flows above. -/
theorem exists_least_of_mutual (hne : a ≠ b) (hab : TransGen (NamedCall d) a b)
    (hba : TransGen (NamedCall d) b a) : ∃ start next, NamedCall d start next ∧ start < next ∧
      Via (NamedCall d) (start < ·) next start := by
  -- Calls of a flow to itself lead nowhere else, so they can be left out.
  let C (a b : String) : Prop := NamedCall d a b ∧ a ≠ b
  have hlead {a b : String} (h : ReflTransGen (NamedCall d) a b) : ReflTransGen C a b := by
    induction h with
    | refl => exact .refl
    | @tail b c _ hcall ih =>
        by_cases hsame : b = c
        · exact hsame ▸ ih
        · exact ih.tail ⟨hcall, hsame⟩
  have hring : TransGen C a a := by
    obtain heq | hthere := reflTransGen_iff_eq_or_transGen.mp (hlead hab.to_reflTransGen)
    · exact absurd heq.symm hne
    · exact hthere.trans_left (hlead hba.to_reflTransGen)
  have hfinite : {x | TransGen C x x}.Finite := by
    refine (flowNames d).finite_toSet.subset fun x hx => ?_
    obtain ⟨y, hy, _⟩ := TransGen.head'_iff.mp hx
    exact hy.1.caller
  obtain ⟨start, hstart, hleast⟩ := Set.exists_min_image _ id hfinite ⟨a, hring⟩
  have habove {x : String} (hback : TransGen C x start) (hthere : ReflTransGen C start x)
      (hx : x ≠ start) : start < x :=
    lt_of_le_of_ne (hleast x (hback.trans_left hthere)) hx.symm
  have hvia := (via_of_transGen hstart .refl).leave
  cases hvia with
  | edge hself => exact absurd rfl hself.2
  | @step _ next _ hcall hnext hrest =>
      refine ⟨start, next, hcall.1, habove hnext.1.1 hnext.1.2 hnext.2, ?_⟩
      exact hrest.imp (fun _ _ h => h.1) fun _ x _ hx => habove hx.1.1 hx.1.2 hx.2

/-- Flows of one ring can call each other back. -/
theorem CallRing.mutual {s : Cycle String} (hring : CallRing d s) :
    ∃ a b, a ≠ b ∧ TransGen (NamedCall d) a b ∧ TransGen (NamedCall d) b a := by
  obtain ⟨a, b, hne, ha, hb⟩ := hring.several
  have hchain : s.Chain (TransGen (NamedCall d)) := hring.calls.imp fun _ _ => .single
  have hall := Cycle.chain_iff_pairwise.mp hchain
  exact ⟨a, b, hne, hall a ha b hb, hall b hb a ha⟩

/-- The flows on a ring are flows of the document. -/
theorem CallRing.named {s : Cycle String} (hring : CallRing d s) (h : a ∈ s) : a ∈ flowNames d := by
  obtain ⟨between, rfl⟩ := exists_from_of_mem h
  obtain _ | ⟨next, rest⟩ := between
  · exact (List.isChain_pair.mp ((Cycle.chain_coe_cons _ _ _).mp hring.calls)).caller
  · exact (List.isChain_cons_cons.mp ((Cycle.chain_coe_cons _ _ _).mp hring.calls)).1.caller

section Rule

variable (hdistinct : (flowNames d).Nodup)

include hdistinct

/-- The ring that the search finds from a flow. -/
theorem callRing_of_ringOf? {ring : List String} (hstart : start ∈ Fields.keys (byName d))
    (hfound : ringOf? (byName d) start = some ring) : ∃ between, ring = start :: between ++ [start] ∧
      CallRing d ↑(start :: between) ∧ ∀ x ∈ between, start < x := by
  have hkeys := Fields.nodup_keys_ofList (d.flows.filterMap fun f => f.name.map (·, f))
  obtain ⟨between, rfl, hlong, honce, hfrom, hchain⟩ := found_of_ringFrom? (hkeys.filter _) hfound
  have hnew (x : String) (hx : x ∈ between) : x ∈ Fields.keys (byName d) ∧ start < x := by
    obtain ⟨hkey, hless⟩ := List.mem_filter.mp (hfrom x hx)
    exact ⟨hkey, of_decide_eq_true hless⟩
  have hnodup : (start :: between).Nodup :=
    List.nodup_cons.mpr ⟨fun hmem => (hnew start hmem).2.ne rfl, honce⟩
  refine ⟨between, rfl, ⟨?_, hnodup, ?_⟩, fun x hx => (hnew x hx).2⟩
  · refine (Cycle.chain_coe_cons _ _ _).mpr (List.IsChain.imp_of_mem_tail_imp ?_ hchain)
    intro a b _ hb hcall
    refine (namedCall_iff hdistinct).mpr ⟨hcall, ?_⟩
    obtain hb | hb := List.mem_append.mp hb
    · exact (hnew b hb).1
    · exact List.mem_singleton.mp hb ▸ hstart
  · refine (Cycle.nontrivial_coe_nodup_iff hnodup).mpr ?_
    simp only [List.length_singleton] at hlong
    simp only [List.length_cons]
    omega

/-- From a flow that can be called back through the flows above it, the search finds a ring. -/
theorem ringOf?_isSome_of_via {next : String} (hcall : NamedCall d start next) (hless : start < next)
    (hvia : Via (NamedCall d) (start < ·) next start) :
    ∃ ring, ringOf? (byName d) start = some ring := by
  have hkeys := Fields.nodup_keys_ofList (d.flows.filterMap fun f => f.name.map (·, f))
  have hfree {x : String} (hkey : x ∈ Fields.keys (byName d)) (hx : start < x) :
      x ∈ (Fields.keys (byName d)).filter fun name => decide (start < name) :=
    List.mem_filter.mpr ⟨hkey, decide_eq_true hx⟩
  refine Option.ne_none_iff_exists'.mp fun hnone => ?_
  obtain ⟨hcalls, hnamed⟩ := (namedCall_iff hdistinct).mp hcall
  refine no_via_of_ringFrom?_start (hkeys.filter _) hnone hcalls (hfree hnamed hless) ?_
  -- A flow that is come to is called, so it is there.
  refine hvia.imp (fun a b hcall => ((namedCall_iff hdistinct).mp hcall).1) fun a b hcall hb => ?_
  exact hfree ((namedCall_iff hdistinct).mp hcall).2 hb

/-- From the least flow of a ring the search finds one. -/
theorem ringOf?_isSome_of_least {s : Cycle String} (hring : CallRing d s) (hstart : start ∈ s)
    (hleast : ∀ x ∈ s, start ≤ x) : ∃ ring, ringOf? (byName d) start = some ring := by
  obtain ⟨between, rfl⟩ := exists_from_of_mem hstart
  have hnodup : (start :: between).Nodup := hring.once
  obtain ⟨hnot, _⟩ := List.nodup_cons.mp hnodup
  have habove (x : String) (hx : x ∈ between) : start < x :=
    lt_of_le_of_ne (hleast x (Cycle.mem_coe_iff.mpr (List.mem_cons_of_mem _ hx)))
      fun hsame => hnot (hsame ▸ hx)
  have hchain := (Cycle.chain_coe_cons _ _ _).mp hring.calls
  cases between with
  | nil =>
      have htwo := (Cycle.nontrivial_coe_nodup_iff hnodup).mp hring.several
      exact absurd htwo (Nat.not_succ_le_self 1)
  | cons next rest =>
      obtain ⟨hcall, hchain⟩ := List.isChain_cons_cons.mp hchain
      obtain ⟨hnext, hrest⟩ := List.forall_mem_cons.mp habove
      exact ringOf?_isSome_of_via hdistinct hcall hnext (via_of_isChain hchain hrest)

/-- The rule reports exactly the flows that are the least of a ring of calls, each of them once and
with such a ring in the message. So it reports nothing exactly if no two flows can call each other
back. -/
theorem callCycle_exact :
    (∀ m, (∃ x ∈ callCycle d, x.flow = m) ↔ ∃ s, CallRing d s ∧ m ∈ s ∧ ∀ x ∈ s, m ≤ x) ∧
    ((callCycle d).map (·.flow)).Nodup ∧
    (∀ x ∈ callCycle d, x.severity = .error ∧ ∃ between,
      x.message = "flows call each other in a cycle: " ++
        " -> ".intercalate (x.flow :: between ++ [x.flow]) ∧
      CallRing d ↑(x.flow :: between) ∧ ∀ y ∈ between, x.flow < y) ∧
    (callCycle d = [] ↔
      ∀ a b, TransGen (NamedCall d) a b → TransGen (NamedCall d) b a → a = b) := by
  have hfound (x : Finding) (hx : x ∈ callCycle d) : x.severity = .error ∧ ∃ between,
      x.message = "flows call each other in a cycle: " ++
        " -> ".intercalate (x.flow :: between ++ [x.flow]) ∧
      CallRing d ↑(x.flow :: between) ∧ ∀ y ∈ between, x.flow < y := by
    obtain ⟨start, ring, hkey, hring, rfl⟩ := mem_callCycle.mp hx
    obtain ⟨between, rfl, hcalls, habove⟩ := callRing_of_ringOf? hdistinct hkey hring
    exact ⟨rfl, between, rfl, hcalls, habove⟩
  refine ⟨fun m => ⟨?_, ?_⟩, ?_, hfound, ?_, ?_⟩
  · rintro ⟨x, hx, rfl⟩
    obtain ⟨_, between, _, hcalls, habove⟩ := hfound x hx
    refine ⟨_, hcalls, Cycle.mem_coe_iff.mpr List.mem_cons_self, fun y hy => ?_⟩
    obtain rfl | hy := List.mem_cons.mp (Cycle.mem_coe_iff.mp hy)
    · exact le_refl _
    · exact (habove y hy).le
  · rintro ⟨s, hring, hm, hleast⟩
    obtain ⟨ring, hring'⟩ := ringOf?_isSome_of_least hdistinct hring hm hleast
    have hkey := mem_keys_byName.mpr (hring.named hm)
    exact ⟨_, mem_callCycle.mpr ⟨_, ring, hkey, hring', rfl⟩, rfl⟩
  · rw [flows_callCycle]
    exact (Fields.nodup_keys_ofList _).filter _
  · intro hnone a b hab hba
    by_contra hne
    obtain ⟨start, next, hcall, hless, hvia⟩ := exists_least_of_mutual hne hab hba
    obtain ⟨ring, hring⟩ := ringOf?_isSome_of_via hdistinct hcall hless hvia
    have hkey := mem_keys_byName.mpr hcall.caller
    have hmem := mem_callCycle.mpr ⟨_, ring, hkey, hring, rfl⟩
    rw [hnone] at hmem
    cases hmem
  · intro hnone
    refine List.eq_nil_iff_forall_not_mem.mpr fun x hx => ?_
    obtain ⟨_, _, _, hcalls, _⟩ := hfound x hx
    obtain ⟨a, b, hne, hab, hba⟩ := hcalls.mutual
    exact hne (hnone a b hab hba)

end Rule

/-- A flow that calls others one after the other. -/
def caller (name : String) (targets : List String) : Flow :=
  { Flow.empty with
    name := some name
    operators := targets.map fun target => .operator ⟨"map", none, [.flow target], []⟩ }

/-- Three flows that call each other in a ring; one of them calls itself, too. -/
def circle : Document := ⟨[caller "b" ["b", "c"], caller "c" ["a"], caller "a" ["b"]], []⟩

theorem circle_reported : (flowNames circle).Nodup ∧
    CallRing circle ↑["a", "b", "c"] ∧ ∃ x ∈ callCycle circle, x.flow = "a" := by
  have hdistinct : (flowNames circle).Nodup := by decide
  have hcall {a b : String} (h : b ∈ callsOf (byName circle) a ∧ b ∈ Fields.keys (byName circle)) :
      NamedCall circle a b := (namedCall_iff hdistinct).mpr h
  have hring : CallRing circle ↑["a", "b", "c"] := by
    refine ⟨(Cycle.chain_coe_cons _ _ _).mpr ?_, by decide, "a", "b", by decide, by simp, by simp⟩
    refine .cons_cons (hcall ?_) (.cons_cons (hcall ?_) (.cons_cons (hcall ?_) (.singleton _)))
    all_goals decide
  have hleast : ∀ x ∈ ["a", "b", "c"], "a" ≤ x := by decide
  exact ⟨hdistinct, hring, ((callCycle_exact hdistinct).1 "a").mpr
    ⟨_, hring, by simp, fun x hx => hleast x (Cycle.mem_coe_iff.mp hx)⟩⟩

end PullFlow.Lint
