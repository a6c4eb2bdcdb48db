import PullFlow.Lint
import PullFlow.Proofs.Fields
import Mathlib.Data.String.Basic
import Mathlib.Data.Set.Finite.Lemmas
import Mathlib.Logic.Relation

/-!
What a document is like that the checks accept. Each rule that can refuse a document becomes a fact
about its flows. The search for rings of calls is complete: from the least flow of a ring it goes
through the flows above, each at most once, and so comes to every ring that has no shorter one in
it.
-/

namespace PullFlow.Lint

open Blueprint Relation

section Rings

variable {C : String → String → Prop}

/-- A way from one flow to another whose flows in between are all in a set. -/
inductive Via (C : String → String → Prop) (S : String → Prop) : String → String → Prop
  | edge {a b : String} : C a b → Via C S a b
  | step {a b c : String} : C a b → S b → Via C S b c → Via C S a c

namespace Via

variable {S S' : String → Prop} {a b c : String}

theorem mono (h : Via C S a b) (hS : ∀ x, S x → S' x) : Via C S' a b := by
  induction h with
  | edge hab => exact .edge hab
  | step hab hb _ ih => exact .step hab (hS _ hb) ih

/-- A way either keeps clear of a flow or has a part that starts there and does. -/
theorem avoid (h : Via C S a c) (b : String) :
    Via C (fun x => S x ∧ x ≠ b) a c ∨ Via C (fun x => S x ∧ x ≠ b) b c := by
  induction h with
  | edge hac => exact .inl (.edge hac)
  | @step a x c hax hx _ ih =>
      obtain hclear | hlate := ih
      · by_cases hxb : x = b
        · exact .inr (hxb ▸ hclear)
        · exact .inl (.step hax ⟨hx, hxb⟩ hclear)
      · exact .inr hlate

/-- A way need not come back to where it starts. -/
theorem leave (h : Via C S a c) : Via C (fun x => S x ∧ x ≠ a) a c := by
  obtain h | h := h.avoid a <;> exact h

end Via

/-- A way of calls to a flow, through flows on rings with it. -/
theorem via_of_transGen {start a : String} (h : TransGen C a start)
    (ha : ReflTransGen C start a) :
    Via C (fun x => TransGen C x start ∧ ReflTransGen C start x) a start := by
  induction h using TransGen.head_induction_on with
  | single hab => exact .edge hab
  | head hab hb ih => exact .step hab ⟨hb, ha.tail hab⟩ (ih (ha.tail hab))

/-- The search from a flow misses no way back to the start through the flows that are free. -/
theorem no_via_of_ringFrom?_none {calls : String → List String} {start : String}
    {free way : List String} {current : String} (hfree : free.Nodup)
    (hnone : ringFrom? calls start free way current = none)
    (hlong : 1 < way.length ∨ start ∉ calls current) (hway : way ≠ []) :
    ¬ Via (fun a b => b ∈ calls a) (· ∈ free) current start := by
  induction free, way, current using ringFrom?.induct with
  | case1 free way current ih =>
    intro hvia
    rw [ringFrom?, List.findSome?_eq_none_iff] at hnone
    cases hvia with
    | edge hcall =>
        have hlong : 1 < way.length := by
          obtain hlong | hnot := hlong
          · exact hlong
          · exact absurd hcall hnot
        have hclosed := hnone start hcall
        rw [if_pos ⟨rfl, hlong⟩] at hclosed
        cases hclosed
    | @step _ next _ hcall hnext hrest =>
        have hgone := hnone next hcall
        split at hgone
        · cases hgone
        · refine ih next hnext (hfree.erase next) hgone (.inl ?_) (by simp) ?_
          · have := List.length_pos_iff.mpr hway
            simp only [List.length_append, List.length_singleton]
            omega
          · refine hrest.leave.mono fun x hx => ?_
            exact (hfree.mem_erase_iff).mpr ⟨hx.2, hx.1⟩

/-- Without a ring in the findings, and with no flow that calls itself, the flows that a document
names do not call each other in a ring. -/
theorem no_ring_of_ringOf?_none {flows : List (String × Flow)}
    (hkeys : (Fields.keys flows).Nodup)
    (hself : ∀ name, name ∉ callsOf flows name)
    (hnone : ∀ name ∈ Fields.keys flows, ringOf? flows name = none) (name : String) :
    ¬ TransGen (fun a b => b ∈ callsOf flows a) name name := by
  intro hring
  -- Only flows that are there call any.
  have hkey {a b : String} (h : b ∈ callsOf flows a) : a ∈ Fields.keys flows := by
    rw [Fields.mem_keys_iff]
    cases hget : Fields.get? a flows with
    | some f => exact ⟨f, rfl⟩
    | none => simp [callsOf, hget] at h
  have hfinite : {a | TransGen (fun a b => b ∈ callsOf flows a) a a}.Finite := by
    refine (Fields.keys flows).finite_toSet.subset fun a ha => ?_
    obtain ⟨b, hab, _⟩ := TransGen.head'_iff.mp ha
    exact hkey hab
  obtain ⟨start, hstart, hleast⟩ := Set.exists_min_image _ id hfinite ⟨name, hring⟩
  have hvia := (via_of_transGen hstart .refl).leave
  obtain ⟨first, hfirst, _⟩ := TransGen.head'_iff.mp hstart
  refine no_via_of_ringFrom?_none (hkeys.filter _) (hnone start (hkey hfirst)) (.inr (hself start))
    (List.cons_ne_nil _ _) (hvia.mono ?_)
  rintro x ⟨⟨hback, hthere⟩, hne⟩
  have hx : TransGen (fun a b => b ∈ callsOf flows a) x x := hback.trans_left hthere
  obtain ⟨next, hnext, _⟩ := TransGen.head'_iff.mp hx
  exact List.mem_filter.mpr ⟨hkey hnext, decide_eq_true (lt_of_le_of_ne (hleast x hx) (Ne.symm hne))⟩

end Rings

variable {r : Registry} {d : Document} {found : List Finding}

/-- The flow `b` is called by the flow of name `a`. -/
def Calls (d : Document) (a b : String) : Prop := b ∈ callsOf (byName d) a

theorem mem_flowNames {name : String} :
    name ∈ flowNames d ↔ ∃ f ∈ d.flows, f.name = some name := by
  simp [flowNames]

theorem mem_byName {name : String} {f : Flow} (h : Fields.get? name (byName d) = some f) :
    f ∈ d.flows ∧ f.name = some name := by
  have hmem := Fields.mem_of_get?_ofList h
  simp only [List.mem_filterMap, Option.map_eq_some_iff] at hmem
  obtain ⟨g, hg, other, hname, heq⟩ := hmem
  cases heq
  exact ⟨hg, hname⟩

theorem mem_keys_byName {name : String} :
    name ∈ Fields.keys (byName d) ↔ name ∈ flowNames d := by
  rw [byName, Fields.mem_keys_ofList, mem_flowNames]
  simp [Fields.keys]

/-- Only one flow has a name of its own. -/
theorem position_of_name (hdistinct : (flowNames d).Nodup) {i j : Nat} {f g : Flow} {name : String}
    (hf : d.flows[i]? = some f) (hg : d.flows[j]? = some g) (hfname : f.name = some name)
    (hgname : g.name = some name) : i = j := by
  have hpairs := List.pairwise_iff_getElem.mp (List.pairwise_filterMap.mp hdistinct)
  obtain ⟨hi, rfl⟩ := List.getElem?_eq_some_iff.mp hf
  obtain ⟨hj, rfl⟩ := List.getElem?_eq_some_iff.mp hg
  rcases Nat.lt_trichotomy i j with hlt | heq | hlt
  · exact absurd rfl (hpairs i j hi hj hlt name hfname name hgname)
  · exact heq
  · exact absurd rfl (hpairs j i hj hi hlt name hgname name hfname)

/-- A flow with a name of its own is found under it. -/
theorem byName_of_mem (hdistinct : (flowNames d).Nodup) {f : Flow} {name : String}
    (hf : f ∈ d.flows) (hname : f.name = some name) : Fields.get? name (byName d) = some f := by
  obtain ⟨g, hg⟩ := Fields.mem_keys_iff.mp
    (mem_keys_byName.mpr (mem_flowNames.mpr ⟨f, hf, hname⟩))
  obtain ⟨hgmem, hgname⟩ := mem_byName hg
  obtain ⟨i, hi⟩ := List.getElem?_of_mem hgmem
  obtain ⟨j, hj⟩ := List.getElem?_of_mem hf
  have hsame := position_of_name hdistinct hi hj hgname hname
  subst hsame
  rw [hg, ← hi, hj]

theorem mem_labelled {f : Flow} (hf : f ∈ d.flows) : ∃ name, (name, f) ∈ labelled d := by
  obtain ⟨i, hi, rfl⟩ := List.getElem_of_mem hf
  refine ⟨label i d.flows[i], List.mem_map.mpr ⟨(d.flows[i], i), ?_, rfl⟩⟩
  exact List.mk_mem_zipIdx_iff_getElem?.mpr (List.getElem?_eq_getElem hi)

/-- A document that the checks accept. -/
structure Accepted (r : Registry) (d : Document) : Prop where
  known : ∀ f ∈ d.flows, ∀ role part, (role, part) ∈ roles f → r.has role part.kind = true
  distinct : (flowNames d).Nodup
  present : ∀ f ∈ d.flows, ∀ role part, (role, part) ∈ roles f → ∀ target ∈ references part,
    target ∈ flowNames d
  apart : ∀ f ∈ d.flows, ∀ name, f.name = some name → name ∉ f.calledFlows ++ f.outflowTargets
  ringless : ∀ name, ¬ TransGen (Calls d) name name
  callable : ∀ f ∈ d.flows, ∀ target ∈ f.calledFlows, ∀ peer ∈ d.flows, peer.name = some target →
    hasCallMonitor peer = true
  bare : ∀ f ∈ d.flows, hasCallMonitor f = true → f.source = none ∧ f.sink = none

/-- No rule whose findings are errors has found anything in a document that is accepted. -/
theorem silent_of_accept (h : accept r d = .ok found) {rule : List Finding}
    (hrule : ∀ x ∈ rule, x ∈ findings r d) (herror : ∀ x ∈ rule, x.severity = .error) :
    rule = [] := by
  unfold accept at h
  dsimp only at h
  split at h
  · next hnone =>
    refine List.eq_nil_iff_forall_not_mem.mpr fun x hx => ?_
    have hmem : x ∈ (findings r d).filter (·.severity = .error) :=
      List.mem_filter.mpr ⟨hrule x hx, decide_eq_true (herror x hx)⟩
    rw [hnone] at hmem
    cases hmem
  · cases h

theorem known_of_accept (h : accept r d = .ok found) :
    ∀ f ∈ d.flows, ∀ role part, (role, part) ∈ roles f → r.has role part.kind = true := by
  have hsilent : unknownKind r d = [] := by
    refine silent_of_accept h (fun x hx => by simp [findings, hx]) fun x hx => ?_
    simp only [unknownKind, List.mem_flatMap, List.mem_filterMap] at hx
    obtain ⟨_, _, _, _, hx⟩ := hx
    split at hx <;> cases hx
    rfl
  intro f hf role part hpart
  obtain ⟨name, hlabel⟩ := mem_labelled hf
  rw [unknownKind, List.flatMap_eq_nil_iff] at hsilent
  have hnone := List.filterMap_eq_nil_iff.mp (hsilent (name, f) hlabel) (role, part) hpart
  dsimp only at hnone
  split at hnone
  · assumption
  · cases hnone

theorem distinct_of_accept (h : accept r d = .ok found) : (flowNames d).Nodup := by
  have hsilent : duplicateName d = [] := by
    refine silent_of_accept h (fun x hx => by simp [findings, hx]) fun x hx => ?_
    simp only [duplicateName, List.mem_filterMap] at hx
    obtain ⟨_, _, hx⟩ := hx
    split at hx <;> cases hx
    rfl
  refine List.nodup_iff_count_le_one.mpr fun name => ?_
  by_cases hmem : name ∈ flowNames d
  · have hnone := List.filterMap_eq_nil_iff.mp hsilent name (mem_keys_byName.mpr hmem)
    dsimp only at hnone
    split at hnone
    · assumption
    · cases hnone
  · rw [List.count_eq_zero_of_not_mem hmem]
    exact Nat.zero_le 1

theorem present_of_accept (h : accept r d = .ok found) :
    ∀ f ∈ d.flows, ∀ role part, (role, part) ∈ roles f → ∀ target ∈ references part,
      target ∈ flowNames d := by
  have hsilent : danglingReference d = [] := by
    refine silent_of_accept h (fun x hx => by simp [findings, hx]) fun x hx => ?_
    simp only [danglingReference, List.mem_flatMap, List.mem_map] at hx
    obtain ⟨_, _, _, _, _, _, rfl⟩ := hx
    rfl
  intro f hf role part hpart target htarget
  obtain ⟨name, hlabel⟩ := mem_labelled hf
  rw [danglingReference, List.flatMap_eq_nil_iff] at hsilent
  have hnone := List.flatMap_eq_nil_iff.mp (hsilent (name, f) hlabel) (role, part) hpart
  have hkept := List.filter_eq_nil_iff.mp (List.map_eq_nil_iff.mp hnone) target htarget
  simpa using hkept

theorem apart_of_accept (h : accept r d = .ok found) :
    ∀ f ∈ d.flows, ∀ name, f.name = some name → name ∉ f.calledFlows ++ f.outflowTargets := by
  have hsilent : selfReference d = [] := by
    refine silent_of_accept h (fun x hx => by simp [findings, hx]) fun x hx => ?_
    simp only [selfReference, List.mem_filterMap, Option.bind_eq_some_iff] at hx
    obtain ⟨_, _, _, _, hx⟩ := hx
    split at hx <;> cases hx
    rfl
  intro f hf name hname hself
  have hnone := List.filterMap_eq_nil_iff.mp hsilent f hf
  rw [hname, Option.bind_some, if_pos (List.contains_iff_mem.mpr hself)] at hnone
  cases hnone

theorem ringless_of_accept (h : accept r d = .ok found) (name : String) :
    ¬ TransGen (Calls d) name name := by
  have hsilent : callCycle d = [] := by
    refine silent_of_accept h (fun x hx => by simp [findings, hx]) fun x hx => ?_
    simp only [callCycle, List.mem_filterMap, Option.map_eq_some_iff] at hx
    obtain ⟨_, _, _, _, rfl⟩ := hx
    rfl
  refine no_ring_of_ringOf?_none (Fields.nodup_keys_ofList _) ?_ ?_ name
  · intro name hself
    rw [callsOf] at hself
    split at hself
    · next f hf =>
      obtain ⟨hmem, hname⟩ := mem_byName hf
      exact apart_of_accept h f hmem name hname (List.mem_append_left _ hself)
    · cases hself
  · intro start hstart
    exact Option.map_eq_none_iff.mp (List.filterMap_eq_nil_iff.mp hsilent start hstart)

theorem callable_of_accept (h : accept r d = .ok found) :
    ∀ f ∈ d.flows, ∀ target ∈ f.calledFlows, ∀ peer ∈ d.flows, peer.name = some target →
      hasCallMonitor peer = true := by
  have hsilent : callableTarget d = [] := by
    refine silent_of_accept h (fun x hx => by simp [findings, hx]) fun x hx => ?_
    simp only [callableTarget, List.mem_flatMap, List.mem_filterMap, Option.bind_eq_some_iff] at hx
    obtain ⟨_, _, _, _, _, _, hx⟩ := hx
    split at hx <;> cases hx
    rfl
  intro f hf target htarget peer hpeer hname
  obtain ⟨name, hlabel⟩ := mem_labelled hf
  rw [callableTarget, List.flatMap_eq_nil_iff] at hsilent
  have hnone := List.filterMap_eq_nil_iff.mp (hsilent (name, f) hlabel) target htarget
  rw [byName_of_mem (distinct_of_accept h) hpeer hname, Option.bind_some] at hnone
  split at hnone
  · assumption
  · cases hnone

theorem bare_of_accept (h : accept r d = .ok found) :
    ∀ f ∈ d.flows, hasCallMonitor f = true → f.source = none ∧ f.sink = none := by
  have hsilent : callMonitor d = [] := by
    refine silent_of_accept h (fun x hx => by simp [findings, hx]) fun x hx => ?_
    simp only [callMonitor, List.mem_flatMap] at hx
    obtain ⟨_, _, hx⟩ := hx
    split at hx
    · obtain ⟨_, _, rfl⟩ := List.mem_map.mp hx
      rfl
    · cases hx
  intro f hf hcall
  obtain ⟨name, hlabel⟩ := mem_labelled hf
  rw [callMonitor, List.flatMap_eq_nil_iff] at hsilent
  have hnone := hsilent (name, f) hlabel
  dsimp only at hnone
  rw [if_pos hcall] at hnone
  have hkept := List.filter_eq_nil_iff.mp (List.map_eq_nil_iff.mp hnone)
  constructor
  · simpa using hkept ("source", f.source) (by simp)
  · simpa using hkept ("sink", f.sink) (by simp)

theorem accepted_of_accept (h : accept r d = .ok found) : Accepted r d where
  known := known_of_accept h
  distinct := distinct_of_accept h
  present := present_of_accept h
  apart := apart_of_accept h
  ringless := ringless_of_accept h
  callable := callable_of_accept h
  bare := bare_of_accept h

theorem mem_withoutRepeats {name : String} {names : List String} :
    name ∈ withoutRepeats names ↔ name ∈ names := by
  fun_induction withoutRepeats names with
  | case1 a rest ih => simp [ih]
  | case2 a b rest hne ih => simp [ih]
  | case3 short => rfl

namespace Accepted

variable {f : Flow} {target : String}

/-- The flow that a component calls or feeds is there. -/
theorem target_present (h : Accepted r d) (hf : f ∈ d.flows) (role : Role) (part : Part)
    (hpart : (role, part) ∈ roles f) (htarget : part.target? = some target) :
    target ∈ flowNames d := by
  refine h.present f hf role part hpart target (mem_withoutRepeats.mpr ?_)
  simp [htarget]

theorem called_present (h : Accepted r d) (hf : f ∈ d.flows) (htarget : target ∈ f.calledFlows) :
    target ∈ flowNames d := by
  obtain ⟨part, hpart, htarget⟩ := List.mem_filterMap.mp htarget
  obtain ⟨link, hlink, hlinked⟩ := List.mem_filterMap.mp hpart
  cases link with
  | tee sink => cases hlinked
  | operator other =>
      cases hlinked
      refine h.target_present hf .operator part ?_ htarget
      simp only [roles, List.mem_append, List.mem_map]
      exact .inl (.inl (.inr ⟨.operator part, hlink, rfl⟩))

theorem fed_present (h : Accepted r d) (hf : f ∈ d.flows) (htarget : target ∈ f.outflowTargets) :
    target ∈ flowNames d := by
  obtain ⟨part, hpart, htarget⟩ := List.mem_filterMap.mp htarget
  have hsinks := (List.mem_filter.mp hpart).1
  rw [Flow.sinks, List.mem_append] at hsinks
  obtain htee | hend := hsinks
  · obtain ⟨link, hlink, hlinked⟩ := List.mem_filterMap.mp htee
    cases link with
    | operator other => cases hlinked
    | tee other =>
        cases hlinked
        refine h.target_present hf .sink part ?_ htarget
        simp only [roles, List.mem_append, List.mem_map]
        exact .inl (.inl (.inr ⟨.tee part, hlink, rfl⟩))
  · exact h.target_present hf .sink part (by simp [roles, Option.mem_toList.mp hend]) htarget

theorem demander_present (h : Accepted r d) (hf : f ∈ d.flows) {part : Part}
    (hsink : f.sink = some part) (htarget : part.target? = some target) : target ∈ flowNames d :=
  h.target_present hf .sink part (by simp [roles, hsink]) htarget

end Accepted

end PullFlow.Lint
