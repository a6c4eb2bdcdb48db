import PullFlow.Blueprint.Layout
import PullFlow.Proofs.Blueprint.Reading
import PullFlow.Proofs.Json.Tidy

/-!
A document that was read from a text, written and read again. All of it comes back as it was but for
one thing: a literal object whose only field is a text under the key of a reference is read as that
reference. Such a literal comes from a text in which that key is repeated, since an object that
repeats a field is no reference, while the literal keeps the last of them only.
-/

namespace PullFlow

/-! Parameters. -/

/-- A parameter as it is read back: a literal that looks like a reference has become one. -/
def Param.revised : Param → Param
  | .literal (.object [("var", .text key)]) => .var key
  | .literal (.object [("flow", .text name)]) => .flow name
  | p => p

/-- A literal that looks like a reference: an object whose only field is a text under the key of
one. -/
def Param.Disguised (p : Param) : Prop :=
  ∃ s, p = .literal (.object [("var", .text s)]) ∨ p = .literal (.object [("flow", .text s)])

theorem Param.revised_eq_self {p : Param} : p.revised = p ↔ ¬p.Disguised := by
  unfold Param.revised
  split
  · next key => exact ⟨fun h => (nomatch h), fun h => absurd ⟨key, .inl rfl⟩ h⟩
  · next name => exact ⟨fun h => (nomatch h), fun h => absurd ⟨name, .inr rfl⟩ h⟩
  · next hvar hflow =>
    refine ⟨fun _ ⟨s, h⟩ => ?_, fun _ => rfl⟩
    exact h.elim (hvar s) (hflow s)

namespace Value

theorem tidy_eq_text {v : Value} {s : String} (h : v.tidy = .text s) : v = .text s := by
  cases v with
  | text t => exact h
  | null | bool _ | number _ | list _ | object _ => simp [tidy] at h

theorem tidy_eq_list {v : Value} {s : String} (h : v.tidy = .list [.text s]) :
    v = .list [.text s] := by
  cases v with
  | list items =>
      rw [tidy, tidyItems_eq] at h
      obtain ⟨w, rfl, hw⟩ := List.map_eq_singleton_iff.mp (Value.list.inj h)
      rw [tidy_eq_text hw]
  | null | bool _ | number _ | text _ | object _ => simp [tidy] at h

/-- Without repeated keys, a value that is tidied to one field had that field only. -/
theorem tidy_eq_only {v : Value} {field s : String} (hkeys : v.Distinct)
    (h : v.tidy = .object [(field, .text s)]) : v = .object [(field, .text s)] := by
  cases v with
  | object fields =>
      have hnodup : (Fields.keys (tidyFields fields)).Nodup := by
        rw [tidyFields_eq, Fields.keys, List.map_map]
        exact (distinct_object.mp hkeys).1
      have hone := Fields.eq_singleton_of_ofList hnodup (Value.object.inj h)
      rw [tidyFields_eq] at hone
      obtain ⟨⟨key, w⟩, rfl, hw⟩ := List.map_eq_singleton_iff.mp hone
      have hkey : key = field := congrArg Prod.fst hw
      have hw : w.tidy = .text s := congrArg Prod.snd hw
      rw [tidy_eq_text hw, hkey]
  | null | bool _ | number _ | text _ | list _ => simp [tidy] at h

end Value

open Blueprint

theorem Blueprint.onlyText?_eq_some {field s : String} {v : Value} :
    onlyText? field v = some s ↔ v = .object [(field, .text s)] ∨ v = .list [.text s] := by
  constructor
  · intro h
    obtain ⟨w, hw, hs⟩ := Option.bind_eq_some_iff.mp h
    have hs : w = .text s := by
      cases w with
      | text t => exact congrArg Value.text (Option.some.inj hs)
      | null | bool _ | number _ | list _ | object _ => cases hs
    subst hs
    unfold only? at hw
    split at hw
    · obtain ⟨rfl, ⟨⟩⟩ := Option.ite_some_none_eq_some.mp hw
      exact .inl rfl
    · cases hw
      exact .inr rfl
    · cases hw
  · rintro (rfl | rfl) <;> simp [onlyText?, only?, Value.toText?]

/-- A literal is read back as it was, unless it looks like a reference. -/
theorem Param.ofValue_literal {v : Value} (htidy : v.tidy = v) (hlist : ∀ s, v ≠ .list [.text s]) :
    Param.ofValue v = (Param.literal v).revised := by
  have hnone {field : String} (h : ∀ s, v ≠ .object [(field, .text s)]) :
      onlyText? field v = none := by
    refine Option.eq_none_iff_forall_ne_some.mpr fun s hs => ?_
    exact (onlyText?_eq_some.mp hs).elim (h s) (hlist s)
  unfold Param.revised
  split
  · next key heq =>
    obtain rfl := Param.literal.inj heq
    rfl
  · next name heq =>
    obtain rfl := Param.literal.inj heq
    rfl
  · next hvar hflow =>
    have hvar := hnone fun s hs => hvar s (congrArg _ hs)
    have hflow := hnone fun s hs => hflow s (congrArg _ hs)
    simp only [Param.ofValue, hvar, hflow, htidy]

theorem Param.ofValue_toValue (v : Value) :
    Param.ofValue (Param.ofValue v).toValue = (Param.ofValue v).revised := by
  cases hvar : onlyText? "var" v with
  | some key =>
      have hp : Param.ofValue v = .var key := by simp only [Param.ofValue, hvar]
      rw [hp]
      rfl
  | none =>
      cases hflow : onlyText? "flow" v with
      | some name =>
          have hp : Param.ofValue v = .flow name := by simp only [Param.ofValue, hvar, hflow]
          rw [hp]
          rfl
      | none =>
          have hp : Param.ofValue v = .literal v.tidy := by simp only [Param.ofValue, hvar, hflow]
          rw [hp]
          refine Param.ofValue_literal v.tidy_tidy fun s hs => ?_
          rw [onlyText?_eq_some.mpr (.inr (Value.tidy_eq_list hs))] at hvar
          cases hvar

theorem Param.ofValue_eq_literal {v w : Value} (h : Param.ofValue v = .literal w) :
    w = v.tidy ∧ onlyText? "var" v = none ∧ onlyText? "flow" v = none := by
  unfold Param.ofValue at h
  split at h
  · cases h
  · next hvar =>
    split at h
    · cases h
    · next hflow => exact ⟨(Param.literal.inj h).symm, hvar, hflow⟩

/-- A parameter written without repeated keys is read back as it was. -/
theorem Param.revised_of_distinct {v : Value} (hkeys : v.Distinct) :
    (Param.ofValue v).revised = Param.ofValue v := by
  unfold Param.revised
  split
  · next key heq =>
    obtain ⟨htidy, hvar, _⟩ := Param.ofValue_eq_literal heq
    rw [onlyText?_eq_some.mpr (.inl (Value.tidy_eq_only hkeys htidy.symm))] at hvar
    cases hvar
  · next name heq =>
    obtain ⟨htidy, _, hflow⟩ := Param.ofValue_eq_literal heq
    rw [onlyText?_eq_some.mpr (.inl (Value.tidy_eq_only hkeys htidy.symm))] at hflow
    cases hflow
  · rfl

theorem Param.fits_toValue {good : Number → Prop} {depth : Nat} {v : Value} (h : v.Fits good depth)
    (hdepth : 1 < depth) : (Param.ofValue v).toValue.Fits good depth := by
  have hone (key s : String) : (Value.object [(key, .text s)]).Fits good depth := by
    refine Value.fits_object.mpr ⟨hdepth, fun f hf => ?_⟩
    rw [List.mem_singleton.mp hf]
    exact Value.fits_text s
  unfold Param.ofValue
  split
  · exact hone ..
  · split
    · exact hone ..
    · exact Value.fits_tidy v h

/-- A parameter that was read from a value of some sort. -/
def Param.From (Q : Value → Prop) (p : Param) : Prop := ∃ v, Q v ∧ p = Param.ofValue v

theorem Param.From.ofValue_toValue {Q : Value → Prop} {p : Param} (h : p.From Q) :
    Param.ofValue p.toValue = p.revised := by
  obtain ⟨v, _, rfl⟩ := h
  exact Param.ofValue_toValue v

namespace Blueprint

/-! What the parts of a document are made of. -/

/-- What holds of a value at a depth holds of its parts one below. -/
structure Inherited (Q : Nat → Value → Prop) : Prop where
  list : ∀ {depth items}, Q depth (.list items) → ∀ v ∈ items, Q (depth - 1) v
  object : ∀ {depth fields}, Q depth (.object fields) → ∀ f ∈ fields, Q (depth - 1) f.2

variable {Q : Nat → Value → Prop} {good : Number → Prop} {depth : Nat} {v : Value}

theorem inherited_fits : Inherited fun depth v => v.Fits good depth :=
  ⟨fun h => (Value.fits_list.mp h).2, fun h => (Value.fits_object.mp h).2⟩

theorem inherited_distinct : Inherited fun _ v => v.Distinct :=
  ⟨fun h => Value.distinct_list.mp h, fun h => (Value.distinct_object.mp h).2⟩

/-- What each step keeps is kept by all steps together. -/
theorem foldlM_keeps {σ β : Type} {P : σ → Prop} {step : σ → β → Option σ} {bs : List β} {s s' : σ}
    (hstep : ∀ b ∈ bs, ∀ s s', P s → step s b = some s' → P s') (hs : P s)
    (h : bs.foldlM step s = some s') : P s' := by
  induction bs generalizing s with
  | nil =>
      cases h
      exact hs
  | cons b rest ih =>
      obtain ⟨hb, hrest⟩ := List.forall_mem_cons.mp hstep
      rw [List.foldlM_cons] at h
      obtain ⟨next, hnext, h⟩ := Option.bind_eq_some_iff.mp h
      exact ih hrest (hb s next hs hnext) h

/-- A component whose parameters were read from values of some sort. -/
structure Part.From (Q : Value → Prop) (p : Part) : Prop where
  args : ∀ a ∈ p.args, a.From Q
  params : ∀ f ∈ p.params, f.2.From Q
  sorted : (Fields.keys p.params).Pairwise (· < ·)

/-- The fields of a component that were read so far. -/
structure Partial.From (Q : Value → Prop) (p : Partial) : Prop where
  args : ∀ args ∈ p.args, ∀ a ∈ args, a.From Q
  params : ∀ params ∈ p.params, (∀ f ∈ params, f.2.From Q) ∧ (Fields.keys params).Pairwise (· < ·)

theorem Partial.from_take? (hQ : Inherited Q) {p p' : Partial} {key : String}
    (hp : p.From (Q (depth - 1))) (hv : Q depth v) (h : p.take? key v = some p') :
    p'.From (Q (depth - 1)) := by
  unfold Partial.take? at h
  split at h
  · obtain ⟨s, _, rfl⟩ := Option.map_eq_some_iff.mp h
    exact ⟨hp.args, hp.params⟩
  split at h
  · obtain ⟨s, _, rfl⟩ := Option.map_eq_some_iff.mp h
    exact ⟨hp.args, hp.params⟩
  split at h
  · obtain ⟨args, hargs, rfl⟩ := Option.map_eq_some_iff.mp h
    refine ⟨?_, hp.params⟩
    rintro _ ⟨⟩ a ha
    cases v with
    | list items =>
        cases hargs
        obtain ⟨w, hw, rfl⟩ := List.mem_map.mp ha
        exact ⟨w, hQ.list hv w hw, rfl⟩
    | null | bool _ | number _ | text _ | object _ => cases hargs
  split at h
  · obtain ⟨params, hparams, rfl⟩ := Option.map_eq_some_iff.mp h
    refine ⟨hp.args, ?_⟩
    rintro _ ⟨⟩
    cases v with
    | object fields =>
        cases hparams
        refine ⟨fun f hf => ?_, Fields.sorted_ofList _⟩
        obtain ⟨w, hw, rfl⟩ := List.mem_map.mp (Fields.mem_ofList hf)
        exact ⟨w.2, hQ.object hv w hw, rfl⟩
    | null | bool _ | number _ | text _ | list _ => cases hparams
  · cases h

theorem Partial.from_part? {Q : Value → Prop} {done : Partial} {p : Part} (h : done.From Q)
    (hp : done.part? = some p) : p.From Q := by
  obtain ⟨kind, _, rfl⟩ := Option.map_eq_some_iff.mp hp
  refine ⟨?_, ?_, ?_⟩
  · cases hargs : done.args with
    | none => exact fun _ h => (nomatch h)
    | some args => exact h.args args hargs
  · cases hparams : done.params with
    | none => exact fun _ h => (nomatch h)
    | some params => exact (h.params params hparams).1
  · cases hparams : done.params with
    | none => exact .nil
    | some params => exact (h.params params hparams).2

/-- A component is made of what stands two below it. -/
theorem Part.from_of_ofValue? (hQ : Inherited Q) {p : Part} (hv : Q depth v)
    (h : Part.ofValue? v = some p) : p.From (Q (depth - 2)) := by
  have hblank : ({} : Partial).From (Q (depth - 1 - 1)) :=
    ⟨fun _ h => (nomatch h), fun _ h => (nomatch h)⟩
  cases v with
  | text kind =>
      cases h
      exact ⟨fun _ h => (nomatch h), fun _ h => (nomatch h), .nil⟩
  | object fields =>
      obtain ⟨done, hfold, hpart⟩ := Option.bind_eq_some_iff.mp h
      refine Partial.from_part? (foldlM_keeps (fun f hf s s' hs htake => ?_) hblank hfold) hpart
      exact Partial.from_take? hQ hs (hQ.object hv f hf) htake
  | list items =>
      simp only [Part.ofValue?] at h
      split at h
      · obtain ⟨done, hfold, hpart⟩ := Option.bind_eq_some_iff.mp h
        refine Partial.from_part? (foldlM_keeps (fun f hf s s' hs htake => ?_) hblank hfold) hpart
        exact Partial.from_take? hQ hs (hQ.list hv f.2 (List.of_mem_zip hf).2) htake
      · cases h
  | null | bool _ | number _ => cases h

theorem only?_eq_some {field : String} {w : Value} :
    only? field v = some w ↔ v = .object [(field, w)] ∨ v = .list [w] := by
  constructor
  · intro h
    unfold only? at h
    split at h
    · obtain ⟨rfl, ⟨⟩⟩ := Option.ite_some_none_eq_some.mp h
      exact .inl rfl
    · cases h
      exact .inr rfl
    · cases h
  · rintro (rfl | rfl) <;> simp [only?]

/-- A link made of a component: a tee has it one deeper than an operator. -/
def Link.From (Q : Nat → Value → Prop) (depth : Nat) : Link → Prop
  | .tee sink => sink.From (Q (depth - 1 - 2))
  | .operator part => part.From (Q (depth - 2))

theorem Link.from_of_ofValue? (hQ : Inherited Q) {l : Link} (hv : Q depth v)
    (h : Link.ofValue? v = some l) : l.From Q depth := by
  unfold Link.ofValue? at h
  split at h
  · next sink hsink =>
    cases h
    obtain ⟨w, hw, hpart⟩ := Option.bind_eq_some_iff.mp hsink
    refine Part.from_of_ofValue? hQ ?_ hpart
    obtain rfl | rfl := only?_eq_some.mp hw
    · exact hQ.object hv _ (List.mem_singleton_self _)
    · exact hQ.list hv _ (List.mem_singleton_self _)
  · obtain ⟨part, hpart, rfl⟩ := Option.map_eq_some_iff.mp h
    exact Part.from_of_ofValue? hQ hv hpart

/-- A flow whose components and links were read from values of some sort. -/
structure Flow.From (Q : Nat → Value → Prop) (depth : Nat) (f : Flow) : Prop where
  source : ∀ p ∈ f.source, p.From (Q (depth - 1 - 2))
  operators : ∀ l ∈ f.operators, l.From Q (depth - 2)
  sink : ∀ p ∈ f.sink, p.From (Q (depth - 1 - 2))
  monitor : ∀ p ∈ f.monitor, p.From (Q (depth - 1 - 2))

theorem part_from_of_partOf? (hQ : Inherited Q) {part : Option Part} (hv : Q depth v)
    (h : partOf? v = some part) : ∀ p ∈ part, p.From (Q (depth - 2)) := by
  rintro p ⟨⟩
  have hne : v ≠ .null := by
    rintro rfl
    cases h
  rw [partOf?_of_ne_null hne] at h
  obtain ⟨p', hp, hsame⟩ := Option.map_eq_some_iff.mp h
  cases hsame
  exact Part.from_of_ofValue? hQ hv hp

theorem forall_mem_of_listOf? {α : Type} {f : Value → Option α} {P : α → Prop} {as : List α}
    (h : listOf? f v = some as) (hQ : Inherited Q) (hv : Q depth v)
    (hP : ∀ w a, Q (depth - 1) w → f w = some a → P a) : ∀ a ∈ as, P a := by
  cases v with
  | list items =>
      have hitems := hQ.list hv
      clear hv
      have h : items.mapM f = some as := h
      induction items generalizing as with
      | nil =>
          cases h
          exact fun _ h => (nomatch h)
      | cons w rest ih =>
          obtain ⟨hw, hrest⟩ := List.forall_mem_cons.mp hitems
          obtain ⟨a, ha, more, hmore, rfl⟩ : ∃ a, f w = some a ∧ ∃ more, rest.mapM f = some more ∧
              a :: more = as := by simpa [Option.bind_eq_some_iff] using h
          exact List.forall_mem_cons.mpr ⟨hP w a hw ha, ih hmore hrest hmore⟩
  | null | bool _ | number _ | text _ | object _ => cases h

/-- What every field of a structure keeps holds of the fields of a whole structure. -/
theorem RecordShape.keeps_of_ofValue? {σ α : Type} {shape : RecordShape σ} {meaning : Meaning σ}
    {blank : σ} {finish : σ → Option α} {P : σ → Prop} {a : α} (hQ : Inherited Q)
    (hmeaning : ∀ key s s' w, Q (depth - 1) w → P s → meaning key s w = some s' → P s')
    (hblank : P blank) (hv : Q depth v)
    (h : shape.ofValue? meaning blank finish finish v = some a) :
    ∃ done, P done ∧ finish done = some a := by
  cases v with
  | object fields =>
      obtain ⟨done, hfold, hfinish⟩ := Option.bind_eq_some_iff.mp h
      refine ⟨done, foldlM_keeps (fun f hf s s' hs htake => ?_) hblank hfold, hfinish⟩
      exact hmeaning f.1 s s' f.2 (hQ.object hv f hf) hs (RecordShape.take?_eq_some.mp htake).2.2
  | list items =>
      rw [RecordShape.ofValue?] at h
      split at h
      · obtain ⟨done, hfold, hfinish⟩ := Option.bind_eq_some_iff.mp h
        refine ⟨done, foldlM_keeps (fun f hf s s' hs htake => ?_) hblank hfold, hfinish⟩
        exact hmeaning f.1 s s' f.2 (hQ.list hv f.2 (List.of_mem_zip hf).2) hs htake
      · cases h
  | null | bool _ | number _ | text _ => cases h

/-- A field that is read keeps what the others are made of. -/
theorem FlowFields.from_meaning (hQ : Inherited Q) {key : String} {f f' : FlowFields}
    (hv : Q (depth - 1) v) (hf : f.flow.From Q depth) (h : FlowFields.meaning key f v = some f') :
    f'.flow.From Q depth := by
  unfold FlowFields.meaning at h
  split at h
  · obtain ⟨_, _, rfl⟩ := Option.map_eq_some_iff.mp h
    exact ⟨hf.source, hf.operators, hf.sink, hf.monitor⟩
  split at h
  · obtain ⟨part, hpart, rfl⟩ := Option.map_eq_some_iff.mp h
    exact ⟨part_from_of_partOf? hQ hv hpart, hf.operators, hf.sink, hf.monitor⟩
  split at h
  · obtain ⟨links, hlinks, rfl⟩ := Option.map_eq_some_iff.mp h
    refine ⟨hf.source, ?_, hf.sink, hf.monitor⟩
    exact forall_mem_of_listOf? hlinks hQ hv fun w l hw hl => Link.from_of_ofValue? hQ hw hl
  split at h
  · obtain ⟨part, hpart, rfl⟩ := Option.map_eq_some_iff.mp h
    exact ⟨hf.source, hf.operators, part_from_of_partOf? hQ hv hpart, hf.monitor⟩
  · obtain ⟨part, hpart, rfl⟩ := Option.map_eq_some_iff.mp h
    exact ⟨hf.source, hf.operators, hf.sink, part_from_of_partOf? hQ hv hpart⟩

theorem Flow.from_of_ofValue? (hQ : Inherited Q) {f : Flow} (hv : Q depth v)
    (h : Flow.ofValue? v = some f) : f.From Q depth := by
  have hblank : ({} : FlowFields).flow.From Q depth :=
    ⟨fun _ h => (nomatch h), fun _ h => (nomatch h), fun _ h => (nomatch h), fun _ h => (nomatch h)⟩
  obtain ⟨done, hdone, ⟨⟩⟩ := RecordShape.keeps_of_ofValue? hQ
    (fun key s s' w hw hs => FlowFields.from_meaning hQ hw hs) hblank hv h
  exact hdone

/-- A document whose flows and variables were read from values of some sort. -/
structure Document.From (Q : Nat → Value → Prop) (depth : Nat) (d : Document) : Prop where
  flows : ∀ f ∈ d.flows, f.From Q (depth - 2)
  globals : ∀ g ∈ d.globals, ∃ w, Q (depth - 2) w ∧ g.2 = w.tidy
  sorted : (Fields.keys d.globals).Pairwise (· < ·)

/-- The fields of a document that were read so far. -/
structure DocumentFields.From (Q : Nat → Value → Prop) (depth : Nat) (d : DocumentFields) :
    Prop where
  flows : ∀ flows ∈ d.flows, ∀ f ∈ flows, f.From Q (depth - 2)
  globals : ∀ g ∈ d.globals.getD [], ∃ w, Q (depth - 2) w ∧ g.2 = w.tidy
  sorted : (Fields.keys (d.globals.getD [])).Pairwise (· < ·)

theorem DocumentFields.from_meaning (hQ : Inherited Q) {key : String} {d d' : DocumentFields}
    (hv : Q (depth - 1) v) (hd : d.From Q depth) (h : DocumentFields.meaning key d v = some d') :
    d'.From Q depth := by
  unfold DocumentFields.meaning at h
  split at h
  · obtain ⟨flows, hflows, rfl⟩ := Option.map_eq_some_iff.mp h
    refine ⟨?_, hd.globals, hd.sorted⟩
    rintro _ ⟨⟩
    exact forall_mem_of_listOf? hflows hQ hv fun w f hw hf => Flow.from_of_ofValue? hQ hw hf
  · obtain ⟨globals, hglobals, rfl⟩ := Option.map_eq_some_iff.mp h
    cases v with
    | object fields =>
        cases hglobals
        refine ⟨hd.flows, fun g hg => ?_, Fields.sorted_ofList _⟩
        obtain ⟨f, hf, rfl⟩ := List.mem_map.mp (Fields.mem_ofList hg)
        exact ⟨f.2, hQ.object hv f hf, rfl⟩
    | null | bool _ | number _ | text _ | list _ => cases hglobals

theorem Document.from_of_ofValue? (hQ : Inherited Q) {d : Document} (hv : Q depth v)
    (h : Document.ofValue? v = some d) : d.From Q depth := by
  have hblank : ({} : DocumentFields).From Q depth :=
    ⟨fun _ h => (nomatch h), fun _ h => (nomatch h), .nil⟩
  obtain ⟨done, hdone, hfinish⟩ := RecordShape.keeps_of_ofValue? hQ
    (fun key s s' w hw hs => DocumentFields.from_meaning hQ hw hs) hblank hv h
  obtain ⟨flows, hflows, rfl⟩ := Option.map_eq_some_iff.mp hfinish
  exact ⟨hdone.flows flows hflows, hdone.globals, hdone.sorted⟩

/-! Documents as they are read back. -/

/-- A component as it is read back. -/
def Part.revised (p : Part) : Part :=
  { p with args := p.args.map Param.revised, params := p.params.map fun f => (f.1, f.2.revised) }

/-- A link as it is read back. -/
def Link.revised : Link → Link
  | .tee sink => .tee sink.revised
  | .operator part => .operator part.revised

/-- A flow as it is read back. -/
def Flow.revised (f : Flow) : Flow :=
  { f with
    source := f.source.map Part.revised
    operators := f.operators.map Link.revised
    sink := f.sink.map Part.revised
    monitor := f.monitor.map Part.revised }

/-- A document as it is read back. -/
def Document.revised (d : Document) : Document := { d with flows := d.flows.map Flow.revised }

/-- A list, if it has items. -/
def filled? {α : Type} (as : List α) : Option (List α) := if as.isEmpty then none else some as

theorem eq_of_mem_filled? {α : Type} {as bs : List α} (h : bs ∈ filled? as) : bs = as := by
  cases as with
  | nil => cases h
  | cons a rest => exact (Option.some.inj h).symm

theorem getD_filled? {α β : Type} (g : α → β) (as : List α) :
    ((filled? as).map (List.map g)).getD [] = as.map g := by
  cases as <;> rfl

theorem listed?_map {α : Type} (w : α → Value) (as : List α) :
    listed? (as.map w) = (filled? as).map fun as => .list (as.map w) := by
  cases as <;> rfl

theorem fielded?_map {α : Type} (w : α → String × Value) (as : List α) :
    fielded? (as.map w) = (filled? as).map fun as => .object (as.map w) := by
  cases as <;> rfl

/-- Reading passes over a field that is not given and takes one that is; `set` puts it in its
place. -/
theorem foldlM_stated {σ β γ : Type} {step : σ → String × Value → Option σ} {key : String}
    {given : Option β} {w : β → Value} {rest : List (String × Option Value)} {s : σ}
    (set : Option γ → σ) (g : β → γ) (hs : set none = s)
    (hstep : ∀ b ∈ given, step s (key, w b) = some (set (some (g b)))) :
    (stated ((key, given.map w) :: rest)).foldlM step s =
      (stated rest).foldlM step (set (given.map g)) := by
  cases given with
  | none =>
      subst hs
      rfl
  | some b =>
      change ((key, w b) :: stated rest).foldlM step s = _
      rw [List.foldlM_cons, hstep b rfl]
      rfl

section Written

variable {P : Value → Prop} {p : Part}

theorem Part.From.argsOf?_written (h : p.From P) :
    argsOf? (.list (p.args.map Param.toValue)) = some (p.args.map Param.revised) := by
  rw [argsOf?, List.map_map]
  exact congrArg some (List.map_congr_left fun a ha => (h.args a ha).ofValue_toValue)

theorem Part.From.paramsOf?_written (h : p.From P) :
    paramsOf? (.object (p.params.map fun f => (f.1, f.2.toValue))) =
      some (p.params.map fun f => (f.1, f.2.revised)) := by
  have hrevised : (p.params.map fun f => (f.1, f.2.toValue)).map
      (fun f => (f.1, Param.ofValue f.2)) = p.params.map fun f => (f.1, f.2.revised) := by
    rw [List.map_map]
    exact List.map_congr_left fun f hf => congrArg (f.1, ·) (h.params f hf).ofValue_toValue
  have hsorted : (Fields.keys (p.params.map fun f => (f.1, f.2.revised))).Pairwise (· < ·) := by
    rw [Fields.keys, List.map_map]
    exact h.sorted
  rw [paramsOf?, hrevised, Fields.ofList_of_sorted hsorted]

/-- A component is read back from its fields. -/
theorem Part.From.ofValue?_written (h : p.From P) : Part.ofValue? p.written = some p.revised := by
  have hfold : (stated p.fields).foldlM (fun (done : Partial) f => done.take? f.1 f.2) {} =
      some ⟨some p.kind, p.name.map some, (filled? p.args).map (List.map Param.revised),
        (filled? p.params).map (List.map fun f => (f.1, f.2.revised))⟩ := by
    rw [Part.fields, listed?_map, fielded?_map]
    refine (@foldlM_stated _ _ _ _ _ (some p.kind) .text _ _
      (fun kind => (⟨kind, none, none, none⟩ : Partial)) id rfl fun _ _ => rfl).trans ?_
    refine (foldlM_stated (fun name => (⟨some p.kind, name, none, none⟩ : Partial)) some rfl
      fun _ _ => rfl).trans ?_
    refine (foldlM_stated (fun args => (⟨some p.kind, p.name.map some, args, none⟩ : Partial))
      (List.map Param.revised) rfl fun args hargs => ?_).trans ?_
    · obtain rfl := eq_of_mem_filled? hargs
      simp [Partial.take?, h.argsOf?_written]
    refine foldlM_stated (fun params => (⟨some p.kind, p.name.map some,
      (filled? p.args).map (List.map Param.revised), params⟩ : Partial))
      (List.map fun f : String × Param => (f.1, f.2.revised)) rfl fun params hparams => ?_
    obtain rfl := eq_of_mem_filled? hparams
    simp only [Partial.take?, h.paramsOf?_written]
    rfl
  rw [Part.written, Part.ofValue?, hfold, Option.bind_some, Partial.part?, Part.revised]
  simp only [Option.map_some, getD_filled?]
  cases p.name <;> rfl

theorem partOf?_written (h : p.From P) : partOf? p.written = some (some p.revised) := by
  have hne : p.written ≠ .null := by simp [Part.written]
  rw [partOf?_of_ne_null hne, h.ofValue?_written]
  rfl

end Written

/-- A written component has a kind, so it is not taken for a tee. -/
theorem only?_written (p : Part) : only? "to" p.written = none := by
  refine Option.eq_none_iff_forall_ne_some.mpr fun w hw => ?_
  obtain h | h := only?_eq_some.mp hw
  · have hfields : ("kind", .text p.kind) :: _ = [("to", w)] := Value.object.inj h
    exact absurd (Prod.mk.inj (List.cons.inj hfields).1).1 (by decide)
  · cases h

theorem Link.From.ofValue?_written {l : Link} (h : l.From Q depth) :
    Link.ofValue? l.written = some l.revised := by
  cases l with
  | tee sink =>
      have hsink : Part.ofValue? sink.written = some sink.revised := Part.From.ofValue?_written h
      rw [Link.ofValue?, Link.written, only?_eq_some.mpr (.inl rfl), Option.bind_some, hsink]
      rfl
  | operator part =>
      have hpart : Part.ofValue? part.written = some part.revised := Part.From.ofValue?_written h
      rw [Link.ofValue?, Link.written, only?_written, Option.bind_none, hpart]
      rfl

theorem mapM_written {α : Type} {f : Value → Option α} {written : α → Value} {revised : α → α}
    {as : List α} (h : ∀ a ∈ as, f (written a) = some (revised a)) :
    (as.map written).mapM f = some (as.map revised) := by
  induction as with
  | nil => rfl
  | cons a rest ih =>
      obtain ⟨ha, hrest⟩ := List.forall_mem_cons.mp h
      simp [ha, ih hrest]

/-- What is read of a component that may be given. -/
def seen (p : Option Part) : Option (Option Part) := p.map fun q => some q.revised

theorem Flow.From.ofValue?_written {f : Flow} (h : f.From Q depth) :
    Flow.ofValue? f.written = some f.revised := by
  have hpart {p : Option Part} (hp : ∀ q ∈ p, q.From (Q (depth - 1 - 2))) :
      ∀ q ∈ p, partOf? q.written = some (some q.revised) := fun q hq => partOf?_written (hp q hq)
  have hlinks : listOf? Link.ofValue? (.list (f.operators.map Link.written)) =
      some (f.operators.map Link.revised) :=
    mapM_written fun l hl => (h.operators l hl).ofValue?_written
  have hfold : (stated (f.fields Part.written Link.written)).foldlM
      (flowShape.take? FlowFields.meaning) {} =
      some ⟨f.name.map some, seen f.source, (filled? f.operators).map (List.map Link.revised),
        seen f.sink, seen f.monitor⟩ := by
    rw [Flow.fields, listed?_map]
    refine (foldlM_stated (fun name => (⟨name, none, none, none, none⟩ : FlowFields)) some rfl
      fun _ _ => rfl).trans ?_
    refine (foldlM_stated (fun source => (⟨f.name.map some, source, none, none, none⟩ : FlowFields))
      (fun p => some (Part.revised p)) rfl fun p hp => ?_).trans ?_
    · exact congrArg (Option.map _) (hpart h.source p hp)
    refine (foldlM_stated (fun links => (⟨f.name.map some, seen f.source, links, none, none⟩ :
      FlowFields)) (List.map Link.revised) rfl fun links hlinks' => ?_).trans ?_
    · obtain rfl := eq_of_mem_filled? hlinks'
      exact congrArg (Option.map _) hlinks
    refine (foldlM_stated (fun sink => (⟨f.name.map some, seen f.source,
      (filled? f.operators).map (List.map Link.revised), sink, none⟩ : FlowFields))
      (fun p => some (Part.revised p)) rfl fun p hp => ?_).trans ?_
    · exact congrArg (Option.map _) (hpart h.sink p hp)
    refine foldlM_stated (fun monitor => (⟨f.name.map some, seen f.source,
      (filled? f.operators).map (List.map Link.revised), seen f.sink, monitor⟩ : FlowFields)) (fun p => some (Part.revised p)) rfl fun p hp => ?_
    exact congrArg (Option.map _) (hpart h.monitor p hp)
  have hname : (f.name.map some).getD none = f.name := by cases f.name <;> rfl
  have hrevised (p : Option Part) : (seen p).getD none = p.map Part.revised := by
    cases p <;> rfl
  rw [Flow.written, Flow.ofValue?, RecordShape.ofValue?, hfold, Option.bind_some, FlowFields.flow,
    Flow.revised]
  simp only [getD_filled?, hname, hrevised]

theorem globalsOf?_written {d : Document} (h : d.From Q depth) :
    globalsOf? (.object d.globals) = some d.globals := by
  have htidy : d.globals.map (fun g => (g.1, g.2.tidy)) = d.globals := by
    refine (List.map_congr_left fun g hg => ?_).trans (List.map_id _)
    obtain ⟨w, _, hw⟩ := h.globals g hg
    change (g.1, g.2.tidy) = (g.1, g.2)
    rw [hw, Value.tidy_tidy]
  rw [globalsOf?, htidy, Fields.ofList_of_sorted h.sorted]

theorem fielded?_eq (fields : List (String × Value)) :
    fielded? fields = (filled? fields).map .object := by
  cases fields <;> rfl

theorem Document.From.ofValue?_written {d : Document} (h : d.From Q depth) :
    Document.ofValue? d.written = some d.revised := by
  have hflows : listOf? Flow.ofValue? (.list (d.flows.map Flow.written)) =
      some (d.flows.map Flow.revised) :=
    mapM_written fun f hf => (h.flows f hf).ofValue?_written
  have hfold : (stated (d.fields Flow.written)).foldlM
      (documentShape.take? DocumentFields.meaning) {} =
      some ⟨some (d.flows.map Flow.revised), (filled? d.globals).map id⟩ := by
    rw [Document.fields, fielded?_eq]
    refine (@foldlM_stated _ _ _ _ _ (some d.flows) (fun flows => .list (flows.map Flow.written)) _ _
      (fun flows => (⟨flows, none⟩ : DocumentFields)) (List.map Flow.revised) rfl
      fun flows hflows' => ?_).trans ?_
    · cases hflows'
      exact congrArg (Option.map _) hflows
    refine foldlM_stated (fun globals => (⟨some (d.flows.map Flow.revised), globals⟩ :
      DocumentFields)) id rfl fun globals hglobals => ?_
    obtain rfl := eq_of_mem_filled? hglobals
    exact congrArg (Option.map fun globals => (⟨some (d.flows.map Flow.revised), some globals⟩ :
      DocumentFields)) (globalsOf?_written h)
  rw [Document.written, Document.ofValue?, RecordShape.ofValue?, hfold, Option.bind_some,
    DocumentFields.document?, Document.revised]
  cases d.globals <;> rfl

/-! How deep written documents nest. -/

/-- An object nests one deeper than the fields that are given. -/
theorem fits_stated {fields : List (String × Option Value)} (hdepth : 1 < depth)
    (h : ∀ f ∈ fields, ∀ v ∈ f.2, v.Fits good (depth - 1)) :
    (Value.object (stated fields)).Fits good depth := by
  refine Value.fits_object.mpr ⟨hdepth, fun f hf => ?_⟩
  obtain ⟨⟨key, given⟩, hmem, hgiven⟩ := List.mem_filterMap.mp hf
  obtain ⟨v, hv, rfl⟩ := Option.map_eq_some_iff.mp hgiven
  exact h _ hmem v hv

theorem fits_listed? {items : List Value} (hdepth : 1 < depth)
    (h : ∀ v ∈ items, v.Fits good (depth - 1)) : ∀ v ∈ listed? items, v.Fits good depth := by
  intro v hv
  cases items with
  | nil => cases hv
  | cons item rest =>
      cases hv
      exact Value.fits_list.mpr ⟨hdepth, h⟩

theorem fits_fielded? {fields : List (String × Value)} (hdepth : 1 < depth)
    (h : ∀ f ∈ fields, f.2.Fits good (depth - 1)) : ∀ v ∈ fielded? fields, v.Fits good depth := by
  intro v hv
  cases fields with
  | nil => cases hv
  | cons field rest =>
      cases hv
      exact Value.fits_object.mpr ⟨hdepth, h⟩

theorem fits_optional {α : Type} {a : Option α} {w : α → Value}
    (h : ∀ b ∈ a, (w b).Fits good depth) :
    ∀ v ∈ a.map w, v.Fits good depth := by
  intro v hv
  obtain ⟨b, hb, rfl⟩ := Option.map_eq_some_iff.mp hv
  exact h b hb

theorem Part.From.fits_written {p : Part} (h : p.From fun v => v.Fits good (depth - 2))
    (hdepth : 3 < depth) : p.written.Fits good depth := by
  have hparam {q : Param} (hq : q.From fun v => v.Fits good (depth - 2)) :
      q.toValue.Fits good (depth - 1 - 1) := by
    obtain ⟨v, hv, rfl⟩ := hq
    exact Param.fits_toValue hv (by omega)
  refine fits_stated (by omega) ?_
  simp only [Part.fields, List.forall_mem_cons]
  refine ⟨?_, ?_, ?_, ?_, fun _ h => (nomatch h)⟩
  · rintro _ ⟨⟩
    exact Value.fits_text _
  · exact fits_optional fun _ _ => Value.fits_text _
  · refine fits_listed? (by omega) fun v hv => ?_
    obtain ⟨a, ha, rfl⟩ := List.mem_map.mp hv
    exact hparam (h.args a ha)
  · refine fits_fielded? (by omega) fun f hf => ?_
    obtain ⟨a, ha, rfl⟩ := List.mem_map.mp hf
    exact hparam (h.params a ha)

theorem Link.From.fits_written {l : Link} (h : l.From (fun depth v => v.Fits good depth) depth)
    (hdepth : 4 < depth) : l.written.Fits good depth := by
  cases l with
  | tee sink =>
      refine Value.fits_object.mpr ⟨by omega, fun f hf => ?_⟩
      rw [List.mem_singleton.mp hf]
      exact Part.From.fits_written h (by omega)
  | operator part => exact Part.From.fits_written h (by omega)

theorem Flow.From.fits_written {f : Flow} (h : f.From (fun depth v => v.Fits good depth) depth)
    (hdepth : 6 < depth) : f.written.Fits good depth := by
  refine fits_stated (by omega) ?_
  simp only [Flow.fields, List.forall_mem_cons]
  refine ⟨?_, ?_, ?_, ?_, ?_, fun _ h => (nomatch h)⟩
  · exact fits_optional fun _ _ => Value.fits_text _
  · exact fits_optional fun p hp => (h.source p hp).fits_written (by omega)
  · refine fits_listed? (by omega) fun v hv => ?_
    obtain ⟨l, hl, rfl⟩ := List.mem_map.mp hv
    exact (h.operators l hl).fits_written (by omega)
  · exact fits_optional fun p hp => (h.sink p hp).fits_written (by omega)
  · exact fits_optional fun p hp => (h.monitor p hp).fits_written (by omega)

theorem Document.From.fits_written {d : Document}
    (h : d.From (fun depth v => v.Fits good depth) depth) (hdepth : 8 < depth) :
    d.written.Fits good depth := by
  refine fits_stated (by omega) ?_
  simp only [Document.fields, List.forall_mem_cons]
  refine ⟨?_, ?_, fun _ h => (nomatch h)⟩
  · rintro _ ⟨⟩
    refine Value.fits_list.mpr ⟨by omega, fun v hv => ?_⟩
    obtain ⟨f, hf, rfl⟩ := List.mem_map.mp hv
    exact (h.flows f hf).fits_written (by omega)
  · refine fits_fielded? (by omega) fun g hg => ?_
    obtain ⟨v, hv, htidy⟩ := h.globals g hg
    rw [htidy]
    exact Value.fits_tidy v hv

/-! Documents that are read back as they were. -/

/-- The component of a link. -/
def Link.component : Link → Part
  | .tee sink => sink
  | .operator part => part

/-- All parameters of a component. -/
def Part.parameters (p : Part) : List Param := p.args ++ p.params.map Prod.snd

/-- All parameters of all components. -/
def Document.parameters (d : Document) : List Param :=
  (d.flows.flatMap Flow.components).flatMap Part.parameters

theorem Flow.mem_components {f : Flow} {c : Part} : c ∈ f.components ↔
    c ∈ f.source ∨ c ∈ f.operators.map Link.component ∨ c ∈ f.sink ∨ c ∈ f.monitor := by
  have hlinked : f.components =
      f.source.toList ++ f.operators.map Link.component ++ f.sink.toList ++ f.monitor.toList :=
    congrArg (f.source.toList ++ · ++ f.sink.toList ++ f.monitor.toList)
      (List.map_congr_left fun l _ => by cases l <;> rfl)
  simp only [hlinked, List.mem_append, Option.mem_toList, or_assoc, Option.mem_def]

theorem Document.mem_parameters {d : Document} {q : Param} : q ∈ d.parameters ↔
    ∃ f ∈ d.flows, ∃ c ∈ f.components, q ∈ c.parameters := by
  simp only [Document.parameters, List.mem_flatMap]
  constructor
  · rintro ⟨c, ⟨f, hf, hc⟩, hq⟩
    exact ⟨f, hf, c, hc, hq⟩
  · rintro ⟨f, hf, c, hc, hq⟩
    exact ⟨c, ⟨f, hf, hc⟩, hq⟩

theorem map_eq_self {α : Type} {f : α → α} {as : List α} : as.map f = as ↔ ∀ a ∈ as, f a = a := by
  induction as with
  | nil => simp
  | cons a rest ih => simp [ih]

theorem optionMap_eq_self {α : Type} {f : α → α} {a : Option α} :
    a.map f = a ↔ ∀ b ∈ a, f b = b := by
  cases a <;> simp

theorem Part.revised_eq_self {p : Part} : p.revised = p ↔ ∀ q ∈ p.parameters, q.revised = q := by
  obtain ⟨kind, name, args, params⟩ := p
  simp only [Part.revised, Part.parameters, Part.mk.injEq, true_and, map_eq_self, List.mem_append,
    List.forall_mem_map, or_imp, forall_and]
  exact and_congr_right fun _ => forall₂_congr fun f _ => by simp [Prod.ext_iff]

theorem Link.revised_eq_self {l : Link} : l.revised = l ↔ l.component.revised = l.component := by
  cases l <;> simp [Link.revised, Link.component]

theorem Flow.revised_eq_self {f : Flow} : f.revised = f ↔ ∀ c ∈ f.components, c.revised = c := by
  obtain ⟨name, source, operators, sink, monitor⟩ := f
  simp only [Flow.revised, Flow.mk.injEq, true_and, map_eq_self, optionMap_eq_self,
    Flow.mem_components, or_imp, forall_and, List.forall_mem_map, Link.revised_eq_self]

theorem Document.revised_eq_self {d : Document} : d.revised = d ↔
    ∀ q ∈ d.parameters, q.revised = q := by
  have hflows : d.revised = d ↔ ∀ f ∈ d.flows, f.revised = f := by
    obtain ⟨flows, globals⟩ := d
    simp only [Document.revised, Document.mk.injEq, and_true, map_eq_self]
  simp only [hflows, Flow.revised_eq_self, Part.revised_eq_self, Document.mem_parameters]
  constructor
  · rintro h q ⟨f, hf, c, hc, hq⟩
    exact h f hf c hc q hq
  · exact fun h f hf c hc q hq => h q ⟨f, hf, c, hc, hq⟩

/-- What all values of a document are, those are from which its parameters were read. -/
theorem Document.From.parameter {d : Document} {P : Value → Prop} (h : d.From (fun _ => P) depth) :
    ∀ q ∈ d.parameters, q.From P := by
  intro q hq
  obtain ⟨f, hf, c, hc, hq⟩ := Document.mem_parameters.mp hq
  have hflow := h.flows f hf
  have hpart : c.From P := by
    obtain hc | hc | hc | hc := Flow.mem_components.mp hc
    · exact hflow.source c hc
    · obtain ⟨l, hl, rfl⟩ := List.mem_map.mp hc
      have hlink := hflow.operators l hl
      cases l with
      | tee sink => exact hlink
      | operator part => exact hlink
    · exact hflow.sink c hc
    · exact hflow.monitor c hc
  obtain hq | hq := List.mem_append.mp hq
  · exact hpart.args q hq
  · obtain ⟨g, hg, rfl⟩ := List.mem_map.mp hq
    exact hpart.params g hg

/-- A document that was read from a text, written and read again is the document as revised. It is
the same document exactly if no parameter is a literal that looks like a reference, and so it is if
no object of the text repeats a key. -/
theorem parse_text {s : String} {d : Document} (h : parse s = .ok d)
    (hfloats : ∀ x, .float x ∈ d.written.numbers → (Number.float x).Survives) :
    parse d.text = .ok d.revised ∧ (parse d.text = .ok d ↔ ∀ p ∈ d.parameters, ¬p.Disguised) ∧
      ∀ v, Json.parseRaw s = .ok v → v.Distinct → parse d.text = .ok d := by
  obtain ⟨v, hraw, hvalue⟩ := parse_eq_ok.mp h
  have hfrom := Document.from_of_ofValue? inherited_fits (Json.fits_of_parseRaw hraw) hvalue
  obtain ⟨hnests, hnumbers⟩ := hfrom.fits_written (by decide)
  have hfits : d.written.Fits Number.Survives Json.depthLimit := by
    refine ⟨hnests, fun n hn => ?_⟩
    cases n with
    | int n => exact Json.survives_int (hnumbers _ hn)
    | float x => exact hfloats x hn
  have hread : parse d.text = .ok d.revised :=
    parse_eq_ok.mpr ⟨d.written, Json.parseRaw_compact hfits, hfrom.ofValue?_written⟩
  have hsame : parse d.text = .ok d ↔ ∀ p ∈ d.parameters, ¬p.Disguised := by
    rw [hread, Except.ok.injEq, Document.revised_eq_self]
    exact forall₂_congr fun p _ => Param.revised_eq_self
  refine ⟨hread, hsame, fun w hw hkeys => hsame.mpr fun p hp => ?_⟩
  obtain rfl : v = w := Except.ok.inj (hraw.symm.trans hw)
  have hdistinct : d.From (fun _ v => v.Distinct) Json.depthLimit :=
    Document.from_of_ofValue? inherited_distinct hkeys hvalue
  obtain ⟨u, hu, rfl⟩ := hdistinct.parameter p hp
  exact Param.revised_eq_self.mp (Param.revised_of_distinct hu)

/-- What is computed of a result shows that there is one. -/
theorem exists_ok_of_toOption {ε α β : Type} {r : Except ε α} {f : α → β} {b : β} {P : α → Prop}
    (h : r.toOption.map f = some b) (hP : ∀ a, r = .ok a → f a = b → P a) :
    ∃ a, r = .ok a ∧ P a := by
  cases r with
  | error e => cases h
  | ok a => exact ⟨a, rfl, hP a rfl (Option.some.inj h)⟩

deriving instance DecidableEq for Number

/-- A document of lists for structures, with the short form of a component, a tee, a reference, a
variable and a float, is read back. -/
theorem shorthands_read_back : ∃ d, parse ("[[[\"a\",\"once\",[[\"log\"]," ++
      "[\"map\",null,[\x7b\"flow\":\"b\"\x7d,[\"k\"],1.5,\x7b\"x\":-7\x7d]]]],[]]]") = .ok d ∧
    d.written.numbers = [.float 1.5, .int (-7)] ∧ parse d.text = .ok d.revised := by
  refine exists_ok_of_toOption (f := fun d => d.written.numbers) (by decide +kernel)
    fun d hd hnumbers => ⟨hnumbers, (parse_text hd fun x hx => ?_).1⟩
  rw [hnumbers] at hx
  obtain rfl : x = 1.5 := by simpa using hx
  have htext : (Number.float 1.5).text = "1.5" := by decide +kernel
  rw [Number.Survives, htext]
  rfl

/-- An object that repeats the key of a reference is read as a literal; written and read again, it
has become a reference. -/
theorem repeated_key_not_read_back : ∃ d,
    parse "[[[null,null,[[\"map\",null,[\x7b\"flow\":\"a\",\"flow\":\"b\"\x7d]]]]]]" = .ok d ∧
      parse d.text ≠ .ok d := by
  refine exists_ok_of_toOption (f := fun d => (d.flows.map Flow.calledFlows,
    (parse d.text).toOption.map (·.flows.map Flow.calledFlows))) (b := ([[]], some [["b"]]))
    (by decide +kernel) fun d hd hcalls hsame => ?_
  obtain ⟨hnone, hcalled⟩ := Prod.mk.inj hcalls
  rw [hsame] at hcalled
  have hcalled : d.flows.map Flow.calledFlows = [["b"]] := Option.some.inj hcalled
  rw [hnone] at hcalled
  exact absurd hcalled (by decide)

end Blueprint
end PullFlow
