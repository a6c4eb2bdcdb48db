import PullFlow.Catalog
import PullFlow.Proofs.Fields

/-!
What the catalog makes of the parts of a document: which kinds call flows, feed them, read what
feeds them and make a flow callable. All other components know no flow.
-/

namespace PullFlow

theorem Shelf.get?_register {F : Type} (a : Shelf F) (name : String) (f : F) (key : String) :
    (a.register name f).get? key = if key = name then some f else a.get? key :=
  Fields.get?_put key name f a.elements

/-- A source that reads no other flow and notes nothing. -/
def SourceBody.solitary : SourceBody → Bool
  | inflow .. | recorder _ => false
  | _ => true

/-- A sink that feeds no flow, has claimed no variable and notes nothing. -/
def SinkBody.solitary : SinkBody → Bool
  | flow .. | recorder _ => false
  | var _ claimed _ => !claimed
  | _ => true

/-- An operator that calls no flow and whose sink, if it is a tee, feeds none. -/
def OperatorBody.solitary : OperatorBody → Bool
  | tee sink => sink.body.solitary
  | call .. | recorder _ => false
  | _ => true

/-- An operator that calls no flow and whose sink, if it is a tee, feeds none and is new. -/
def OperatorBody.lone (b : OperatorBody) : Bool :=
  b.solitary && b.tee?.all fun sink => decide (sink.stage = .created)

theorem OperatorBody.lone_iff {b : OperatorBody} : b.lone = true ↔
    b.solitary = true ∧ ∀ sink, b.tee? = some sink → sink.stage = .created := by
  rw [lone, Bool.and_eq_true]
  cases b.tee? <;> simp

/-- A monitor that does not make its flow callable and notes nothing. -/
def MonitorBody.solitary : MonitorBody → Bool
  | onCall | recorder _ => false
  | _ => true

namespace Registry

variable {F : Type}

/-- A name is that of an element of the registry itself, or one finds it in a package. -/
theorem find?_cases {r : Registry} {shelf : Package → Shelf F} {name : String} {f : F}
    (h : r.find? shelf name = some f) :
    (cut name = none ∧ (shelf r.builtin).get? name = some f) ∨
      (cut name = none → (shelf r.builtin).get? name = none) ∧
        ∃ p ∈ r.packages.map (·.2), ∃ key, (shelf p).get? key = some f := by
  unfold find? at h
  split at h
  · next package element hcut =>
    refine .inr ⟨fun hnone => ?_, ?_⟩
    · rw [hcut] at hnone
      cases hnone
    · obtain ⟨p, hp, hf⟩ := Option.bind_eq_some_iff.mp h
      exact ⟨p, List.mem_map_of_mem (Fields.mem_of_get? hp), element, hf⟩
  · next hcut =>
    split at h
    · next hf =>
      cases h
      exact .inl ⟨hcut, hf⟩
    · next hnone =>
      obtain ⟨p, hp, hf⟩ := Option.bind_eq_some_iff.mp h
      obtain ⟨key, hkey, hf⟩ := Option.bind_eq_some_iff.mp hf
      exact .inr ⟨fun _ => hnone, p, List.mem_map_of_mem (Fields.mem_of_get? hp), key, hf⟩

theorem build_eq_ok {β : Type} {r : Registry} {role : Role} {shelf : Package → Shelf (Factory β)}
    {part : Blueprint.Part} {c : Component β} (h : r.build role shelf part = .ok c) :
    ∃ f body, r.find? shelf part.kind = some f ∧ f (Arguments.ofPart part) = .ok body ∧
      c = .make part.kind body (Arguments.ofPart part) part.name := by
  unfold build at h
  split at h
  · cases h
  · next f hf =>
    cases hbody : f (Arguments.ofPart part) with
    | error e =>
        simp only [hbody] at h
        cases h
    | ok body =>
        simp only [hbody] at h
        cases h
        exact ⟨f, body, hf, hbody, rfl⟩

end Registry

namespace Catalog

variable {β : Type}

/-- An element that needs no arguments is made the same from all. -/
theorem get?_shelf {elements : List (String × β)} {default : Option String} {name : String}
    {f : Factory β} (h : (shelf elements default).get? name = some f) :
    ∃ body, (name, body) ∈ elements ∧ f = fun _ => .ok body := by
  change (elements.foldl _ Shelf.empty).get? name = some f at h
  induction elements using List.reverseRecOn with
  | nil => cases h
  | append_singleton elements element ih =>
      rw [List.foldl_append, List.foldl_cons, List.foldl_nil, Shelf.get?_register] at h
      split at h
      · next hname =>
        cases h
        exact ⟨element.2, by simp [hname], rfl⟩
      · obtain ⟨body, hmem, hf⟩ := ih h
        exact ⟨body, List.mem_append_left _ hmem, hf⟩

theorem packages_registry : registry.packages.map (·.2) =
    [boolPackage, filePackage, fmtPackage, lstPackage, timePackage, varPackage] := by
  rfl

theorem all_shelf {elements : List (String × β)} {default : Option String} {P : β → Bool}
    (hall : elements.all (fun element => P element.2) = true) {name : String} {f : Factory β}
    (h : (shelf elements default).get? name = some f) :
    ∃ body, f = (fun _ => .ok body) ∧ P body = true := by
  obtain ⟨body, hmem, hf⟩ := get?_shelf h
  exact ⟨body, hf, List.all_eq_true.mp hall (name, body) hmem⟩

section Packages

theorem source_of_package {f : Factory SourceBody}
    (h : ∃ p ∈ registry.packages.map (·.2), ∃ key, p.sources.get? key = some f) :
    ∃ body, f = (fun _ => .ok body) ∧ SourceBody.solitary body = true := by
  rw [packages_registry] at h
  obtain ⟨p, hp, key, hf⟩ := h
  simp only [List.mem_cons, List.not_mem_nil, or_false] at hp
  rcases hp with rfl | rfl | rfl | rfl | rfl | rfl
  · exact all_shelf rfl hf
  · exact all_shelf rfl hf
  · cases hf
  · cases hf
  · exact all_shelf rfl hf
  · exact all_shelf rfl hf

/-- The operator of a package is made without arguments, or is the tee that sets a variable. -/
theorem operator_of_package {f : Factory OperatorBody}
    (h : ∃ p ∈ registry.packages.map (·.2), ∃ key, p.operators.get? key = some f)
    (arguments : Arguments) :
    ∃ body, f arguments = .ok body ∧ OperatorBody.lone body = true := by
  rw [packages_registry] at h
  obtain ⟨p, hp, key, hf⟩ := h
  have hshelf {elements : List (String × OperatorBody)} {default : Option String}
      (hall : elements.all (fun element => element.2.lone) = true)
      (hf : (shelf elements default).get? key = some f) :
      ∃ body, f arguments = .ok body ∧ OperatorBody.lone body = true := by
    obtain ⟨body, rfl, hbody⟩ := all_shelf hall hf
    exact ⟨body, rfl, hbody⟩
  simp only [List.mem_cons, List.not_mem_nil, or_false] at hp
  rcases hp with rfl | rfl | rfl | rfl | rfl | rfl
  · exact hshelf rfl hf
  · cases hf
  · exact hshelf rfl hf
  · exact hshelf rfl hf
  · cases hf
  · change (Shelf.empty.register _ _).get? key = some f at hf
    rw [Shelf.get?_register] at hf
    split at hf
    · cases hf
      exact ⟨_, rfl, rfl⟩
    · cases hf

theorem sink_of_package {f : Factory SinkBody}
    (h : ∃ p ∈ registry.packages.map (·.2), ∃ key, p.sinks.get? key = some f) :
    ∃ body, f = (fun _ => .ok body) ∧ SinkBody.solitary body = true := by
  rw [packages_registry] at h
  obtain ⟨p, hp, key, hf⟩ := h
  simp only [List.mem_cons, List.not_mem_nil, or_false] at hp
  rcases hp with rfl | rfl | rfl | rfl | rfl | rfl
  · cases hf
  · exact all_shelf rfl hf
  · cases hf
  · cases hf
  · cases hf
  · exact all_shelf rfl hf

theorem no_monitor_of_package {f : Factory MonitorBody} :
    ¬ ∃ p ∈ registry.packages.map (·.2), ∃ key, p.monitors.get? key = some f := by
  rw [packages_registry]
  rintro ⟨p, hp, key, hf⟩
  simp only [List.mem_cons, List.not_mem_nil, or_false] at hp
  rcases hp with rfl | rfl | rfl | rfl | rfl | rfl <;> cases hf

end Packages

/-- What a kind of source is made of. -/
theorem source_cases {kind : String} {f : Factory SourceBody}
    (h : registry.find? Package.sources kind = some f) :
    ∃ body, f = (fun _ => .ok body) ∧
      (body.solitary = true ∨ kind = "inflow" ∧ body = .inflow false []) := by
  obtain ⟨_, hf⟩ | ⟨_, hf⟩ := Registry.find?_cases h
  · obtain ⟨body, hmem, hf⟩ := get?_shelf hf
    refine ⟨body, hf, ?_⟩
    simp only [List.mem_cons, Prod.mk.injEq, List.not_mem_nil, or_false] at hmem
    rcases hmem with ⟨_, rfl⟩ | ⟨_, rfl⟩ | ⟨_, rfl⟩ | ⟨_, rfl⟩ | ⟨_, rfl⟩ | ⟨_, rfl⟩ | ⟨_, rfl⟩ |
      ⟨hkind, rfl⟩
    · exact .inl rfl
    · exact .inl rfl
    · exact .inl rfl
    · exact .inl rfl
    · exact .inl rfl
    · exact .inl rfl
    · exact .inl rfl
    · exact .inr ⟨hkind, rfl⟩
  · obtain ⟨body, hf, hbody⟩ := source_of_package hf
    exact ⟨body, hf, .inl hbody⟩

theorem cut_calling {kind : String} (h : kind ∈ Blueprint.callingKinds) :
    Registry.cut kind = none := by
  simp only [Blueprint.callingKinds, List.mem_cons, List.not_mem_nil, or_false] at h
  obtain rfl | rfl | rfl := h <;> decide +kernel

theorem get?_operators (kind : String) :
    (kind ∈ Blueprint.callingKinds ∧
      ∃ mode, registry.builtin.operators.get? kind = some (calling mode kind)) ∨
    kind ∉ Blueprint.callingKinds ∧ ∀ f, registry.builtin.operators.get? kind = some f →
      ∃ body, f = (fun _ => .ok body) ∧ OperatorBody.lone body = true := by
  have hregister : registry.builtin.operators.get? kind =
      ((((shelf _ : Shelf (Factory OperatorBody)).register Blueprint.flowKind
        (calling .whole Blueprint.flowKind)).register "map" (calling .each "map")).register
          "filter" (calling .keep "filter")).get? kind := rfl
  simp only [hregister, Shelf.get?_register, Blueprint.callingKinds, List.mem_cons,
    List.not_mem_nil, or_false, not_or]
  split
  · next hkind => exact .inl ⟨.inr (.inr hkind), .keep, by rw [hkind]⟩
  · next hfilter =>
    split
    · next hkind => exact .inl ⟨.inr (.inl hkind), .each, by rw [hkind]⟩
    · next hmap =>
      split
      · next hkind => exact .inl ⟨.inl hkind, .whole, by rw [hkind]⟩
      · next hflow => exact .inr ⟨⟨hflow, hmap, hfilter⟩, fun f hf => all_shelf rfl hf⟩

/-- The operators of the calling kinds call the flow that they name; no other operator calls. -/
theorem operator_cases {kind : String} {f : Factory OperatorBody}
    (h : registry.find? Package.operators kind = some f) :
    (kind ∈ Blueprint.callingKinds ∧ ∃ mode, f = calling mode kind) ∨
      kind ∉ Blueprint.callingKinds ∧
        ∀ arguments, ∃ body, f arguments = .ok body ∧ body.lone = true := by
  obtain ⟨hkind, mode, hcalling⟩ | ⟨hkind, hplain⟩ := get?_operators kind
  · obtain ⟨_, hf⟩ | ⟨hnone, _⟩ := Registry.find?_cases h
    · rw [hcalling] at hf
      cases hf
      exact .inl ⟨hkind, mode, rfl⟩
    · rw [hnone (cut_calling hkind)] at hcalling
      cases hcalling
  · refine .inr ⟨hkind, fun arguments => ?_⟩
    obtain ⟨_, hf⟩ | ⟨_, hf⟩ := Registry.find?_cases h
    · obtain ⟨body, rfl, hbody⟩ := hplain f hf
      exact ⟨body, rfl, hbody⟩
    · exact operator_of_package hf arguments

theorem get?_sinks (kind : String) :
    (kind = Blueprint.flowKind ∧ registry.builtin.sinks.get? kind = some feeding) ∨
    kind ≠ Blueprint.flowKind ∧ ∀ f, registry.builtin.sinks.get? kind = some f →
      ∃ body, f = (fun _ => .ok body) ∧ SinkBody.solitary body = true := by
  have hregister : registry.builtin.sinks.get? kind =
      ((shelf _ : Shelf (Factory SinkBody)).register Blueprint.flowKind feeding).get? kind := rfl
  simp only [hregister, Shelf.get?_register]
  split
  · next hkind => exact .inl ⟨hkind, rfl⟩
  · next hkind => exact .inr ⟨hkind, fun f hf => all_shelf rfl hf⟩

/-- The sink of the kind that feeds a flow feeds the flow that it names; no other sink does. -/
theorem sink_cases {kind : String} {f : Factory SinkBody}
    (h : registry.find? Package.sinks kind = some f) :
    (kind = Blueprint.flowKind ∧ f = feeding) ∨
      kind ≠ Blueprint.flowKind ∧ ∃ body, f = (fun _ => .ok body) ∧ body.solitary = true := by
  obtain ⟨hkind, hfeeding⟩ | ⟨hkind, hplain⟩ := get?_sinks kind
  · obtain ⟨_, hf⟩ | ⟨hnone, _⟩ := Registry.find?_cases h
    · rw [hfeeding] at hf
      cases hf
      exact .inl ⟨hkind, rfl⟩
    · rw [hnone (cut_calling (by simp [hkind, Blueprint.callingKinds]))] at hfeeding
      cases hfeeding
  · refine .inr ⟨hkind, ?_⟩
    obtain ⟨_, hf⟩ | ⟨_, hf⟩ := Registry.find?_cases h
    · exact hplain f hf
    · exact sink_of_package hf

/-- Only the monitors of kind `call` make their flows callable. -/
theorem monitor_cases {kind : String} {f : Factory MonitorBody}
    (h : registry.find? Package.monitors kind = some f) :
    ∃ body, f = (fun _ => .ok body) ∧
      (kind = "call" ∧ body = .onCall ∨ kind ≠ "call" ∧ body.solitary = true) := by
  obtain ⟨_, hf⟩ | ⟨_, hf⟩ := Registry.find?_cases h
  · obtain ⟨body, hmem, hf⟩ := get?_shelf hf
    refine ⟨body, hf, ?_⟩
    simp only [List.mem_cons, Prod.mk.injEq, List.not_mem_nil, or_false] at hmem
    rcases hmem with ⟨rfl, rfl⟩ | ⟨rfl, rfl⟩ | ⟨rfl, rfl⟩ | ⟨rfl, rfl⟩ | ⟨rfl, rfl⟩ | ⟨rfl, rfl⟩ |
      ⟨rfl, rfl⟩
    · exact .inr ⟨by decide, rfl⟩
    · exact .inr ⟨by decide, rfl⟩
    · exact .inr ⟨by decide, rfl⟩
    · exact .inr ⟨by decide, rfl⟩
    · exact .inr ⟨by decide, rfl⟩
    · exact .inr ⟨by decide, rfl⟩
    · exact .inl ⟨rfl, rfl⟩
  · exact absurd hf no_monitor_of_package

variable {part : Blueprint.Part}

theorem source_of_build {c : Source} (h : registry.buildSource part = .ok c) :
    c.kind = part.kind ∧
      (c.body.solitary = true ∨ part.kind = "inflow" ∧ c.body = .inflow false []) := by
  obtain ⟨f, body, hf, hbody, rfl⟩ := Registry.build_eq_ok h
  obtain ⟨made, rfl, hmade⟩ := source_cases hf
  cases hbody
  exact ⟨rfl, hmade⟩

theorem target_of_arguments {kind target : String} (hkind : part.kind ∈ Blueprint.callingKinds)
    (h : (Arguments.ofPart part).target kind = .ok target) : part.target? = some target := by
  unfold Arguments.target at h
  split at h
  · next name hname =>
    cases h
    rw [Blueprint.Part.target?, if_pos (List.contains_iff_mem.mpr hkind)]
    exact hname
  · cases h

/-- A sink is made without a connection, or to feed the flow that its part names. -/
theorem sink_of_build {c : Sink} (h : registry.buildSink part = .ok c) :
    c.kind = part.kind ∧ (part.kind ≠ Blueprint.flowKind ∧ c.body.solitary = true ∨
      part.kind = Blueprint.flowKind ∧ ∃ target, part.target? = some target ∧
        c.body = .flow target "" none .null false) := by
  obtain ⟨f, body, hf, hbody, rfl⟩ := Registry.build_eq_ok h
  refine ⟨rfl, ?_⟩
  obtain ⟨hkind, rfl⟩ | ⟨hkind, made, rfl, hmade⟩ := sink_cases hf
  · refine .inr ⟨hkind, ?_⟩
    unfold feeding at hbody
    cases htarget : (Arguments.ofPart part).target Blueprint.flowKind with
    | error e =>
        rw [htarget] at hbody
        cases hbody
    | ok target =>
        rw [htarget] at hbody
        cases hbody
        exact ⟨target, target_of_arguments (by simp [hkind, Blueprint.callingKinds]) htarget, rfl⟩
  · cases hbody
    exact .inl ⟨hkind, hmade⟩

/-- An operator is made to call the flow that its part names, or knows no flow. -/
theorem lone_of_build {c : Operator} (h : registry.buildOperator part = .ok c) :
    c.body.lone = true ∨
      ∃ mode target, part.target? = some target ∧ c.body = .call mode target none := by
  obtain ⟨f, body, hf, hbody, rfl⟩ := Registry.build_eq_ok h
  obtain ⟨hkind, mode, rfl⟩ | ⟨_, hmade⟩ := operator_cases hf
  · refine .inr ⟨mode, ?_⟩
    unfold calling at hbody
    cases htarget : (Arguments.ofPart part).target part.kind with
    | error e =>
        rw [htarget] at hbody
        cases hbody
    | ok target =>
        rw [htarget] at hbody
        cases hbody
        exact ⟨target, target_of_arguments hkind htarget, rfl⟩
  · obtain ⟨made, hmade, hlone⟩ := hmade (Arguments.ofPart part)
    rw [hbody] at hmade
    cases hmade
    exact .inl hlone

theorem operator_of_build {c : Operator} (h : registry.buildOperator part = .ok c) :
    c.body.solitary = true ∨
      ∃ mode target, part.target? = some target ∧ c.body = .call mode target none :=
  (lone_of_build h).imp_left fun hlone => (OperatorBody.lone_iff.mp hlone).1

theorem monitor_of_build {m : Monitor} (h : registry.buildMonitor part = .ok m) :
    m.kind = part.kind ∧ (part.kind = "call" ∧ m.body = .onCall ∨
      part.kind ≠ "call" ∧ m.body.solitary = true) := by
  obtain ⟨f, body, hf, hbody, rfl⟩ := Registry.build_eq_ok h
  obtain ⟨made, rfl, hmade⟩ := monitor_cases hf
  cases hbody
  exact ⟨rfl, hmade⟩

theorem link_of_build {link : Blueprint.Link} {c : Operator}
    (h : registry.buildLink link = .ok c) :
    (∃ part sink, link = .tee part ∧ registry.buildSink part = .ok sink ∧ c.body = .tee sink) ∨
      ∃ part, link = .operator part ∧ registry.buildOperator part = .ok c := by
  cases link with
  | tee part =>
      refine .inl ⟨part, ?_⟩
      change (registry.buildSink part).map _ = .ok c at h
      cases hsink : registry.buildSink part with
      | error e =>
          rw [hsink] at h
          cases h
      | ok sink =>
          rw [hsink] at h
          cases h
          exact ⟨sink, rfl, rfl, rfl⟩
  | operator part => exact .inr ⟨part, rfl, h⟩

/-! Which parts can be made. -/

theorem find?_of_has {role : Role} {kind : String} (h : registry.has role kind = true) :
    match role with
    | .source => ∃ f, registry.find? Package.sources kind = some f
    | .operator => ∃ f, registry.find? Package.operators kind = some f
    | .sink => ∃ f, registry.find? Package.sinks kind = some f
    | .monitor => ∃ f, registry.find? Package.monitors kind = some f := by
  cases role <;> exact Option.isSome_iff_exists.mp h

theorem build_of_find? {role : Role} {pick : Package → Shelf (Factory β)} {f : Factory β}
    (h : registry.find? pick part.kind = some f) : registry.build role pick part =
      (f (Arguments.ofPart part)).map fun body =>
        .make part.kind body (Arguments.ofPart part) part.name := by
  rw [Registry.build, h]

theorem target_isOk_iff (hkind : part.kind ∈ Blueprint.callingKinds) (kind : String) :
    (∃ target, (Arguments.ofPart part).target kind = .ok target) ↔ part.target?.isSome := by
  rw [Blueprint.Part.target?, if_pos (List.contains_iff_mem.mpr hkind)]
  rw [Arguments.target, show (Arguments.ofPart part).flowName? =
    part.args.head?.bind Param.flowName? from rfl]
  cases part.args.head?.bind Param.flowName? <;> simp

theorem buildSource_isOk (h : registry.has .source part.kind = true) :
    ∃ c, registry.buildSource part = .ok c := by
  obtain ⟨f, hf⟩ := find?_of_has h
  obtain ⟨body, rfl, _⟩ := source_cases hf
  exact ⟨_, build_of_find? hf⟩

theorem buildMonitor_isOk (h : registry.has .monitor part.kind = true) :
    ∃ c, registry.buildMonitor part = .ok c := by
  obtain ⟨f, hf⟩ := find?_of_has h
  obtain ⟨body, rfl, _⟩ := monitor_cases hf
  exact ⟨_, build_of_find? hf⟩

/-- A part of a kind that only knows a flow by its first argument is made if it names one. -/
theorem build_isOk_of_target {role : Role} {pick : Package → Shelf (Factory β)} {f : Factory β}
    {body : String → β} {kind : String} (hkind : part.kind ∈ Blueprint.callingKinds)
    (hf : registry.find? pick part.kind = some f)
    (hbody : ∀ arguments, f arguments = (arguments.target kind).map body) :
    (∃ c, registry.build role pick part = .ok c) ↔ part.target?.isSome := by
  rw [build_of_find? hf, hbody, ← target_isOk_iff hkind kind]
  cases (Arguments.ofPart part).target kind with
  | error e => simp [Except.map]
  | ok target => simp [Except.map]

theorem buildOperator_isOk_iff (h : registry.has .operator part.kind = true) :
    (∃ c, registry.buildOperator part = .ok c) ↔
      (part.kind ∈ Blueprint.callingKinds → part.target?.isSome) := by
  obtain ⟨f, hf⟩ := find?_of_has h
  obtain ⟨hkind, mode, rfl⟩ | ⟨hkind, hmade⟩ := operator_cases hf
  · rw [imp_iff_right hkind]
    exact build_isOk_of_target hkind hf fun _ => rfl
  · obtain ⟨body, hbody, _⟩ := hmade (Arguments.ofPart part)
    have hbuild : registry.buildOperator part = _ := build_of_find? hf
    rw [hbody] at hbuild
    exact iff_of_true ⟨_, hbuild⟩ fun hcalling => absurd hcalling hkind

theorem kind_of_sink (h : registry.has .sink part.kind = true)
    (hkind : part.kind ∈ Blueprint.callingKinds) : part.kind = Blueprint.flowKind := by
  simp only [Blueprint.callingKinds, List.mem_cons, List.not_mem_nil, or_false] at hkind
  obtain hkind | hkind | hkind := hkind
  · exact hkind
  · rw [hkind] at h
    exact absurd h (by decide +kernel)
  · rw [hkind] at h
    exact absurd h (by decide +kernel)

theorem buildSink_isOk_iff (h : registry.has .sink part.kind = true) :
    (∃ c, registry.buildSink part = .ok c) ↔
      (part.kind ∈ Blueprint.callingKinds → part.target?.isSome) := by
  obtain ⟨f, hf⟩ := find?_of_has h
  obtain ⟨hkind, rfl⟩ | ⟨hkind, body, rfl, _⟩ := sink_cases hf
  · have hcalling : part.kind ∈ Blueprint.callingKinds := by simp [hkind, Blueprint.callingKinds]
    rw [imp_iff_right hcalling]
    exact build_isOk_of_target hcalling hf fun _ => rfl
  · exact iff_of_true ⟨_, build_of_find? hf⟩ fun hcalling => absurd (kind_of_sink h hcalling) hkind

/-- No source and no monitor is of a kind that calls a flow. -/
theorem not_calling {role : Role} {kind : String} (h : registry.has role kind = true)
    (hrole : role = .source ∨ role = .monitor) : kind ∉ Blueprint.callingKinds := by
  intro hkind
  simp only [Blueprint.callingKinds, List.mem_cons, List.not_mem_nil, or_false] at hkind
  obtain rfl | rfl := hrole
  · obtain rfl | rfl | rfl := hkind <;> exact absurd h (by decide +kernel)
  · obtain rfl | rfl | rfl := hkind <;> exact absurd h (by decide +kernel)

theorem buildLink_isOk_iff {link : Blueprint.Link} : (∃ c, registry.buildLink link = .ok c) ↔
    match link with
    | .tee part => ∃ c, registry.buildSink part = .ok c
    | .operator part => ∃ c, registry.buildOperator part = .ok c := by
  cases link with
  | operator part => rfl
  | tee part =>
      change (∃ c, (registry.buildSink part).map _ = .ok c) ↔ _
      cases hsink : registry.buildSink part <;> simp [Except.map, hsink]

end Catalog
end PullFlow
