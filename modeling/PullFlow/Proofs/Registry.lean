import Mathlib.Data.List.Nodup
import Mathlib.Data.List.Pairwise
import PullFlow.Proofs.Catalog
import PullFlow.Proofs.Scope.Claims

/-!
What a registry lists against what it finds. A name is cut at its first point when it is looked up,
so an element of a package is found only if the name of the package has no point, and an element of
the registry itself only if its own name has none. The list asks for neither.
-/

namespace PullFlow

open Scope.Store (Plain plain_iff path_of_plain)

/-- A shelf made by registrations, in any order and under any names. -/
inductive Shelf.Made {F : Type} : Shelf F → Prop
  | empty : Made .empty
  | register {a : Shelf F} (name : String) (f : F) : Made a → Made (a.register name f)
  | registerDefault {a : Shelf F} (name : String) (f : F) : Made a → Made (a.registerDefault name f)

/-- A package made by registrations on its shelves. -/
structure Package.Made (p : Package) : Prop where
  sources : p.sources.Made
  operators : p.operators.Made
  sinks : p.sinks.Made
  monitors : p.monitors.Made

/-- A registry made by registrations of its own and of packages. -/
inductive Registry.Made : Registry → Prop
  | empty : Made .empty
  | builtin {r : Registry} {p : Package} : Made r → p.Made → Made { r with builtin := p }
  | registerPackage {r : Registry} {p : Package} (name : String) :
      Made r → p.Made → Made (r.registerPackage name p)

theorem Shelf.Made.sorted_names {F : Type} {a : Shelf F} (h : a.Made) :
    a.names.Pairwise (· < ·) := by
  induction h with
  | empty => exact .nil
  | register name f _ ih => exact Fields.sorted_put ih name f
  | registerDefault name f _ ih => exact Fields.sorted_put ih name f

theorem Shelf.Made.nodup_names {F : Type} {a : Shelf F} (h : a.Made) : a.names.Nodup :=
  h.sorted_names.imp ne_of_lt

theorem Shelf.mem_names_iff {F : Type} {a : Shelf F} {name : String} :
    name ∈ a.names ↔ (a.get? name).isSome = true := by
  rw [Option.isSome_iff_exists]
  exact Fields.mem_keys_iff

theorem Shelf.names_ne_nil_of_default {F : Type} {a : Shelf F} (h : a.default?.isSome = true) :
    a.names ≠ [] := by
  obtain ⟨f, hf⟩ := Option.isSome_iff_exists.mp h
  obtain ⟨name, _, hname⟩ := Option.bind_eq_some_iff.mp hf
  exact List.ne_nil_of_mem (mem_names_iff.mpr (Option.isSome_of_eq_some hname))

theorem Package.Made.nodup_names {p : Package} (h : p.Made) (role : Role) :
    (p.names role).Nodup := by
  cases role with
  | source => exact h.sources.nodup_names
  | operator => exact h.operators.nodup_names
  | sink => exact h.sinks.nodup_names
  | monitor => exact h.monitors.nodup_names

theorem Package.names_ne_nil_of_default {p : Package} {role : Role} (h : p.hasDefault role = true) :
    p.names role ≠ [] := by
  cases role <;> exact Shelf.names_ne_nil_of_default h

namespace Registry

theorem Made.nodup_packageNames {r : Registry} (h : r.Made) : r.packageNames.Nodup := by
  have hsorted : r.packageNames.Pairwise (· < ·) := by
    induction h with
    | empty => exact .nil
    | builtin _ _ ih => exact ih
    | @registerPackage r p name _ _ ih => exact Fields.sorted_put ih name p
  exact hsorted.imp ne_of_lt

theorem Made.builtin_made {r : Registry} (h : r.Made) : r.builtin.Made := by
  induction h with
  | empty => exact ⟨.empty, .empty, .empty, .empty⟩
  | builtin _ hp => exact hp
  | registerPackage _ _ _ ih => exact ih

theorem Made.package_made {r : Registry} (h : r.Made) {q : String × Package}
    (hq : q ∈ r.packages) : q.2.Made := by
  induction h with
  | empty => cases hq
  | builtin _ _ ih => exact ih hq
  | registerPackage name _ hp ih =>
      obtain rfl | hq := Fields.mem_put hq
      · exact hp
      · exact ih hq

/-! Names cut at their first point. -/

/-- The name of an element of a package. -/
def within (package element : String) : String := package ++ "." ++ element

theorem within_injective (package : String) : Function.Injective (within package) := by
  intro a b h
  rw [← String.toList_inj] at h ⊢
  simpa [within] using h

theorem not_plain_within (package element : String) : ¬ Plain (within package element) := by
  rw [plain_iff]
  simp [within]

theorem cut_eq_none_iff {name : String} : cut name = none ↔ Plain name := by
  unfold cut Plain
  rcases Scope.path name with _ | ⟨first, _ | ⟨next, rest⟩⟩ <;> simp

theorem cut_within {package : String} (hplain : Plain package) (element : String) :
    cut (within package element) = some (package, element) := by
  have hpath : Scope.path (within package element) = package :: Scope.path element := by
    have hpieces := Text.pieces_char_append (plain_iff.mp hplain) element.toList
    have hname : (within package element).toList = package.toList ++ '.' :: element.toList := by
      simp [within]
    change (Text.pieces ['.'] _).map String.ofList = _
    rw [hname, hpieces, List.map_cons, String.ofList_toList]
    rfl
  have hkey : Scope.keyOf (Scope.path element) = element := Text.join_split "." element
  rw [cut, hpath]
  cases helement : Scope.path element with
  | nil => exact absurd helement (Scope.Store.path_ne_nil element)
  | cons first rest =>
      rw [helement] at hkey
      simp only [hkey]

theorem eq_within_of_cut {name package element : String} (h : cut name = some (package, element)) :
    Plain package ∧ name = within package element := by
  have hjoin : Text.join "." (Scope.path name) = name := Text.join_split "." name
  unfold cut at h
  split at h
  · next first next rest hpath =>
    cases h
    constructor
    · have hmem : package ∈ Scope.path name := hpath ▸ List.mem_cons_self
      obtain ⟨piece, hpiece, rfl⟩ := List.mem_map.mp hmem
      have hclear := Text.not_infix_of_mem_pieces (List.cons_ne_nil '.' []) hpiece
      rwa [Text.infix_char_iff, ← String.toList_ofList (l := piece), ← plain_iff] at hclear
    · rw [hpath, Text.join, String.intercalate_cons_cons] at hjoin
      exact hjoin.symm
  · cases h

/-- Names of packages without a point are told apart, whatever stands behind them. -/
theorem within_inj {package package' element element' : String} (h : Plain package)
    (h' : Plain package') : within package element = within package' element' ↔
      package = package' ∧ element = element' := by
  constructor
  · intro hsame
    have hcut := cut_within h element
    rw [hsame, cut_within h'] at hcut
    simpa [eq_comm] using hcut
  · rintro ⟨rfl, rfl⟩
    rfl

theorem within_ne (package element : String) : within package element ≠ package := by
  intro h
  have hlength := congrArg String.length h
  have hpoint : ".".length = 1 := rfl
  simp only [within, String.length_append, hpoint] at hlength
  omega

/-! What is found. -/

/-- The names that a package has for a role: its own, if it has a default, and those of its
elements behind it. -/
def Offers (role : Role) (q : String × Package) (name : String) : Prop :=
  (q.2.hasDefault role = true ∧ name = q.1) ∨ ∃ e ∈ q.2.names role, name = within q.1 e

variable {r : Registry} {role : Role} {name : String} {listed : List String}
  {q : String × Package} {packages : List (String × Package)}

theorem ne_within_of_plain (h : Plain name) {e : String} : name ≠ within q.1 e := by
  rintro rfl
  exact not_plain_within _ _ h

theorem isSome_find?_iff {F : Type} (h : r.packageNames.Nodup) (shelf : Package → Shelf F)
    (hnames : ∀ p, p.names role = (shelf p).names)
    (hdefault : ∀ p, p.hasDefault role = (shelf p).default?.isSome) :
    (r.find? shelf name).isSome = true ↔
      (Plain name ∧ name ∈ r.builtin.names role) ∨
        ∃ q ∈ r.packages, Plain q.1 ∧ Offers role q name := by
  unfold Offers
  cases hcut : cut name with
  | some parts =>
      obtain ⟨package, element⟩ := parts
      obtain ⟨hplain, rfl⟩ := eq_within_of_cut hcut
      simp only [find?, hcut, Option.isSome_bind, Option.any_eq_true]
      constructor
      · rintro ⟨p, hp, helement⟩
        refine .inr ⟨(package, p), Fields.mem_of_get? hp, hplain, .inr ⟨element, ?_, rfl⟩⟩
        rw [hnames]
        exact Shelf.mem_names_iff.mpr helement
      · rintro (⟨hname, _⟩ | ⟨q, hq, hqplain, ⟨_, hname⟩ | ⟨e, he, hname⟩⟩)
        · exact absurd hname (not_plain_within _ _)
        · exact absurd (hname ▸ hqplain) (not_plain_within _ _)
        · obtain ⟨rfl, rfl⟩ := (within_inj hplain hqplain).mp hname
          rw [hnames] at he
          exact ⟨q.2, Fields.get?_of_mem h hq, Shelf.mem_names_iff.mp he⟩
  | none =>
      have hplain := cut_eq_none_iff.mp hcut
      have hown : (r.find? shelf name).isSome = true ↔ name ∈ r.builtin.names role ∨
          ∃ p, Fields.get? name r.packages = some p ∧ p.hasDefault role = true := by
        simp only [find?, hcut, hnames, Shelf.mem_names_iff]
        cases (shelf r.builtin).get? name with
        | some f => simp
        | none => simp [Option.isSome_bind, Option.any_eq_true, hdefault]
      refine hown.trans ⟨?_, ?_⟩
      · rintro (hname | ⟨p, hp, hdefault⟩)
        · exact .inl ⟨hplain, hname⟩
        · exact .inr ⟨(name, p), Fields.mem_of_get? hp, hplain, .inl ⟨hdefault, rfl⟩⟩
      · rintro (⟨_, hname⟩ | ⟨q, hq, _, ⟨hdefault, rfl⟩ | ⟨e, _, hname⟩⟩)
        · exact .inl hname
        · exact .inr ⟨q.2, Fields.get?_of_mem h hq, hdefault⟩
        · exact absurd hname (ne_within_of_plain hplain)

theorem has_iff (h : r.packageNames.Nodup) : r.has role name = true ↔
    (Plain name ∧ name ∈ r.builtin.names role) ∨
      ∃ q ∈ r.packages, Plain q.1 ∧ Offers role q name := by
  cases role with
  | source => exact isSome_find?_iff h Package.sources (fun _ => rfl) fun _ => rfl
  | operator => exact isSome_find?_iff h Package.operators (fun _ => rfl) fun _ => rfl
  | sink => exact isSome_find?_iff h Package.sinks (fun _ => rfl) fun _ => rfl
  | monitor => exact isSome_find?_iff h Package.monitors (fun _ => rfl) fun _ => rfl

/-! What is listed. -/

theorem mem_listPackage :
    name ∈ listPackage role listed q ↔ name ∈ listed ∨ Offers role q name := by
  obtain ⟨package, p⟩ := q
  have hown : name ∈ (if p.hasDefault role && !listed.contains package then [package] else []) ↔
      (p.hasDefault role = true ∧ package ∉ listed) ∧ name = package := by
    split <;> simp_all
  have helements : name ∈ (p.names role).map (package ++ "." ++ ·) ↔
      ∃ e ∈ p.names role, name = within package e := by
    simp [within, eq_comm]
  simp only [listPackage, List.mem_append, hown, helements, Offers]
  by_cases hlisted : package ∈ listed
  · constructor
    · rintro ((h | ⟨⟨_, hnew⟩, _⟩) | h)
      · exact .inl h
      · exact absurd hlisted hnew
      · exact .inr (.inr h)
    · rintro (h | ⟨_, rfl⟩ | h)
      · exact .inl (.inl h)
      · exact .inl (.inl hlisted)
      · exact .inr h
  · simp [hlisted, or_assoc]

theorem mem_listed : name ∈ packages.foldl (listPackage role) listed ↔
    name ∈ listed ∨ ∃ q ∈ packages, Offers role q name := by
  induction packages generalizing listed with
  | nil => simp
  | cons q rest ih =>
      rw [List.foldl_cons, ih, mem_listPackage, or_assoc]
      simp

theorem mem_names_iff : name ∈ r.names role ↔
    name ∈ r.builtin.names role ∨ ∃ q ∈ r.packages, Offers role q name := by
  rw [names, List.mem_mergeSort, mem_listed]

theorem sorted_names (r : Registry) (role : Role) : (r.names role).Pairwise (· ≤ ·) := by
  have hsorted (l : List String) : (l.mergeSort fun a b => decide (a ≤ b)).Pairwise
      fun a b => decide (a ≤ b) = true :=
    List.pairwise_mergeSort
      (fun a b c hab hbc => by simpa using le_trans (by simpa using hab) (by simpa using hbc))
      (fun a b => by simpa using le_total a b) l
  exact (hsorted _).imp of_decide_eq_true

theorem nodup_listPackage (hlisted : listed.Nodup) (hnames : (q.2.names role).Nodup)
    (hfresh : ∀ e ∈ q.2.names role, within q.1 e ∉ listed) : (listPackage role listed q).Nodup := by
  obtain ⟨package, p⟩ := q
  have helements : ((p.names role).map (within package)).Nodup :=
    hnames.map (within_injective package)
  have hown : (listed ++
      if p.hasDefault role && !listed.contains package then [package] else []).Nodup := by
    split
    · next hnew =>
      have hnew : package ∉ listed := by simp_all
      exact List.concat_eq_append ▸ hlisted.concat hnew
    · simpa using hlisted
  refine List.nodup_append.mpr ⟨hown, helements, fun name hname element helement => ?_⟩
  obtain ⟨e, he, rfl⟩ := List.mem_map.mp helement
  rintro rfl
  obtain hname | hname := List.mem_append.mp hname
  · exact hfresh e he hname
  · split at hname
    · exact within_ne _ _ (List.mem_singleton.mp hname)
    · cases hname

/-- Elements of packages under names without a point are listed under names of their own. -/
theorem nodup_listed (hlisted : listed.Nodup) (hkeys : (Fields.keys packages).Nodup)
    (hnames : ∀ q ∈ packages, (q.2.names role).Nodup)
    (hplain : ∀ q ∈ packages, q.2.names role ≠ [] → Plain q.1)
    (hfresh : ∀ q ∈ packages, ∀ e ∈ q.2.names role, within q.1 e ∉ listed) :
    (packages.foldl (listPackage role) listed).Nodup := by
  induction packages generalizing listed with
  | nil => exact hlisted
  | cons q rest ih =>
      obtain ⟨hq, hkeys⟩ := List.nodup_cons.mp hkeys
      obtain ⟨hqnames, hnames⟩ := List.forall_mem_cons.mp hnames
      obtain ⟨hqplain, hplain⟩ := List.forall_mem_cons.mp hplain
      obtain ⟨hqfresh, hfresh⟩ := List.forall_mem_cons.mp hfresh
      refine ih (nodup_listPackage hlisted hqnames hqfresh) hkeys hnames hplain ?_
      intro q' hq' e he hmem
      have hplain' : Plain q'.1 := hplain q' hq' (List.ne_nil_of_mem he)
      obtain hmem | ⟨hdefault, hname⟩ | ⟨e', he', hname⟩ := mem_listPackage.mp hmem
      · exact hfresh q' hq' e he hmem
      · exact ne_within_of_plain (hqplain (Package.names_ne_nil_of_default hdefault)) hname.symm
      · have hsame := (within_inj hplain' (hqplain (List.ne_nil_of_mem he'))).mp hname
        have hkey : q'.1 ∈ Fields.keys rest := List.mem_map_of_mem hq'
        rw [hsame.1] at hkey
        exact hq hkey

/-- The names of all elements of a role. -/
def elementNames (role : Role) (packages : List (String × Package)) : List String :=
  packages.flatMap fun q => (q.2.names role).map (within q.1)

/-- The elements of all packages are listed, whatever else is. -/
theorem elements_sublist : List.Sublist (listed ++ elementNames role packages)
    (packages.foldl (listPackage role) listed) := by
  induction packages generalizing listed with
  | nil => simp [elementNames]
  | cons q rest ih =>
      refine List.Sublist.trans ?_ ih
      rw [elementNames, List.flatMap_cons, ← List.append_assoc]
      refine List.Sublist.append (List.Sublist.append ?_ (.refl _)) (.refl _)
      exact List.sublist_append_left listed _

/-- No name of an element of the registry itself has a point, and none of a package that has
elements of the role. -/
def Findable (r : Registry) (role : Role) : Prop :=
  (∀ name ∈ r.builtin.names role, Plain name) ∧
    ∀ q ∈ r.packages, q.2.names role ≠ [] → Plain q.1

theorem has_of_mem_names (h : r.packageNames.Nodup) (hfindable : r.Findable role)
    (hname : name ∈ r.names role) : r.has role name = true := by
  rw [has_iff h]
  obtain hname | ⟨q, hq, hoffers⟩ := mem_names_iff.mp hname
  · exact .inl ⟨hfindable.1 name hname, hname⟩
  · have hsome : q.2.names role ≠ [] := by
      obtain ⟨hdefault, _⟩ | ⟨e, he, _⟩ := hoffers
      · exact Package.names_ne_nil_of_default hdefault
      · exact List.ne_nil_of_mem he
    exact .inr ⟨q, hq, hfindable.2 q hq hsome, hoffers⟩

theorem mem_names_of_has (h : r.packageNames.Nodup) (hhas : r.has role name = true) :
    name ∈ r.names role := by
  rw [mem_names_iff]
  obtain ⟨_, hname⟩ | ⟨q, hq, _, hoffers⟩ := (has_iff h).mp hhas
  · exact .inl hname
  · exact .inr ⟨q, hq, hoffers⟩

theorem nodup_names (h : r.Made) (hfindable : r.Findable role) : (r.names role).Nodup := by
  rw [names, (List.mergeSort_perm _ _).nodup_iff]
  refine nodup_listed (h.builtin_made.nodup_names role) h.nodup_packageNames
    (fun q hq => (h.package_made hq).nodup_names role) hfindable.2 fun q _ e _ hlisted => ?_
  exact not_plain_within _ _ (hfindable.1 _ hlisted)

/-- A name with a point that is found is the name of an element of a package. -/
theorem elementOf_of_has (h : r.packageNames.Nodup) (hpoint : ¬ Plain name)
    (hhas : r.has role name = true) :
    ∃ q ∈ r.packages, Plain q.1 ∧ ∃ e ∈ q.2.names role, name = within q.1 e := by
  obtain ⟨hplain, _⟩ | ⟨q, hq, hplain, ⟨_, rfl⟩ | helement⟩ := (has_iff h).mp hhas
  · exact absurd hplain hpoint
  · exact absurd hplain hpoint
  · exact ⟨q, hq, hplain, helement⟩

/-- Were a name with a point found as well, it would be listed twice. -/
theorem findable_of_nodup (h : r.packageNames.Nodup) (hnodup : (r.names role).Nodup)
    (hlisted : ∀ name, name ∈ r.names role → r.has role name = true) : r.Findable role := by
  rw [names, (List.mergeSort_perm _ _).nodup_iff] at hnodup
  obtain ⟨_, helements, hapart⟩ := List.nodup_append.mp (elements_sublist.nodup hnodup)
  constructor
  · intro name hname
    by_contra hpoint
    obtain ⟨q, hq, _, e, he, rfl⟩ :=
      elementOf_of_has h hpoint (hlisted name (mem_names_iff.mpr (.inl hname)))
    refine hapart _ hname _ (List.mem_flatMap.mpr ⟨q, hq, ?_⟩) rfl
    exact List.mem_map_of_mem he
  · intro q hq hsome
    obtain ⟨e, he⟩ := List.exists_mem_of_ne_nil _ hsome
    obtain ⟨q', hq', hplain, e', he', hsame⟩ := elementOf_of_has h (not_plain_within q.1 e)
      (hlisted _ (mem_names_iff.mpr (.inr ⟨q, hq, .inr ⟨e, he, rfl⟩⟩)))
    by_contra hpoint
    have hne : q ≠ q' := by
      rintro rfl
      exact hpoint hplain
    have hsymm : Std.Symm (Function.onFun List.Disjoint fun q : String × Package =>
        (q.2.names role).map (within q.1)) := ⟨fun _ _ h _ hmem hmem' => h hmem' hmem⟩
    have hdisjoint := (List.nodup_flatMap.mp helements).2.forall hq hq' hne
    exact hdisjoint (List.mem_map_of_mem he) (hsame ▸ List.mem_map_of_mem he')

/-! The catalog. -/

/-- An element that is registered once more under its name is no change. -/
theorem registerDefault_eq {F : Type} {a : Shelf F} (h : a.Made) {name : String} {f : F}
    (hf : a.get? name = some f) : a.registerDefault name f = { a with default := some name } := by
  have hsame : a.register name f = a := by
    rw [Shelf.register, Fields.put_of_get? h.sorted_names hf]
  rw [Shelf.registerDefault, hsame]

theorem made_shelf {β : Type} (elements : List (String × β)) : (Catalog.shelf elements).Made := by
  have hall (a : Shelf (Factory β)) (ha : a.Made ∧ a.default = none) :
      let all := elements.foldl (fun a element => a.register element.1 fun _ => .ok element.2) a
      all.Made ∧ all.default = none := by
    induction elements generalizing a with
    | nil => exact ha
    | cons element rest ih => exact ih _ ⟨.register _ _ ha.1, ha.2⟩
  obtain ⟨hmade, hdefault⟩ := hall .empty ⟨.empty, rfl⟩
  unfold Catalog.shelf
  rw [← hdefault]
  exact hmade

theorem made_shelf_default {β : Type} {elements : List (String × β)} {name : String}
    (h : name ∈ (Catalog.shelf elements).names) : (Catalog.shelf elements (some name)).Made := by
  obtain ⟨f, hf⟩ := Option.isSome_iff_exists.mp (Shelf.mem_names_iff.mp h)
  have hregistered := (made_shelf elements).registerDefault name f
  rw [registerDefault_eq (made_shelf elements) hf] at hregistered
  exact hregistered

theorem made_builtin :
    Package.Made ⟨Catalog.sources, Catalog.operators, Catalog.sinks, Catalog.monitors⟩ where
  sources := made_shelf _
  operators := (made_shelf _).register _ _ |>.register _ _ |>.register _ _
  sinks := (made_shelf _).register _ _
  monitors := made_shelf _

theorem made_catalog : Catalog.registry.Made := by
  have hvar : Catalog.varPackage.Made :=
    ⟨made_shelf_default (by decide +kernel), .register _ _ .empty,
      made_shelf_default (by decide +kernel), .empty⟩
  have htime : Catalog.timePackage.Made :=
    ⟨made_shelf_default (by decide +kernel), .empty, .empty, .empty⟩
  have hlst : Catalog.lstPackage.Made := ⟨.empty, made_shelf _, .empty, .empty⟩
  have hbool : Catalog.boolPackage.Made := ⟨made_shelf _, made_shelf _, .empty, .empty⟩
  have hfmt : Catalog.fmtPackage.Made := ⟨.empty, made_shelf _, .empty, .empty⟩
  have hfile : Catalog.filePackage.Made :=
    ⟨made_shelf_default (by decide +kernel), .empty, made_shelf_default (by decide +kernel), .empty⟩
  exact Made.empty.builtin made_builtin |>.registerPackage "var" hvar
    |>.registerPackage "time" htime |>.registerPackage "lst" hlst |>.registerPackage "bool" hbool
    |>.registerPackage "fmt" hfmt |>.registerPackage "file" hfile

theorem findable_catalog (role : Role) : Catalog.registry.Findable role := by
  cases role <;> exact ⟨by decide +kernel, by decide +kernel⟩

/-- The list of a registry is in order, and every name that stands for an element is on it. Every
name on it stands for an element, and each is there once, exactly if neither an element of the
registry itself nor a package with elements of the role has a point in its name. -/
theorem names_iff_has (h : r.Made) (role : Role) :
    (r.names role).Pairwise (· ≤ ·) ∧ (∀ name, r.has role name = true → name ∈ r.names role) ∧
      (((∀ name, name ∈ r.names role ↔ r.has role name = true) ∧ (r.names role).Nodup) ↔
        r.Findable role) := by
  have hpackages := h.nodup_packageNames
  refine ⟨sorted_names r role, fun name => mem_names_of_has hpackages, ?_, ?_⟩
  · rintro ⟨hiff, hnodup⟩
    exact findable_of_nodup hpackages hnodup fun name => (hiff name).mp
  · intro hfindable
    refine ⟨fun name => ⟨has_of_mem_names hpackages hfindable, mem_names_of_has hpackages⟩, ?_⟩
    exact nodup_names h hfindable

/-- The catalog lists what it finds. -/
theorem catalog_lists_found : Catalog.registry.Made ∧ (Catalog.registry.names .source).Nodup ∧
    ∀ name, name ∈ Catalog.registry.names .source ↔ Catalog.registry.has .source name = true := by
  obtain ⟨hiff, hnodup⟩ := (names_iff_has made_catalog .source).2.2.mpr (findable_catalog .source)
  exact ⟨made_catalog, hnodup, hiff⟩

/-- The registry with one source, under a name with a point. -/
def pointed : Registry :=
  { Registry.empty with
    builtin := { Package.empty with
      sources := Shelf.empty.register "a.b" fun _ => .ok (.constant (.bool true)) } }

theorem made_pointed : pointed.Made :=
  .builtin .empty ⟨.register _ _ .empty, .empty, .empty, .empty⟩

/-- The source is listed, and not found. -/
theorem pointed_not_found :
    ¬ ∀ (r : Registry) (role : Role), r.Made →
      (∀ name, name ∈ r.names role ↔ r.has role name = true) ∧
        (r.names role).Pairwise (· ≤ ·) ∧ (r.names role).Nodup := by
  intro h
  have hfound := ((h pointed .source made_pointed).1 "a.b").mp (by decide +kernel)
  exact absurd hfound (by decide +kernel)

end Registry
end PullFlow
