import PullFlow.Proofs.Binding

/-!
Arguments by position and by name. A parameter is filled the same way from either side, so that the
arguments without a name may as well be given under the names of the first parameters. And nothing
is lost on the way: what binding makes has the declared names, the arguments beyond them, and, where
nothing further is taken, a place for every name.
-/

namespace PullFlow

namespace Fields

variable {α : Type} {key : String} {fields : List (String × α)}

theorem mem_keys_erase {name : String} :
    key ∈ keys (erase name fields) ↔ key ∈ keys fields ∧ key ≠ name := by
  simp only [keys, erase, List.mem_map, List.mem_filter, bne_iff_ne]
  constructor
  · rintro ⟨f, ⟨hf, hne⟩, rfl⟩
    exact ⟨⟨f, hf, rfl⟩, hne⟩
  · rintro ⟨⟨f, hf, rfl⟩, hne⟩
    exact ⟨f, ⟨hf, hne⟩, rfl⟩

theorem erase_of_notMem (h : key ∉ keys fields) : erase key fields = fields := by
  refine List.filter_eq_self.mpr fun f hf => bne_iff_ne.mpr ?_
  rintro rfl
  exact h (List.mem_map_of_mem hf)

theorem erase_put (key : String) (a : α) (fields : List (String × α)) :
    erase key (put key a fields) = erase key fields := by
  induction fields with
  | nil => simp [put, erase]
  | cons field rest ih =>
      obtain ⟨k, b⟩ := field
      simp only [put]
      split
      · simp [erase]
      · split
        · next heq => simp [erase, heq]
        · simp only [erase, List.filter_cons] at ih ⊢
          rw [ih]

end Fields

namespace Schema

variable {component : String} {s : Schema} {spec : ParamSpec} {specs : List ParamSpec}
  {args : List Value} {named : List (String × Value)} {a v : Value} {p : Params}

/-- Arguments under the names of the parameters that they fill, besides those that have a name. -/
def byName (specs : List ParamSpec) (args : List Value) (named : List (String × Value)) :
    List (String × Value) :=
  ((specs.map (·.name)).zip args).foldr (fun f named => Fields.put f.1 f.2 named) named

@[simp] theorem byName_nil_args : byName specs [] named = named := by simp [byName]

@[simp] theorem byName_cons : byName (spec :: specs) (a :: args) named =
    Fields.put spec.name a (byName specs args named) := rfl

theorem mem_keys_byName {name : String} (h : name ∈ Fields.keys (byName specs args named)) :
    name ∈ specs.map (·.name) ∨ name ∈ Fields.keys named := by
  induction specs generalizing args with
  | nil => exact .inr h
  | cons spec specs ih =>
      cases args with
      | nil => exact .inr (by simpa using h)
      | cons a args =>
          rw [byName_cons] at h
          obtain rfl | h := Fields.mem_keys_put.mp h
          · exact .inl List.mem_cons_self
          · exact (ih h).imp (List.mem_cons_of_mem _) id

theorem bindOne_of_position (h : spec.name ∉ Fields.keys named) :
    bindOne component spec (a :: args) named =
      (ParamKind.coerce component spec a).map fun v => (v, args, named) := by
  rw [bindOne, Fields.get?_eq_none_iff.mpr h]

theorem bindOne_of_name (h : spec.name ∉ Fields.keys named) :
    bindOne component spec [] (Fields.put spec.name a named) =
      (ParamKind.coerce component spec a).map fun v => (v, [], named) := by
  rw [bindOne, Fields.get?_put, if_pos rfl, Fields.erase_put, Fields.erase_of_notMem h]

/-- An argument at a place fills its parameter as it would under the name: one parameter after the
other, the arguments still to come stay the same on both sides. -/
theorem bindSpecs_byName (hnodup : (specs.map (·.name)).Nodup) (hfit : args.length ≤ specs.length)
    (hfree : ∀ name ∈ (specs.map (·.name)).take args.length, name ∉ Fields.keys named) :
    bindSpecs component specs args named =
      bindSpecs component specs [] (byName specs args named) := by
  induction specs generalizing args with
  | nil =>
      cases List.length_eq_zero_iff.mp (Nat.le_zero.mp hfit)
      rfl
  | cons spec specs ih =>
      cases args with
      | nil => rw [byName_nil_args]
      | cons a args =>
          rw [List.map_cons] at hnodup hfree
          obtain ⟨hnew, hnodup⟩ := List.nodup_cons.mp hnodup
          obtain ⟨hfirst, hfree⟩ := List.forall_mem_cons.mp hfree
          have hlater : spec.name ∉ Fields.keys (byName specs args named) := fun h =>
            (mem_keys_byName h).elim hnew hfirst
          rw [bindSpecs, bindSpecs, byName_cons, bindOne_of_position hfirst, bindOne_of_name hlater]
          cases ParamKind.coerce component spec a with
          | error e => rfl
          | ok v =>
              change (bindSpecs component specs args named >>= _) =
                (bindSpecs component specs [] (byName specs args named) >>= _)
              rw [ih hnodup (Nat.le_of_succ_le_succ hfit) hfree]

/-- How the parameters are filled one after the other. The result are the values and what is left of
the arguments. -/
inductive Binds (component : String) : List ParamSpec → List Value → List (String × Value) →
    List (String × Value) × List Value × List (String × Value) → Prop
  | done {args : List Value} {named : List (String × Value)} :
      Binds component [] args named ([], args, named)
  | next {spec : ParamSpec} {specs : List ParamSpec} {v : Value} {args : List Value}
      {named : List (String × Value)} {left : List Value × List (String × Value)}
      {made : List (String × Value) × List Value × List (String × Value)}
      (first : Fills component spec args named v left)
      (others : Binds component specs left.1 left.2 made) :
      Binds component (spec :: specs) args named ((spec.name, v) :: made.1, made.2)

theorem binds_of_bindSpecs
    {made : List (String × Value) × List Value × List (String × Value)}
    (h : bindSpecs component specs args named = .ok made) :
    Binds component specs args named made := by
  induction specs generalizing args named made with
  | nil =>
      cases h
      exact .done
  | cons spec specs ih =>
      obtain ⟨first, hfirst, h⟩ := bind_eq_ok.mp h
      obtain ⟨others, hothers, h⟩ := bind_eq_ok.mp h
      cases h
      exact .next (fills_of_bindOne hfirst) (ih hothers)

/-- What fills a parameter: the argument that it is given, brought to its sort, or else its
default. -/
def Filling (component : String) (spec : ParamSpec) (given : Option Value) (v : Value) : Prop :=
  match given with
  | some a => ParamKind.coerce component spec a = .ok v
  | none => spec.default = some v

theorem Fills.filling {left : List Value × List (String × Value)}
    (h : Fills component spec args named v left) :
    Filling component spec (given? args named spec 0) v := by
  cases h with
  | position _ hfits => exact hfits
  | name hgiven hfits =>
      rw [given?, List.getElem?_nil, Option.none_or, hgiven]
      exact hfits
  | default hfree hstated =>
      rw [given?, List.getElem?_nil, Option.none_or, Fields.get?_eq_none_iff.mpr hfree]
      exact hstated

namespace Binds

variable {made : List (String × Value) × List Value × List (String × Value)}

theorem names (h : Binds component specs args named made) :
    Fields.keys made.1 = specs.map (·.name) := by
  induction h with
  | done => rfl
  | next _ _ ih => exact congrArg (_ :: ·) ih

theorem rest (h : Binds component specs args named made) : made.2.1 = args.drop specs.length := by
  induction h with
  | done => rfl
  | next hfirst _ ih => rw [ih, hfirst.args_eq, List.drop_tail, List.length_cons]

/-- No parameter that a place fills has an argument of its name. -/
theorem free (h : Binds component specs args named made) :
    ∀ name ∈ (specs.map (·.name)).take args.length, name ∉ Fields.keys named := by
  induction h with
  | done => simp
  | next hfirst _ ih =>
      cases hfirst with
      | position hfree _ => exact List.forall_mem_cons.mpr ⟨hfree, ih⟩
      | name _ _ | default _ _ => exact List.forall_mem_nil _

/-- An argument with a name fills a parameter or is left over. -/
theorem placed (h : Binds component specs args named made) :
    ∀ name ∈ Fields.keys named, name ∈ specs.map (·.name) ∨ name ∈ Fields.keys made.2.2 := by
  induction h with
  | done => exact fun _ h => .inr h
  | @next spec _ _ _ _ _ _ hfirst _ ih =>
      intro name h
      by_cases hname : name = spec.name
      · exact .inl (hname ▸ List.mem_cons_self)
      · refine (ih name ?_).imp (List.mem_cons_of_mem _) id
        rcases hfirst.named_eq with heq | heq <;> rw [heq]
        · exact h
        · exact Fields.mem_keys_erase.mpr ⟨h, hname⟩

/-- A parameter that no other one before it has the name of is filled with what it is given. -/
theorem filled {before after : List ParamSpec}
    (h : Binds component (before ++ spec :: after) args named made)
    (hnew : spec.name ∉ before.map (·.name)) :
    ∃ left v right, made.1 = left ++ (spec.name, v) :: right ∧
      Fields.keys right = after.map (·.name) ∧
      Filling component spec (given? args named spec before.length) v := by
  induction before generalizing args named made with
  | nil =>
      rw [List.nil_append] at h
      cases h with
      | next hfirst hothers => exact ⟨[], _, _, rfl, hothers.names, hfirst.filling⟩
  | cons first before ih =>
      rw [List.map_cons, List.mem_cons, not_or] at hnew
      cases h with
      | next hfirst hothers =>
          obtain ⟨left, v, right, hmade, hkeys, hfilled⟩ := ih hothers hnew.2
          refine ⟨_ :: left, v, right, congrArg (_ :: ·) hmade, hkeys, ?_⟩
          rw [given?, hfirst.args_eq, List.getElem?_tail] at hfilled
          rw [given?, List.length_cons]
          rcases hfirst.named_eq with heq | heq <;> rw [heq] at hfilled
          · exact hfilled
          · rwa [Fields.get?_erase, if_neg hnew.1] at hfilled

end Binds

/-- A parameter that is declared once is bound to what fills it. -/
theorem filling_of_bind {before after : List ParamSpec}
    (h : s.bind component args named = .ok p) (hspecs : s.specs = before ++ spec :: after)
    (hnew : spec.name ∉ before.map (·.name)) (hlast : spec.name ∉ after.map (·.name)) :
    ∃ v, Filling component spec (given? args named spec before.length) v ∧
      Fields.get? spec.name p.values = some v := by
  obtain ⟨made, hmade, rfl, -⟩ := bind_eq_ok_left h
  rw [hspecs] at hmade
  obtain ⟨left, v, right, hvalues, hkeys, hfilled⟩ := (binds_of_bindSpecs hmade).filled hnew
  refine ⟨v, hfilled, ?_⟩
  rw [hvalues, Fields.get?_ofList_of_last (hkeys ▸ hlast)]

/-- What bound parameters have to show for every argument. -/
structure Accounts (s : Schema) (args : List Value) (named : List (String × Value)) (p : Params) :
    Prop where
  /-- The bound names are the declared ones. -/
  names : ∀ name, name ∈ Fields.keys p.values ↔ name ∈ s.names
  once : (Fields.keys p.values).Nodup
  rest : p.rest = args.drop s.names.length
  /-- Where nothing further is taken, every argument fills one parameter. -/
  filled : s.variadic = false → p.rest = [] ∧
    ∀ name ∈ Fields.keys named, name ∈ s.names ∧ name ∉ s.names.take args.length

theorem accounts_of_bind (h : s.bind component args named = .ok p) : Accounts s args named p := by
  obtain ⟨made, hspecs, rfl, hleft⟩ := bind_eq_ok_left h
  have hbinds := binds_of_bindSpecs hspecs
  refine ⟨fun name => ?_, Fields.nodup_keys_ofList _, ?_, fun hfixed => ?_⟩
  · rw [Fields.mem_keys_ofList, hbinds.names, Schema.names]
  · rw [hbinds.rest, Schema.names, List.length_map]
  · obtain ⟨hrest, hnone⟩ := hleft hfixed
    refine ⟨hrest, fun name hname => ⟨?_, fun htaken => hbinds.free name htaken hname⟩⟩
    refine (hbinds.placed name hname).resolve_right ?_
    rw [hnone]
    exact List.not_mem_nil

/-- Arguments by position and by name are interchangeable, and binding accounts for all of them. -/
theorem arguments_accounted (s : Schema) (component : String) (args : List Value)
    (named : List (String × Value)) :
    (s.names.Nodup → args.length ≤ s.names.length →
      (∀ name ∈ s.names.take args.length, name ∉ Fields.keys named) →
      s.bind component args named = s.bind component [] (byName s.specs args named)) ∧
    ∀ p, s.bind component args named = .ok p → Accounts s args named p := by
  refine ⟨fun hnodup hfit hfree => ?_, fun p => accounts_of_bind⟩
  rw [Schema.names, List.length_map] at hfit
  rw [Schema.bind, Schema.bind, bindSpecs_byName hnodup hfit hfree]

/-- A parameter that is filled from its place next to one that is filled by its name. -/
theorem condition_and_name_accounted :
    let s := (empty.required "when" .bool).optional "else" .any .null
    s.names.Nodup ∧ 1 ≤ s.names.length ∧ "when" ∉ Fields.keys [("else", Value.bool true)] ∧
      s.bind "pick" [.bool false] [("else", .bool true)] =
        s.bind "pick" [] [("else", .bool true), ("when", .bool false)] ∧
      Accounts s [.bool false] [("else", .bool true)]
        ⟨[("else", .bool true), ("when", .bool false)], []⟩ := by
  refine ⟨by decide, by decide, by decide, ?_, ?_⟩
  · exact (arguments_accounted _ "pick" [.bool false] [("else", .bool true)]).1
      (by decide) (by decide) (by decide)
  · exact (arguments_accounted _ "pick" [.bool false] [("else", .bool true)]).2 _ rfl

end Schema

end PullFlow
