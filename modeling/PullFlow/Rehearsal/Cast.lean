import PullFlow.Catalog

/-!
The components that stand in for others in a rehearsal, as the package `t`: scripted sources,
recorders in every role, components that leave their work undone, a sink that refuses one payload
and a monitor that obeys orders.
-/

namespace PullFlow.Rehearsal

/-- The literal text given under a name before the arguments are resolved. -/
def literalText (d : Arguments) (name : String) : String :=
  match Fields.get? name d.named with
  | some (.literal v) => v.toText?.getD ""
  | _ => ""

/-- The factory of a recorder in some role. It can be made to fail. -/
def recorder {β : Type} (body : Recorder → β) : Factory β := fun arguments =>
  let r : Recorder := ⟨literalText arguments "tag", literalText arguments "fail", ""⟩
  if r.failing = "build" then .error (.other (r.tag ++ " build")) else .ok (body r)

def package : Package :=
  { sources := ((Catalog.shelf [("script", .script [] false true), ("abstract", .abstract)]).register
      "rec" (recorder .recorder))
    operators := (Catalog.shelf [("abstract", .abstract)]).register "rec" (recorder .recorder)
    sinks := (Catalog.shelf [("abstract", .abstract), ("picky", .picky .null)]).register
      "rec" (recorder .recorder)
    monitors := (Catalog.shelf [("probe", .probe)]).register "rec" (recorder .recorder) }

/-- The catalog with the stand-ins. -/
def registry : Registry := Catalog.registry.registerPackage "t" package

end PullFlow.Rehearsal
