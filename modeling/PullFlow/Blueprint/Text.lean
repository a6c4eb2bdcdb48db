import PullFlow.Blueprint.Shape
import PullFlow.Json.Read
import PullFlow.Error

/-!
Reading a document from JSON text and writing one back. The document and its flows are read field
by field, so a fault is reported where it is met; components are read as whole values first. A
fault of shape is placed where the structure that it spoils is left. The fields of a document or a
flow may also stand in a list, in their order.
-/

namespace PullFlow.Blueprint

open Json

/-- Leaves a structure after its content was read or spoiled. -/
def leaving {α : Type} (leave : Cursor → Except Stop Unit × Cursor) :
    Except Stop (α × Cursor) → Except Stop (α × Cursor)
  | .ok (a, cur) =>
      match leave cur with
      | (.ok (), cur) => .ok (a, cur)
      | (.error stop, _) => .error stop
  | .error (.floating fault cur) => .error (.placed fault (leave cur).2.place)
  | .error stop => .error stop

/-- Refuses a value of the wrong sort. Words, numbers and texts are read first, lists and objects
are not. -/
def wrongSort {α : Type} (expected : String) (cur : Cursor) : Except Stop α :=
  match cur.rest with
  | '[' :: _ => cur.reject (.wrongSort .list expected)
  | '\x7b' :: _ => cur.reject (.wrongSort .object expected)
  | _ =>
      match readValue 1 depthLimit cur with
      | .error stop => .error stop
      | .ok (.null, cur) => cur.reject (.wrongSort .null expected)
      | .ok (.bool b, cur) => cur.reject (.wrongSort (.bool b) expected)
      | .ok (.number n, cur) => cur.reject (.wrongSort (.number n) expected)
      | .ok (.text s, cur) => cur.reject (.wrongSort (.text s) expected)
      | .ok (_, cur) => cur.refuse .expectedValue

/-- The cursor at a value, or the fault that there is none. -/
def atValue (cur : Cursor) : Except Stop Cursor :=
  let cur := cur.skip
  match cur.rest with
  | [] => cur.refuse .endInValue
  | _ => .ok cur

/-- Reads null or a text. -/
def readName (cur : Cursor) : Except Stop (Option String × Cursor) := do
  let cur := cur.skip
  match cur.rest with
  | 'n' :: _ => return (none, ← readWord cur ['n', 'u', 'l', 'l'])
  | '"' :: rest =>
      let (s, cur) ← readText (cur.past '"' rest)
      return (some s, cur)
  | [] => cur.refuse .endInValue
  | _ => wrongSort "a string" cur

/-- Reads null or a component. -/
def readPart (depth : Nat) (cur : Cursor) : Except Stop (Option Part × Cursor) := do
  let cur := cur.skip
  match cur.rest with
  | 'n' :: _ => return (none, ← readWord cur ['n', 'u', 'l', 'l'])
  | _ =>
      let (v, cur) ← readValue (2 * cur.rest.length + 2) depth cur
      match Part.ofValue? v with
      | some part => return (some part, cur)
      | none => throw (.floating (.noVariant "ComponentRepr") cur)

/-- Reads items up to the end of a list, each by `item`. -/
def readEach {α : Type} (item : Cursor → Except Stop (α × Cursor)) :
    Nat → Bool → Cursor → Except Stop (List α × Cursor)
  | 0, _, cur => cur.refuse .tooDeep
  | fuel + 1, first, cur => do
      match ← nextItem? first cur with
      | none => return ([], cur.skip)
      | some cur =>
          let (a, cur) ← item cur
          let (rest, cur) ← readEach item fuel false cur
          return (a :: rest, cur)

/-- Reads a list, each item by `item`. -/
def readList {α : Type} (depth : Nat) (item : Nat → Cursor → Except Stop (α × Cursor))
    (cur : Cursor) : Except Stop (List α × Cursor) := do
  let cur ← atValue cur
  match cur.rest with
  | '[' :: rest =>
      let depth ← enter depth cur
      leaving leaveList (readEach (item depth) (2 * rest.length + 2) true (cur.past '[' rest))
  | _ => wrongSort "a sequence" cur

/-- Reads a link. -/
def readLink (depth : Nat) (cur : Cursor) : Except Stop (Link × Cursor) := do
  let (v, cur) ← readValue (2 * cur.rest.length + 2) depth cur
  match Link.ofValue? v with
  | some link => return (link, cur)
  | none => throw (.floating (.noVariant "ChainLink") cur)

/-- Reads an object of any values. -/
def readGlobals (depth : Nat) (cur : Cursor) :
    Except Stop (List (String × Value) × Cursor) := do
  let cur ← atValue cur
  match cur.rest with
  | '\x7b' :: rest =>
      let depth ← enter depth cur
      let (fields, cur) ←
        readFields (2 * rest.length + 2) depth true (cur.past '\x7b' rest)
      return (Fields.ofList (fields.map fun f => (f.1, f.2.tidy)), cur)
  | _ => wrongSort "a map" cur

/-- What a structure's reader has to know: its name, its fields in order, and how to read each into
the fields read so far. -/
structure RecordShape (σ : Type) where
  title : String
  fields : List String
  read : Nat → String → σ → Cursor → Except Stop (σ × Cursor)
  seen : String → σ → Bool

/-- Refuses a field that is unknown or was given before. -/
def RecordShape.admit {σ : Type} (shape : RecordShape σ) (key : String) (done : σ) (cur : Cursor) :
    Except Stop Unit :=
  if !shape.fields.contains key then .error (.floating (.unknownField key shape.fields) cur)
  else if shape.seen key done then .error (.floating (.repeatedField key) cur)
  else .ok ()

/-- Reads the fields of an object. -/
def RecordShape.readFields {σ : Type} (shape : RecordShape σ) (depth : Nat) :
    Nat → Bool → σ → Cursor → Except Stop (σ × Cursor)
  | 0, _, _, cur => cur.refuse .tooDeep
  | fuel + 1, first, done, cur => do
      match ← nextKey? first cur with
      | none => return (done, cur.skip)
      | some cur =>
          let (key, cur) ← readText cur
          shape.admit key done cur
          let cur ← readColon cur
          let (done, cur) ← shape.read depth key done cur
          RecordShape.readFields shape depth fuel false done cur

/-- Reads the fields from a list, as many as there are. -/
def RecordShape.readInOrder {σ : Type} (shape : RecordShape σ) (depth : Nat) :
    List String → Bool → σ → Cursor → Except Stop (σ × Cursor)
  | [], _, done, cur => .ok (done, cur)
  | key :: keys, first, done, cur => do
      match ← nextItem? first cur with
      | none => return (done, cur.skip)
      | some cur =>
          let (done, cur) ← shape.read depth key done cur
          RecordShape.readInOrder shape depth keys false done cur

/-- Reads a structure; `ofObject` and `ofList` finish what was read. -/
def RecordShape.readWhole {σ α : Type} (shape : RecordShape σ) (blank : σ)
    (ofObject ofList : σ → Except Fault α) (depth : Nat) (cur : Cursor) :
    Except Stop (α × Cursor) := do
  let cur ← atValue cur
  let finish (f : σ → Except Fault α) (r : Except Stop (σ × Cursor)) : Except Stop (α × Cursor) := do
    let (done, cur) ← r
    match f done with
    | .ok a => return (a, cur)
    | .error fault => throw (.floating fault cur)
  match cur.rest with
  | '\x7b' :: rest =>
      let depth ← enter depth cur
      leaving leaveObject (finish ofObject
        (shape.readFields depth (2 * rest.length + 2) true blank (cur.past '\x7b' rest)))
  | '[' :: rest =>
      let depth ← enter depth cur
      leaving leaveList (finish ofList
        (shape.readInOrder depth shape.fields true blank (cur.past '[' rest)))
  | _ => wrongSort ("struct " ++ shape.title) cur

/-- The fields of a flow read so far. -/
structure FlowFields where
  name : Option (Option String) := none
  source : Option (Option Part) := none
  operators : Option (List Link) := none
  sink : Option (Option Part) := none
  monitor : Option (Option Part) := none

def FlowFields.flow (f : FlowFields) : Flow :=
  ⟨f.name.getD none, f.source.getD none, f.operators.getD [], f.sink.getD none, f.monitor.getD none⟩

def flowShape : RecordShape FlowFields where
  title := "FlowBlueprint"
  fields := ["name", "source", "operators", "sink", "monitor"]
  seen key f :=
    if key = "name" then f.name.isSome
    else if key = "source" then f.source.isSome
    else if key = "operators" then f.operators.isSome
    else if key = "sink" then f.sink.isSome
    else f.monitor.isSome
  read depth key f cur := do
    if key = "name" then
      let (s, cur) ← readName cur
      return ({ f with name := some s }, cur)
    else if key = "source" then
      let (p, cur) ← readPart depth cur
      return ({ f with source := some p }, cur)
    else if key = "operators" then
      let (links, cur) ← readList depth readLink cur
      return ({ f with operators := some links }, cur)
    else if key = "sink" then
      let (p, cur) ← readPart depth cur
      return ({ f with sink := some p }, cur)
    else
      let (p, cur) ← readPart depth cur
      return ({ f with monitor := some p }, cur)

/-- Reads a flow. -/
def readFlow (depth : Nat) (cur : Cursor) : Except Stop (Flow × Cursor) :=
  flowShape.readWhole {} (fun f => .ok f.flow) (fun f => .ok f.flow) depth cur

/-- The fields of a document read so far. -/
structure DocumentFields where
  flows : Option (List Flow) := none
  globals : Option (List (String × Value)) := none

def documentShape : RecordShape DocumentFields where
  title := "FlowSetBlueprint"
  fields := ["flows", "globals"]
  seen key d := if key = "flows" then d.flows.isSome else d.globals.isSome
  read depth key d cur := do
    if key = "flows" then
      let (flows, cur) ← readList depth readFlow cur
      return ({ d with flows := some flows }, cur)
    else
      let (globals, cur) ← readGlobals depth cur
      return ({ d with globals := some globals }, cur)

/-- The document of the fields read; its flows must be there. -/
def DocumentFields.document (fault : Fault) (d : DocumentFields) : Except Fault Document :=
  match d.flows with
  | some flows => .ok ⟨flows, d.globals.getD []⟩
  | none => .error fault

/-- Reads a document. -/
def readDocument (depth : Nat) (cur : Cursor) : Except Stop (Document × Cursor) :=
  documentShape.readWhole {}
    (DocumentFields.document (.missingField "flows"))
    (DocumentFields.document
      (.wrongLength 0 ("struct " ++ documentShape.title ++ " with 2 elements")))
    depth cur

/-- The document a text holds. -/
def parse (s : String) : Except Error Document :=
  let result : Except Stop Document := do
    let (doc, cur) ← readDocument depthLimit (.ofText s)
    readEnd cur
    return doc
  match result with
  | .ok doc => .ok doc
  | .error stop =>
      let m := stop.misread
      .error (.document m.place.line m.place.column m.wording)

end PullFlow.Blueprint
