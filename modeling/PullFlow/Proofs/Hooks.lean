import PullFlow.Proofs.Pipeline
import Mathlib.Data.List.Forall2

/-!
The start and stop hooks of the components of a flow. Starting a flow comes to calls of hooks in the
order of the components, up to the first that fails; stopping it comes to one call for each running
component. The calls say all that the moves of a pipeline note and come to, and the stages that they
leave. Reads, payloads and wiring leave all stages, and setting up starts nothing.
-/

namespace PullFlow

/-- Where a component with hooks of its own stands in a flow. The sink of a tee stands where the tee
is among the operators. -/
inductive Place where
  | source
  | operator (i : Nat)
  | sink
  | monitor
  deriving DecidableEq, Repr

/-- A call of a start or stop hook and how it ended. -/
structure HookCall where
  place : Place
  hook : HookName
  result : Done
  notes : List Note

/-- A component with hooks of its own: where it stands, its stage, and how its start and its stop
hook would end. -/
structure Leaf where
  place : Place
  stage : Stage
  start : Done × List Note
  stop : Done × List Note

namespace Leaf

def mark (l : Leaf) : Place × Stage := (l.place, l.stage)

def startCall (l : Leaf) : HookCall := ⟨l.place, .start, l.start.1, l.start.2⟩

def stopCall (l : Leaf) : HookCall := ⟨l.place, .stop, l.stop.1, l.stop.2⟩

/-- Whether a start would succeed. -/
def starts (l : Leaf) : Bool := decide (l.stage = .initialised) && l.start.1.isOk

end Leaf

/-- The calls that a start of components comes to. Only what is initialised has its hook called, and
nothing is started after a failure. -/
def startCalls : List Leaf → List HookCall
  | [] => []
  | l :: ls =>
      if l.stage = .initialised then l.startCall :: (if l.starts then startCalls ls else []) else []

/-- The stages that a start of components leaves. -/
def started : List Leaf → List (Place × Stage)
  | [] => []
  | l :: ls => if l.starts then (l.place, .running) :: started ls else (l :: ls).map Leaf.mark

/-- The calls that a stop of components comes to. -/
def stopCalls (ls : List Leaf) : List HookCall :=
  (ls.filter fun l => decide (l.stage = .running)).map Leaf.stopCall

/-- A component with its own hooks. -/
def Component.leaf {β : Type} [Hooks β] (place : Place) (c : Component β) : Leaf :=
  ⟨place, c.stage, ((Hooks.start c.body).result, (Hooks.start c.body).notes),
    ((Hooks.stop c.body).result, (Hooks.stop c.body).notes)⟩

/-- The stage of an operator as its hooks see it. A tee whose sink is at another stage than itself
has no hook called any more. -/
def seenStage (op : Operator) : Stage :=
  match op.body.tee? with
  | some sink => if op.stage = sink.stage then op.stage else .stopped
  | none => op.stage

/-- An operator with its own hooks or those of the sink it is a tee to. -/
def operatorLeaf (place : Place) (op : Operator) : Leaf :=
  match op.body.tee? with
  | some sink => { sink.leaf place with stage := seenStage op }
  | none => Component.leaf place op

/-- Components one after the other, from a position on. -/
def seated {α : Type} (leaf : Nat → α → Leaf) (i : Nat) (items : List α) : List Leaf :=
  (items.zipIdx i).map fun x => leaf x.2 x.1

def operatorLeaves (ops : List Operator) : List Leaf :=
  seated (fun i => operatorLeaf (.operator i)) 0 ops

namespace Pipeline

/-- All components of a pipeline with hooks, in the order of the start. -/
def leaves (p : Pipeline) : List Leaf :=
  ([p.chain.source.leaf .source] ++ operatorLeaves p.chain.operators) ++ [p.sink.leaf .sink]

/-- The components of a pipeline with their stages. -/
def marks (p : Pipeline) : List (Place × Stage) := p.leaves.map Leaf.mark

end Pipeline

/-- The places of a pipeline with a number of operators, in the order of the start. -/
def places (n : Nat) : List Place :=
  ([Place.source] ++ (List.range n).map Place.operator) ++ [Place.sink]

/-! What moves of single components come to. -/

section Moves

variable {β : Type} {leaves : β → List Leaf} {b : β} {h : HookEnd β}

/-- A move of a component, or of several, that starts them. -/
structure Starting (leaves : β → List Leaf) (b : β) (h : HookEnd β) : Prop where
  notes : h.notes = (startCalls (leaves b)).flatMap (·.notes)
  result : h.result.isOk = (leaves b).all Leaf.starts
  marks : (leaves h.body).map Leaf.mark = started (leaves b)

/-- A move of a component, or of several, that stops them. -/
structure Stopping (leaves : β → List Leaf) (b : β) (h : HookEnd β) : Prop where
  notes : h.notes = (stopCalls (leaves b)).flatMap (·.notes)
  marks : (leaves h.body).map Leaf.mark = (leaves b).map fun l => (l.place, .stopped)

/-- A move of a component, or of several, that brings them from one stage to another. -/
structure Readying (before after : Stage) (leaves : β → List Leaf) (b : β) (h : HookEnd β) :
    Prop where
  marks : List.Forall₂ (fun l l' => l'.place = l.place ∧
    (l'.stage = l.stage ∨ l.stage = before ∧ l'.stage = after)) (leaves b) (leaves h.body)
  ready : h.result = .ok () → ∀ l ∈ leaves h.body, l.stage = after

end Moves

theorem starts_iff {l : Leaf} :
    l.starts = true ↔ l.stage = .initialised ∧ l.start.1.isOk = true := by
  simp [Leaf.starts]

theorem startCalls_append (ls ls' : List Leaf) : startCalls (ls ++ ls') =
    startCalls ls ++ if ls.all Leaf.starts then startCalls ls' else [] := by
  induction ls with
  | nil => rfl
  | cons l ls ih =>
      simp only [List.cons_append, startCalls, List.all_cons, ih]
      by_cases hl : l.starts = true
      · simp [hl, (starts_iff.mp hl).1]
      · by_cases hstage : l.stage = .initialised <;> simp [hl, hstage]

theorem started_append (ls ls' : List Leaf) : started (ls ++ ls') =
    started ls ++ if ls.all Leaf.starts then started ls' else ls'.map Leaf.mark := by
  induction ls with
  | nil => rfl
  | cons l ls ih =>
      simp only [List.cons_append, started, List.all_cons, ih]
      by_cases hl : l.starts = true <;> simp [hl]

theorem stopCalls_append (ls ls' : List Leaf) :
    stopCalls (ls ++ ls') = stopCalls ls ++ stopCalls ls' := by
  simp [stopCalls]

theorem HookEnd.each_of_ok {α : Type} {f : α → HookEnd α} {a : α} (items : List α)
    (h : (f a).result = .ok ()) : HookEnd.each f (a :: items) =
      ⟨(f a).body :: (HookEnd.each f items).body, (HookEnd.each f items).result,
        (f a).notes ++ (HookEnd.each f items).notes⟩ := by
  rw [HookEnd.each]
  simp only [h]

theorem HookEnd.each_of_error {α : Type} {f : α → HookEnd α} {a : α} {e : Error} (items : List α)
    (h : (f a).result = .error e) :
    HookEnd.each f (a :: items) = ⟨(f a).body :: items, .error e, (f a).notes⟩ := by
  rw [HookEnd.each]
  simp only [h]

theorem seated_cons {α : Type} (leaf : Nat → α → Leaf) (i : Nat) (a : α) (items : List α) :
    seated leaf i (a :: items) = [leaf i a] ++ seated leaf (i + 1) items := rfl

section Compose

variable {β : Type} {front back leaves : β → List Leaf} {b : β} {h : HookEnd β}
  {f : β → HookEnd β} {before after : Stage}

/-- Two moves that start components, the second on those that the first leaves alone. -/
theorem Starting.andThen (hfront : Starting front b h) (hback : ∀ b, Starting back b (f b))
    (hfirst : back h.body = back b) (hsecond : ∀ b, front (f b).body = front b) :
    Starting (fun b => front b ++ back b) b (h.andThen f) := by
  unfold HookEnd.andThen
  cases hresult : h.result with
  | ok u =>
      have hall : (front b).all Leaf.starts = true := by
        rw [← hfront.result, hresult]
        rfl
      obtain ⟨hnotes, hend, hmarks⟩ := hback h.body
      rw [hfirst] at hnotes hend hmarks
      constructor
      · simp [startCalls_append, hall, hfront.notes, hnotes]
      · simp [hall, hend]
      · simp [started_append, hall, hsecond, hfront.marks, hmarks]
  | error e =>
      have hall : (front b).all Leaf.starts = false := by
        rw [← hfront.result, hresult]
        rfl
      constructor
      · simp [startCalls_append, hall, hfront.notes]
      · simp [hall, hresult, Except.isOk, Except.toBool]
      · simp [started_append, hall, hfirst, hfront.marks]

theorem Starting.each {α : Type} {leaf : Nat → α → Leaf} {f : α → HookEnd α}
    (h : ∀ i a, Starting (fun a => [leaf i a]) a (f a)) (i : Nat) (items : List α) :
    Starting (seated leaf i) items (HookEnd.each f items) := by
  induction items generalizing i with
  | nil => exact ⟨rfl, rfl, rfl⟩
  | cons a items ih =>
      have hone := h i a
      have hrest := ih (i + 1)
      have hall := hone.result
      cases hresult : (f a).result with
      | ok u =>
          rw [hresult] at hall
          rw [HookEnd.each_of_ok items hresult]
          constructor
          · simp only [seated_cons, startCalls_append, ← hall, hone.notes, hrest.notes,
              List.flatMap_append]
            rfl
          · simp only [seated_cons, List.all_append, ← hall, hrest.result]
            rfl
          · simp only [seated_cons, started_append, ← hall, List.map_append, hone.marks,
              hrest.marks]
            rfl
      | error e =>
          rw [hresult] at hall
          rw [HookEnd.each_of_error items hresult]
          constructor
          · simp only [seated_cons, startCalls_append, ← hall, hone.notes]
            exact (congrArg _ (List.append_nil _)).symm
          · simp only [seated_cons, List.all_append, ← hall]
            rfl
          · simp only [seated_cons, started_append, ← hall, List.map_append, hone.marks]
            rfl

theorem Stopping.anyway (hfront : Stopping front b h) (hback : ∀ b, Stopping back b (f b))
    (hfirst : back h.body = back b) (hsecond : ∀ b, front (f b).body = front b) :
    Stopping (fun b => front b ++ back b) b (h.anyway f) := by
  obtain ⟨hnotes, hmarks⟩ := hback h.body
  rw [hfirst] at hnotes hmarks
  constructor
  · simp [HookEnd.anyway, stopCalls_append, hfront.notes, hnotes]
  · simp [HookEnd.anyway, hsecond, hfront.marks, hmarks]

theorem Stopping.all {α : Type} {leaf : Nat → α → Leaf} {f : α → HookEnd α}
    (h : ∀ i a, Stopping (fun a => [leaf i a]) a (f a)) (i : Nat) (items : List α) :
    Stopping (seated leaf i) items (HookEnd.all f items) := by
  induction items generalizing i with
  | nil => exact ⟨rfl, rfl⟩
  | cons a items ih =>
      have hone := h i a
      have hrest := ih (i + 1)
      constructor
      · simp only [HookEnd.all, seated_cons, stopCalls_append, hone.notes, hrest.notes,
          List.flatMap_append]
      · simp only [HookEnd.all, seated_cons, List.map_append, hone.marks, hrest.marks]

theorem Readying.andThen (hfront : Readying before after front b h)
    (hback : ∀ b, Readying before after back b (f b)) (hfirst : back h.body = back b)
    (hsecond : ∀ b, front (f b).body = front b) :
    Readying before after (fun b => front b ++ back b) b (h.andThen f) := by
  unfold HookEnd.andThen
  cases hresult : h.result with
  | ok u =>
      obtain ⟨hmarks, hready⟩ := hback h.body
      rw [hfirst] at hmarks
      constructor
      · simp only [hsecond]
        exact List.rel_append hfront.marks hmarks
      · intro hok l hl
        simp only [hsecond, List.mem_append] at hl
        exact hl.elim (hfront.ready hresult l) (hready hok l)
  | error e =>
      constructor
      · simp only [hfirst]
        exact List.rel_append hfront.marks (List.forall₂_same.mpr fun l _ => ⟨rfl, .inl rfl⟩)
      · intro hok
        rw [hresult] at hok
        cases hok

theorem Readying.each {α : Type} {leaf : Nat → α → Leaf} {f : α → HookEnd α}
    (h : ∀ i a, Readying before after (fun a => [leaf i a]) a (f a)) (i : Nat) (items : List α) :
    Readying before after (seated leaf i) items (HookEnd.each f items) := by
  induction items generalizing i with
  | nil => exact ⟨.nil, fun _ l hl => absurd hl List.not_mem_nil⟩
  | cons a items ih =>
      have hone := h i a
      have hrest := ih (i + 1)
      cases hresult : (f a).result with
      | ok u =>
          rw [HookEnd.each_of_ok items hresult]
          constructor
          · exact List.rel_append hone.marks hrest.marks
          · intro hok l hl
            rw [seated_cons] at hl
            exact (List.mem_append.mp hl).elim (hone.ready hresult l) (hrest.ready hok l)
      | error e =>
          rw [HookEnd.each_of_error items hresult]
          constructor
          · exact List.rel_append hone.marks (List.forall₂_same.mpr fun l _ => ⟨rfl, .inl rfl⟩)
          · intro hok
            cases hok

end Compose

namespace Component

variable {β : Type} [Hooks β] {c : Component β}

theorem start_of_ok (hstage : c.stage = .initialised)
    (hresult : (Hooks.start c.body).result = .ok ()) : c.start =
      ⟨{ c with body := (Hooks.start c.body).body, stage := .running }, .ok (),
        (Hooks.start c.body).notes⟩ := by
  simp [start, expect, after, hstage, hresult]

theorem start_of_error {e : Error} (hstage : c.stage = .initialised)
    (hresult : (Hooks.start c.body).result = .error e) :
    c.start =
      ⟨{ c with body := (Hooks.start c.body).body }, .error e, (Hooks.start c.body).notes⟩ := by
  simp [start, expect, after, hstage, hresult]

theorem stop_of_running (hstage : c.stage = .running) : c.stop =
    ⟨{ c with body := (Hooks.stop c.body).body, stage := .stopped }, (Hooks.stop c.body).result,
      (Hooks.stop c.body).notes⟩ := by
  simp [stop, HookEnd.map, hstage]

theorem stop_of_ne (hstage : c.stage ≠ .running) :
    c.stop = .pass { c with stage := .stopped } := by
  obtain ⟨kind, name, arguments, stage, context, body⟩ := c
  cases stage <;> first | rfl | exact absurd rfl hstage

theorem starting (place : Place) (c : Component β) :
    Starting (fun c => [leaf place c]) c c.start := by
  by_cases hstage : c.stage = .initialised
  · cases hresult : (Hooks.start c.body).result with
    | ok u =>
        rw [start_of_ok hstage hresult]
        constructor <;> simp [startCalls, started, leaf, Leaf.starts, Leaf.mark, Leaf.startCall,
          hstage, hresult, Except.isOk, Except.toBool]
    | error e =>
        rw [start_of_error hstage hresult]
        constructor <;> simp [startCalls, started, leaf, Leaf.starts, Leaf.mark, Leaf.startCall,
          hstage, hresult, Except.isOk, Except.toBool]
  · obtain ⟨e, hfail⟩ := start_of_ne hstage
    rw [hfail]
    constructor <;> simp [startCalls, started, leaf, Leaf.starts, Leaf.mark, HookEnd.fail, hstage,
      Except.isOk, Except.toBool]

theorem stopping (place : Place) (c : Component β) :
    Stopping (fun c => [leaf place c]) c c.stop := by
  by_cases hstage : c.stage = .running
  · rw [stop_of_running hstage]
    constructor <;> simp [stopCalls, leaf, Leaf.mark, Leaf.stopCall, hstage]
  · rw [stop_of_ne hstage]
    constructor <;> simp [stopCalls, leaf, Leaf.mark, HookEnd.pass, hstage]

section Ready

variable {before stage : Stage} {place : Place}

theorem readying_fail (e : Error) :
    Readying before stage (fun c => [leaf place c]) c (.fail c e) := by
  refine ⟨.cons ⟨rfl, .inl rfl⟩ .nil, fun hok => ?_⟩
  cases hok

theorem readying_after (hstage : c.stage = before) (h : HookEnd β) (ctx : Option Context) :
    Readying before stage (fun c => [leaf place c]) c (c.after h stage ctx) := by
  unfold after
  cases h.result with
  | ok u =>
      refine ⟨.cons ⟨rfl, .inr ⟨hstage, rfl⟩⟩ .nil, fun _ l hl => ?_⟩
      rw [List.mem_singleton.mp hl]
      rfl
  | error e =>
      refine ⟨.cons ⟨rfl, .inl rfl⟩ .nil, fun hok => ?_⟩
      cases hok

theorem setContext_readying (ctx : Context) (c : Component β) :
    Readying .created .contextualized (fun c => [leaf place c]) c (c.setContext ctx) := by
  obtain ⟨e, hfail⟩ | ⟨hstage, hafter⟩ := setContext_eq ctx c
  · rw [hfail]
    exact readying_fail e
  · rw [hafter]
    exact readying_after hstage _ _

theorem setUp_readying (st : Scope.Store) (c : Component β) :
    Readying .contextualized .initialised (fun c => [leaf place c]) c (c.setUp st) := by
  obtain ⟨e, hfail⟩ | ⟨hstage, ctx, params, -, -, hafter⟩ := setUp_eq st c
  · rw [hfail]
    exact readying_fail e
  · rw [hafter]
    exact readying_after hstage _ _

end Ready

end Component

/-! An operator has its own hooks, or those of the sink that it is a tee to. -/

section Tee

variable {op : Operator} {sink : Sink} {place : Place}

theorem operatorLeaf_plain (h : op.body.tee? = none) :
    operatorLeaf place op = Component.leaf place op := by
  rw [operatorLeaf, h]

theorem body_of_tee? (h : op.body.tee? = some sink) : op.body = .tee sink := by
  cases hbody : op.body with
  | tee other =>
      rw [hbody] at h
      exact congrArg _ (Option.some.inj h)
  | _ =>
      rw [hbody] at h
      cases h

theorem seenStage_of_ne {stage : Stage} (h : op.body = .tee sink) (hop : op.stage ≠ stage)
    (hstage : stage ≠ .stopped) : seenStage op ≠ stage := by
  rw [seenStage, h]
  change (if op.stage = sink.stage then op.stage else .stopped) ≠ stage
  split
  · exact hop
  · exact hstage.symm

@[simp] theorem operatorLeaf_place (place : Place) (op : Operator) :
    (operatorLeaf place op).place = place := by
  unfold operatorLeaf
  split <;> rfl

@[simp] theorem operatorLeaf_stage (place : Place) (op : Operator) :
    (operatorLeaf place op).stage = seenStage op := by
  unfold operatorLeaf seenStage
  cases op.body.tee? <;> rfl

theorem seenStage_stopped (h : op.stage = .stopped) : seenStage op = .stopped := by
  unfold seenStage
  split
  · split
    · exact h
    · rfl
  · exact h

theorem operator_starting (place : Place) (op : Operator) :
    Starting (fun op => [operatorLeaf place op]) op (Component.start op) := by
  cases htee : op.body.tee? with
  | none =>
      have hbody : (Component.start op).body.body.tee? = none :=
        Component.start_keeps (P := fun b : OperatorBody => b.tee? = none) htee fun _ =>
          OperatorBody.tee?_start
      obtain ⟨hnotes, hresult, hmarks⟩ := Component.starting place op
      constructor
      · simpa only [operatorLeaf_plain htee] using hnotes
      · simpa only [operatorLeaf_plain htee] using hresult
      · simpa only [operatorLeaf_plain htee, operatorLeaf_plain hbody] using hmarks
  | some sink =>
      have hbody := body_of_tee? htee
      have hhook : Hooks.start op.body = sink.start.map .tee := by
        rw [hbody]
        rfl
      by_cases hstage : op.stage = .initialised
      · by_cases hsink : sink.stage = .initialised
        · -- the sink's hook is called
          cases hresult : (Hooks.start sink.body).result with
          | ok u =>
              have hstart := Component.start_of_ok hsink hresult
              rw [Component.start_of_ok hstage (by rw [hhook, hstart]; rfl), hhook, hstart]
              constructor <;>
                simp [startCalls, started, operatorLeaf, seenStage, OperatorBody.tee?, hbody,
                  Component.leaf, Leaf.starts, Leaf.mark, Leaf.startCall, HookEnd.map, hstage,
                  hsink, hresult, Except.isOk, Except.toBool]
          | error e =>
              have hstart := Component.start_of_error hsink hresult
              rw [Component.start_of_error (e := e) hstage (by rw [hhook, hstart]; rfl), hhook,
                hstart]
              constructor <;>
                simp [startCalls, started, operatorLeaf, seenStage, OperatorBody.tee?, hbody,
                  Component.leaf, Leaf.starts, Leaf.mark, Leaf.startCall, HookEnd.map, hstage,
                  hsink, hresult, Except.isOk, Except.toBool]
        · -- the sink refuses
          obtain ⟨e, hfail⟩ := Component.start_of_ne hsink
          rw [Component.start_of_error (e := e) hstage (by rw [hhook, hfail]; rfl), hhook, hfail]
          constructor <;>
            simp [startCalls, started, operatorLeaf, seenStage, OperatorBody.tee?, hbody,
              Component.leaf, Leaf.starts, Leaf.mark, HookEnd.map, HookEnd.fail, hstage,
              Ne.symm hsink, Except.isOk, Except.toBool]
      · obtain ⟨e, hfail⟩ := Component.start_of_ne hstage
        have hseen := seenStage_of_ne hbody hstage (by decide)
        rw [hfail]
        constructor <;>
          simp [startCalls, started, operatorLeaf, htee, hseen, Leaf.starts, Leaf.mark,
            HookEnd.fail, Except.isOk, Except.toBool]

theorem operator_stopping (place : Place) (op : Operator) :
    Stopping (fun op => [operatorLeaf place op]) op (Component.stop op) := by
  cases htee : op.body.tee? with
  | none =>
      have hbody : (Component.stop op).body.body.tee? = none :=
        Component.stop_keeps (P := fun b : OperatorBody => b.tee? = none) htee fun _ =>
          OperatorBody.tee?_stop
      obtain ⟨hnotes, hmarks⟩ := Component.stopping place op
      constructor
      · simpa only [operatorLeaf_plain htee] using hnotes
      · simpa only [operatorLeaf_plain htee, operatorLeaf_plain hbody] using hmarks
  | some sink =>
      have hbody := body_of_tee? htee
      have hhook : Hooks.stop op.body = sink.stop.map .tee := by
        rw [hbody]
        rfl
      by_cases hstage : op.stage = .running
      · rw [Component.stop_of_running hstage, hhook]
        by_cases hsink : sink.stage = .running
        · rw [Component.stop_of_running hsink]
          constructor <;>
            simp [stopCalls, operatorLeaf, seenStage, OperatorBody.tee?, hbody, Component.leaf,
              Leaf.mark, Leaf.stopCall, HookEnd.map, hstage, hsink]
        · rw [Component.stop_of_ne hsink]
          constructor <;>
            simp [stopCalls, operatorLeaf, seenStage, OperatorBody.tee?, hbody, Component.leaf,
              Leaf.mark, HookEnd.map, HookEnd.pass, hstage, Ne.symm hsink]
      · have hseen := seenStage_of_ne hbody hstage (by decide)
        rw [Component.stop_of_ne hstage]
        constructor
        · simp [stopCalls, operatorLeaf, htee, hseen, HookEnd.pass]
        · have hstopped : seenStage { op with stage := .stopped } = .stopped :=
            seenStage_stopped rfl
          simp [operatorLeaf, htee, Leaf.mark, HookEnd.pass, hstopped]

variable {before stage : Stage}

/-- A move of an operator that has hooks of its own, with what it does to any component. -/
theorem Readying.plain {h : HookEnd Operator} (hop : op.body.tee? = none)
    (hbody : h.body.body.tee? = none)
    (hmoves : Readying before stage (fun c => [Component.leaf place c]) op h) :
    Readying before stage (fun op => [operatorLeaf place op]) op h := by
  obtain ⟨hmarks, hready⟩ := hmoves
  constructor
  · simpa only [operatorLeaf_plain hop, operatorLeaf_plain hbody] using hmarks
  · simpa only [operatorLeaf_plain hbody] using hready

theorem operator_readying_fail (e : Error) :
    Readying before stage (fun op => [operatorLeaf place op]) op (.fail op e) := by
  refine ⟨.cons ⟨rfl, .inl rfl⟩ .nil, fun hok => ?_⟩
  cases hok

/-- A tee is brought to a stage along with its sink. -/
theorem operator_readying_tee {h : HookEnd Sink} {ctx : Option Context} (hstage : op.stage = before)
    (hbody : op.body = .tee sink)
    (hsink : (∃ e, h = .fail sink e) ∨
      sink.stage = before ∧ ∃ k ctx, h = sink.after k stage ctx) :
    Readying before stage (fun op => [operatorLeaf place op]) op
      (op.after (h.map .tee) stage ctx) := by
  obtain ⟨e, rfl⟩ | ⟨hsame, k, ctx', rfl⟩ := hsink
  · have hfail : op.after ((HookEnd.fail sink e).map .tee) stage ctx = .fail op e := by
      simp [Component.after, HookEnd.map, HookEnd.fail, ← hbody]
    rw [hfail]
    exact operator_readying_fail e
  · cases hk : k.result with
    | ok u =>
        have hok : op.after ((sink.after k stage ctx').map .tee) stage ctx =
            ⟨{ op with
              body := .tee { sink with body := k.body, stage := stage, context := ctx' },
              stage := stage, context := ctx }, .ok (), k.notes⟩ := by
          simp [Component.after, HookEnd.map, hk]
        rw [hok]
        refine ⟨.cons ⟨by simp, .inr ⟨?_, ?_⟩⟩ .nil, fun _ l hl => ?_⟩
        · simp [seenStage, OperatorBody.tee?, hbody, hstage, hsame]
        · simp [seenStage, OperatorBody.tee?]
        · rw [List.mem_singleton.mp hl]
          simp [seenStage, OperatorBody.tee?]
    | error e =>
        have herror : op.after ((sink.after k stage ctx').map .tee) stage ctx =
            ⟨{ op with body := .tee { sink with body := k.body } }, .error e, k.notes⟩ := by
          simp [Component.after, HookEnd.map, hk]
        rw [herror]
        refine ⟨.cons ⟨by simp, .inl ?_⟩ .nil, fun hok => ?_⟩
        · simp [seenStage, OperatorBody.tee?, hbody]
        · cases hok

theorem operator_setContext_readying (ctx : Context) (place : Place) (op : Operator) :
    Readying .created .contextualized (fun op => [operatorLeaf place op]) op
      (Component.setContext ctx op) := by
  cases htee : op.body.tee? with
  | none =>
      refine .plain htee ?_ (Component.setContext_readying ctx op)
      exact Component.setContext_keeps (P := fun b : OperatorBody => b.tee? = none) htee fun _ hb =>
        OperatorBody.tee?_attach hb ctx
  | some sink =>
      have hbody := body_of_tee? htee
      obtain ⟨e, hfail⟩ | ⟨hstage, hafter⟩ := Component.setContext_eq ctx op
      · rw [hfail]
        exact operator_readying_fail e
      · have hhook : Hooks.attach ctx op.body = (sink.setContext ctx).map .tee := by
          rw [hbody]
          rfl
        rw [hafter, hhook]
        refine operator_readying_tee hstage hbody ?_
        exact (Component.setContext_eq ctx sink).imp_right fun h => ⟨h.1, _, _, h.2⟩

theorem operator_setUp_readying (st : Scope.Store) (place : Place) (op : Operator) :
    Readying .contextualized .initialised (fun op => [operatorLeaf place op]) op
      (Component.setUp st op) := by
  cases htee : op.body.tee? with
  | none =>
      refine .plain htee ?_ (Component.setUp_readying st op)
      exact Component.setUp_keeps (P := fun b : OperatorBody => b.tee? = none) htee
        fun _ params _ hb => OperatorBody.tee?_initialise hb st params
  | some sink =>
      have hbody := body_of_tee? htee
      obtain ⟨e, hfail⟩ | ⟨hstage, ctx, params, -, -, hafter⟩ := Component.setUp_eq st op
      · rw [hfail]
        exact operator_readying_fail e
      · have hhook : Hooks.initialise st ctx params op.body = (sink.setUp st).map .tee := by
          rw [hbody]
          rfl
        rw [hafter, hhook]
        refine operator_readying_tee hstage hbody ?_
        refine (Component.setUp_eq st sink).imp_right fun h => ?_
        obtain ⟨hsame, _, _, -, -, hsink⟩ := h
        exact ⟨hsame, _, _, hsink⟩

end Tee

namespace Pipeline

variable {p : Pipeline}

theorem operatorLeaves_withOperators (c : Chain) (ops : List Operator) :
    operatorLeaves (c.withOperators ops).operators = operatorLeaves ops := by
  rw [Holds.operators_withOperators]

/-- Moves of source and operators leave the sink. -/
theorem sink_andThen (f : Source → HookEnd Source) (g : List Operator → HookEnd (List Operator))
    (p : Pipeline) : ((p.onSource f).andThen (onOperators g)).body.sink = p.sink :=
  HookEnd.andThen_keeps (P := fun q : Pipeline => q.sink = p.sink) rfl fun _ hq => hq

theorem start_starting (p : Pipeline) : Starting leaves p p.start := by
  have hsource : Starting (fun p => [p.chain.source.leaf .source]) p
      (p.onSource Component.start) :=
    have h := Component.starting .source p.chain.source
    ⟨h.notes, h.result, h.marks⟩
  have hoperators (p : Pipeline) : Starting (fun p => operatorLeaves p.chain.operators) p
      (p.onOperators (HookEnd.each Component.start)) := by
    have h := Starting.each (fun i => operator_starting (.operator i)) 0 p.chain.operators
    exact ⟨h.notes, h.result, (congrArg _ (operatorLeaves_withOperators _ _)).trans h.marks⟩
  have hsink (p : Pipeline) : Starting (fun p => [p.sink.leaf .sink]) p
      (p.onSink Component.start) :=
    have h := Component.starting .sink p.sink
    ⟨h.notes, h.result, h.marks⟩
  have hchain := hsource.andThen hoperators rfl fun _ => rfl
  exact hchain.andThen hsink (by rw [sink_andThen]) fun _ => rfl

theorem stop_stopping (p : Pipeline) : Stopping leaves p p.stop := by
  have hsource : Stopping (fun p => [p.chain.source.leaf .source]) p (p.onSource Component.stop) :=
    have h := Component.stopping .source p.chain.source
    ⟨h.notes, h.marks⟩
  have hoperators (p : Pipeline) : Stopping (fun p => operatorLeaves p.chain.operators) p
      (p.onOperators (HookEnd.all Component.stop)) := by
    have h := Stopping.all (fun i => operator_stopping (.operator i)) 0 p.chain.operators
    exact ⟨h.notes, (congrArg _ (operatorLeaves_withOperators _ _)).trans h.marks⟩
  have hsink (p : Pipeline) : Stopping (fun p => [p.sink.leaf .sink]) p (p.onSink Component.stop) :=
    have h := Component.stopping .sink p.sink
    ⟨h.notes, h.marks⟩
  have hchain := hsource.anyway hoperators rfl fun _ => rfl
  exact hchain.anyway hsink rfl fun _ => rfl

section Readies

variable {before stage : Stage} {source : Source → HookEnd Source}
  {operator : Operator → HookEnd Operator} {sink : Sink → HookEnd Sink}

/-- A move of all components, up to the first failure, that brings each to a stage. -/
theorem readying_all
    (hsource : ∀ c, Readying before stage (fun c => [Component.leaf .source c]) c (source c))
    (hoperator : ∀ i op, Readying before stage (fun op => [operatorLeaf (.operator i) op]) op
      (operator op))
    (hsink : ∀ c, Readying before stage (fun c => [Component.leaf .sink c]) c (sink c))
    (p : Pipeline) : Readying before stage leaves p
      (((p.onSource source).andThen (onOperators (HookEnd.each operator))).andThen
        (onSink sink)) := by
  have hfirst : Readying before stage (fun p => [p.chain.source.leaf .source]) p
      (p.onSource source) :=
    have h := hsource p.chain.source
    ⟨h.marks, h.ready⟩
  have hoperators (p : Pipeline) : Readying before stage (fun p => operatorLeaves p.chain.operators)
      p (p.onOperators (HookEnd.each operator)) := by
    have h := Readying.each hoperator 0 p.chain.operators
    have hleaves :=
      operatorLeaves_withOperators p.chain (HookEnd.each operator p.chain.operators).body
    exact ⟨by rw [onOperators, HookEnd.map, hleaves]; exact h.marks,
      by rw [onOperators, HookEnd.map, hleaves]; exact h.ready⟩
  have hlast (p : Pipeline) : Readying before stage (fun p => [p.sink.leaf .sink]) p
      (p.onSink sink) :=
    have h := hsink p.sink
    ⟨h.marks, h.ready⟩
  have hchain := hfirst.andThen hoperators rfl fun _ => rfl
  exact hchain.andThen hlast (by rw [sink_andThen]) fun _ => rfl

end Readies

theorem setContext_readying (ctx : Context) (p : Pipeline) :
    Readying .created .contextualized leaves p (p.setContext ctx) :=
  readying_all (Component.setContext_readying ctx)
    (fun i => operator_setContext_readying ctx (.operator i)) (Component.setContext_readying ctx) p

theorem setUp_readying (st : Scope.Store) (p : Pipeline) :
    Readying .contextualized .initialised leaves p (p.setUp st) :=
  readying_all (Component.setUp_readying st) (fun i => operator_setUp_readying st (.operator i))
    (Component.setUp_readying st) p

theorem marks_eq (p : Pipeline) : p.marks = ([(Place.source, p.chain.source.stage)] ++
    ((p.chain.operators.map seenStage).zipIdx.map fun x => (Place.operator x.2, x.1))) ++
      [(Place.sink, p.sink.stage)] := by
  simp only [marks, leaves, operatorLeaves, seated, List.map_append, List.map_map, List.zipIdx_map,
    List.map_cons, List.map_nil]
  congr 2
  refine List.map_congr_left fun x _ => ?_
  simp [Leaf.mark]

/-- Pipelines whose components are at the same stages. -/
theorem marks_congr {q : Pipeline} (hsource : q.chain.source.stage = p.chain.source.stage)
    (hoperators : q.chain.operators.map seenStage = p.chain.operators.map seenStage)
    (hsink : q.sink.stage = p.sink.stage) : q.marks = p.marks := by
  rw [marks_eq, marks_eq, hsource, hoperators, hsink]

theorem marks_places (p : Pipeline) : p.marks.map Prod.fst = places p.chain.operators.length := by
  have hseats (stages : List Stage) :
      (stages.zipIdx.map fun x => Place.operator x.2) =
        (List.range stages.length).map .operator := by
    rw [List.range_eq_range', ← List.zipIdx_map_snd 0 stages, List.map_map]
    rfl
  rw [marks_eq, places, ← List.length_map (f := seenStage), ← hseats]
  simp only [List.map_append, List.map_cons, List.map_nil, List.map_map]
  rfl

end Pipeline

/-! Reads, payloads and wiring leave the stages. -/

namespace OperatorBody

/-- The stage of the sink of a tee. -/
def teeStage (b : OperatorBody) : Option Stage := b.tee?.map (·.stage)

theorem teeStage_begin (b : OperatorBody) (now : Nat) (above : String) :
    (b.begin now above).1.teeStage = b.teeStage := by
  unfold begin
  split <;> first | rfl | (split <;> rfl)

theorem teeStage_afterSink (sink : Sink) (v : Value) (m : SinkBody × SinkMove) :
    (afterSink sink v m).1.teeStage = some sink.stage := by
  obtain ⟨body, move⟩ := m
  cases move <;> rfl

theorem teeStage_receive (b : OperatorBody) (now : Nat) (v : Value) :
    (receive now v b).1.teeStage = b.teeStage := by
  cases b with
  | tee sink => exact teeStage_afterSink sink v _
  | feed left =>
      simp only [receive]
      split <;> rfl
  | _ => rfl

theorem teeStage_resume (b : OperatorBody) (now : Nat) (w : OperatorWait) (answer : Outcome) :
    (b.resume now w answer).1.teeStage = b.teeStage := by
  unfold resume
  split
  · exact teeStage_receive b now _
  · split <;> rfl
  · rfl
  · split <;> rfl
  · split <;> rfl
  · rfl
  · rfl
  · split
    · exact teeStage_afterSink _ _ _
    · rfl
  · split
    · split <;> rfl
    · rfl
  · split <;> rfl
  · rfl

end OperatorBody

theorem seenStage_of_teeStage {op : Operator} {body : OperatorBody}
    (h : body.teeStage = op.body.teeStage) : seenStage { op with body := body } = seenStage op := by
  have hseen (op : Operator) : seenStage op =
      (op.body.teeStage.map fun stage => if op.stage = stage then op.stage else .stopped).getD
        op.stage := by
    rw [seenStage, OperatorBody.teeStage]
    cases op.body.tee? <;> rfl
  rw [hseen, hseen, h]

namespace Chain

variable {c c' : Chain}

/-- Source and operators are at the same stages. -/
structure Steady (c c' : Chain) : Prop where
  source : c'.source.stage = c.source.stage
  operators : c'.operators.map seenStage = c.operators.map seenStage

theorem steady_afterSource (c : Chain) (m : SourceBody × SourceMove) :
    c.Steady (c.afterSource m).1 := by
  obtain ⟨body, move⟩ := m
  cases move <;> exact ⟨rfl, rfl⟩

/-- An operator that moves stays at its stage between the idle and the waiting ones. -/
theorem steady_afterOperator {op : Operator} {m : OperatorBody × OperatorMove}
    (hsource : c'.source = c.source) (hm : m.1.teeStage = op.body.teeStage)
    (hoperators : c.operators = c'.idle.reverse ++ op :: c'.waiting.map (·.1)) :
    c.Steady (c'.afterOperator op m).1 := by
  constructor
  · obtain ⟨body, move⟩ := m
    cases move <;> exact congrArg Component.stage hsource
  · rw [operators_afterOperator, hoperators]
    simp [seenStage_of_teeStage hm]

theorem steady_step (c : Chain) (now : Nat) (p : PullPoint) (answer : Outcome) :
    c.Steady (c.step now p answer).1 := by
  have hdeliver (out : Outcome) : c.Steady (c.deliver now out).1 := by
    unfold deliver
    split
    · exact ⟨rfl, rfl⟩
    · next op w waiting hwaiting =>
      exact steady_afterOperator rfl (op.body.teeStage_resume now w out)
        (by simp [operators, hwaiting])
  cases p with
  | enter =>
      change c.Steady (c.enter now).1
      unfold enter
      split
      · exact steady_afterSource c _
      · next op idle hidle =>
        exact steady_afterOperator rfl (op.body.teeStage_begin now _) (by simp [operators, hidle])
  | source w => exact steady_afterSource c _
  | asked => exact hdeliver answer
  | reply out => exact hdeliver out

end Chain

namespace Pipeline

theorem marks_step (p : Pipeline) (now : Nat) (point : PullPoint) (answer : Outcome) :
    marks { p with chain := (p.chain.step now point answer).1 } = p.marks := by
  have hsteady := p.chain.steady_step now point answer
  exact marks_congr hsteady.source hsteady.operators rfl

theorem marks_sinkBody (p : Pipeline) (body : SinkBody) :
    marks { p with sink := { p.sink with body := body } } = p.marks := marks_congr rfl rfl rfl

theorem marks_sourceBody (p : Pipeline) (body : SourceBody) :
    marks { p with chain := { p.chain with source := { p.chain.source with body := body } } } =
      p.marks := marks_congr rfl rfl rfl

theorem marks_wire (inflows : List Outflow) (p : Pipeline) :
    (p.wire inflows).body.marks = p.marks := by
  unfold wire
  dsimp only
  split
  · exact marks_congr rfl rfl rfl
  · exact marks_congr rfl rfl rfl

end Pipeline

/-! What the calls of a start are like. -/

/-- Calls of start hooks that go through places in order, up to the first failure. -/
structure StartsInOrder (order : List Place) (calls : List HookCall) : Prop where
  hook : ∀ c ∈ calls, c.hook = .start
  inOrder : calls.map (·.place) <+: order
  success : ∀ c ∈ calls.dropLast, c.result.isOk = true
  complete : (∀ c ∈ calls, c.result.isOk = true) → calls.map (·.place) = order

/-- Whether the start hook at a place was called and succeeded. -/
def succeeded (calls : List HookCall) (place : Place) : Bool :=
  calls.any fun c => decide (c.hook = .start) && decide (c.place = place) && c.result.isOk

variable {order : List Place} {calls : List HookCall} {l : Leaf} {ls : List Leaf}

theorem StartsInOrder.nil : StartsInOrder [] [] :=
  ⟨List.forall_mem_nil _, List.prefix_rfl, List.forall_mem_nil _, fun _ => rfl⟩

/-- After a failure nothing more is called. -/
theorem StartsInOrder.failed (h : StartsInOrder order calls)
    (hfailed : ¬ ∀ c ∈ calls, c.result.isOk = true) (more : List Place) :
    StartsInOrder (order ++ more) calls :=
  ⟨h.hook, h.inOrder.trans (List.prefix_append ..), h.success, fun hall => absurd hall hfailed⟩

/-- One more component is started. -/
theorem StartsInOrder.snoc (h : StartsInOrder order calls)
    (hall : ∀ c ∈ calls, c.result.isOk = true) (c : HookCall) (hc : c.hook = .start) :
    StartsInOrder (order ++ [c.place]) (calls ++ [c]) := by
  have hplaces : (calls ++ [c]).map (·.place) = order ++ [c.place] := by
    rw [List.map_append, h.complete hall]
    rfl
  refine ⟨fun d hd => ?_, hplaces ▸ List.prefix_rfl, ?_, fun _ => hplaces⟩
  · obtain hd | hd := List.mem_append.mp hd
    · exact h.hook d hd
    · exact List.mem_singleton.mp hd ▸ hc
  · rw [List.dropLast_concat]
    exact hall

theorem startCalls_cons (hl : l.stage = .initialised) (ls : List Leaf) :
    startCalls (l :: ls) = l.startCall :: if l.starts then startCalls ls else [] := by
  rw [startCalls, if_pos hl]

theorem isOk_startCall {l : Leaf} (hl : l.stage = .initialised) :
    l.startCall.result.isOk = l.starts := by
  simp [Leaf.startCall, Leaf.starts, hl]

theorem startsInOrder_startCalls (h : ∀ l ∈ ls, l.stage = .initialised) :
    StartsInOrder (ls.map (·.place)) (startCalls ls) := by
  induction ls with
  | nil => exact .nil
  | cons l ls ih =>
      obtain ⟨hl, hls⟩ := List.forall_mem_cons.mp h
      have hopens := ih hls
      have hok := isOk_startCall hl
      rw [startCalls_cons hl]
      split
      · next hstarts =>
        rw [hstarts] at hok
        refine ⟨List.forall_mem_cons.mpr ⟨rfl, hopens.hook⟩, ?_, ?_, fun hall => ?_⟩
        · exact List.prefix_cons_inj _ |>.mpr hopens.inOrder
        · cases hcalls : startCalls ls with
          | nil => exact List.forall_mem_nil _
          | cons c calls =>
              rw [List.dropLast_cons_cons, ← hcalls]
              exact List.forall_mem_cons.mpr ⟨hok, hopens.success⟩
        · rw [List.map_cons, List.map_cons, hopens.complete (List.forall_mem_cons.mp hall).2]
          rfl
      · next hstarts =>
        refine ⟨List.forall_mem_singleton.mpr rfl, ?_, List.forall_mem_nil _, fun hall => ?_⟩
        · exact List.prefix_cons_inj _ |>.mpr List.nil_prefix
        · rw [List.forall_mem_singleton.mp hall] at hok
          exact absurd hok.symm hstarts

theorem startCalls_isOk (h : ∀ l ∈ ls, l.stage = .initialised) :
    (∀ c ∈ startCalls ls, c.result.isOk = true) ↔ ls.all Leaf.starts = true := by
  induction ls with
  | nil => exact ⟨fun _ => rfl, fun _ => List.forall_mem_nil _⟩
  | cons l ls ih =>
      obtain ⟨hl, hls⟩ := List.forall_mem_cons.mp h
      rw [startCalls_cons hl, List.forall_mem_cons, isOk_startCall hl, List.all_cons,
        Bool.and_eq_true]
      refine and_congr_right fun hstarts => ?_
      rw [if_pos hstarts]
      exact ih hls

theorem started_places (ls : List Leaf) : (started ls).map Prod.fst = ls.map (·.place) := by
  induction ls with
  | nil => rfl
  | cons l ls ih =>
      rw [started]
      split
      · rw [List.map_cons, ih]
        rfl
      · rw [List.map_map]
        rfl

/-- A start leaves running just what it has started with success. -/
theorem running_started (h : ∀ l ∈ ls, l.stage = .initialised) (hnodup : (ls.map (·.place)).Nodup) :
    ∀ m ∈ started ls, m.2 = .running ↔ succeeded (startCalls ls) m.1 = true := by
  induction ls with
  | nil => exact List.forall_mem_nil _
  | cons l ls ih =>
      obtain ⟨hl, hls⟩ := List.forall_mem_cons.mp h
      obtain ⟨hnew, hrest⟩ := List.nodup_cons.mp hnodup
      intro m hm
      rw [started] at hm
      rw [startCalls_cons hl]
      split at hm
      · next hstarts =>
        have hok := (isOk_startCall hl).trans hstarts
        rw [if_pos hstarts]
        obtain rfl | hm := List.mem_cons.mp hm
        · simp [succeeded, Leaf.startCall] at hok ⊢
          simp [hok]
        · have hplace : l.place ≠ m.1 := by
            intro hsame
            rw [← started_places] at hnew
            exact hnew (List.mem_map.mpr ⟨m, hm, hsame.symm⟩)
          rw [ih hls hrest m hm]
          simp [succeeded, Leaf.startCall, hplace]
      · next hstarts =>
        have hfails := isOk_startCall hl
        rw [Bool.not_eq_true] at hstarts
        rw [hstarts] at hfails
        have hstage : m.2 = .initialised := by
          obtain ⟨l', hl', rfl⟩ := List.mem_map.mp hm
          exact h l' hl'
        simp [hstage, hstarts, succeeded, hfails]

theorem places_nodup (n : Nat) : (places n).Nodup := by
  have hoperators : ((List.range n).map Place.operator).Nodup :=
    List.pairwise_map.mpr (List.nodup_range.imp fun hij => mt Place.operator.inj hij)
  refine List.nodup_append.mpr ⟨List.nodup_append.mpr ⟨List.pairwise_singleton _ _, hoperators, ?_⟩,
    List.pairwise_singleton _ _, ?_⟩
  · simp
  · simp

/-- What a start that succeeds leaves runs. -/
theorem started_running (h : ls.all Leaf.starts = true) :
    ∀ x ∈ started ls, x.2 = .running := by
  induction ls with
  | nil => exact List.forall_mem_nil _
  | cons l ls ih =>
      rw [List.all_cons, Bool.and_eq_true] at h
      rw [started, if_pos h.1]
      exact List.forall_mem_cons.mpr ⟨rfl, ih h.2⟩

theorem Operator.stage_of_seenStage {op : Operator} (h : seenStage op = .running) :
    op.stage = .running := by
  unfold seenStage at h
  split at h
  · split at h
    · exact h
    · cases h
  · exact h

/-- Whose components are all seen running, has them running. -/
theorem Pipeline.running_of_marks {p : Pipeline} (h : ∀ x ∈ p.marks, x.2 = .running) :
    p.chain.source.stage = .running ∧ ∀ op ∈ p.chain.operators, op.stage = .running := by
  rw [Pipeline.marks_eq] at h
  obtain ⟨hchain, _⟩ := List.forall_mem_append.mp h
  obtain ⟨hsource, hoperators⟩ := List.forall_mem_append.mp hchain
  refine ⟨hsource _ (List.mem_singleton.mpr rfl), fun op hop => ?_⟩
  obtain ⟨i, hi, rfl⟩ := List.mem_iff_getElem.mp hop
  refine Operator.stage_of_seenStage (hoperators (.operator i, _) ?_)
  refine List.mem_map.mpr ⟨(seenStage p.chain.operators[i], i), ?_, rfl⟩
  exact List.mem_zipIdx_iff_getElem?.mpr (by simp [hi])

end PullFlow
