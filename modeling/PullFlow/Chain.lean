import PullFlow.Operator
import PullFlow.Source

/-!
Chains: a source followed by operators. Reading a chain asks the last operator, which asks the node
above it, and so on up to the source; the values come back the same way. A read may be suspended
while a node waits for its surroundings, so a chain remembers how far up the read has come: the
operators below that point wait, those above are idle.

Every node passes the errors of the nodes above through its own relabelling, and since a relabelled
error of an abstract component is relabelled again further down, the reader sees the kind of the
last node.
-/

namespace PullFlow

/-- A source and its operators. `idle` holds the operators that the read has not reached, the
nearest to the reader first; `waiting` those that wait for the node above them, the nearest to the
source first. -/
structure Chain where
  source : Source
  idle : List Operator
  waiting : List (Operator × OperatorWait)
  linked : Bool

/-- How far a read has come. -/
inductive PullPoint where
  /-- The next idle node is asked. -/
  | enter
  /-- The source waits for its surroundings. -/
  | source (w : SourceWait)
  /-- The nearest waiting operator waits for its surroundings. -/
  | asked
  /-- An outcome comes down. -/
  | reply (out : Outcome)

/-- What a read does next. -/
inductive PullMove where
  | go (p : PullPoint)
  | ask (r : Request) (p : PullPoint)
  | done (out : Outcome)

namespace Chain

/-- A chain that nothing reads. -/
def make (source : Source) (operators : List Operator) : Chain :=
  ⟨source, operators.reverse, [], false⟩

/-- The operators from the source on. -/
def operators (c : Chain) : List Operator := c.idle.reverse ++ c.waiting.map (·.1)

/-- The chain with other operators, read by nobody. -/
def withOperators (c : Chain) (operators : List Operator) : Chain :=
  { c with idle := operators.reverse, waiting := [] }

/-- Allows reads. -/
def link (c : Chain) : Chain := { c with linked := true }

/-- The kinds from the source to the last operator. -/
def kinds (c : Chain) : List String := c.source.kind :: c.operators.map (·.kind)

/-- The sinks of the tees, from the source on. -/
def tees (c : Chain) : List Sink := c.operators.filterMap (·.body.tee?)

/-- The kind of the node that would be asked next. -/
def nextKind (c : Chain) : String :=
  match c.idle with
  | op :: _ => op.kind
  | [] => c.source.kind

/-- Starts a read. -/
def start (c : Chain) : PullMove :=
  if c.linked then .go .enter else .done (.error (.configuration (.notLinked c.source.kind)))

/-- Takes a move of the source. -/
def afterSource (c : Chain) : SourceBody × SourceMove → Chain × PullMove
  | (body, .reply out) =>
      ({ c with source := { c.source with body := body } }, .go (.reply (c.source.passOn out)))
  | (body, .ask r w) => ({ c with source := { c.source with body := body } }, .ask r (.source w))

/-- Takes a move of the operator between the idle and the waiting ones. -/
def afterOperator (c : Chain) (op : Operator) : OperatorBody × OperatorMove → Chain × PullMove
  | (body, .reply out) =>
      ({ c with idle := { op with body := body } :: c.idle }, .go (.reply (op.passOn out)))
  | (body, .up w) =>
      ({ c with waiting := ({ op with body := body }, w) :: c.waiting }, .go .enter)
  | (body, .ask r w) =>
      ({ c with waiting := ({ op with body := body }, w) :: c.waiting }, .ask r .asked)

/-- Hands an outcome to the nearest waiting operator; without one the read is over. -/
def deliver (now : Nat) (out : Outcome) (c : Chain) : Chain × PullMove :=
  match c.waiting with
  | [] => (c, .done out)
  | (op, w) :: waiting =>
      { c with waiting := waiting }.afterOperator op (op.body.resume now w out)

/-- Asks the next idle node. -/
def enter (now : Nat) (c : Chain) : Chain × PullMove :=
  match c.idle with
  | [] => c.afterSource c.source.body.begin
  | op :: idle =>
      let c := { c with idle := idle }
      c.afterOperator op (op.body.begin now c.nextKind)

/-- Goes on with a read. The answer is that to the last request, if there was one. -/
def step (now : Nat) (p : PullPoint) (answer : Outcome) (c : Chain) : Chain × PullMove :=
  match p with
  | .enter => c.enter now
  | .reply out => c.deliver now out
  | .source w => c.afterSource (c.source.body.resume w answer)
  | .asked => c.deliver now answer

end Chain
end PullFlow
