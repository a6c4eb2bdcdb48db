import PullFlow.Main
import PullFlow.Rehearsal.Bench
import PullFlow.Rehearsal.Session
import PullFlow.Rehearsal.Signal
import PullFlow.Rehearsal.StatedError
import PullFlow.Blueprint.Layout
import PullFlow.Proofs.Fields
import PullFlow.Proofs.Scope.Lookup
import PullFlow.Proofs.Scope.Grown
import PullFlow.Proofs.Scope.ReadBack
import PullFlow.Proofs.Scope.Search
import PullFlow.Proofs.Scope.Trees
import PullFlow.Proofs.Engine.Threads
import PullFlow.Proofs.Engine.Wake
import PullFlow.Proofs.Engine.Calm
import PullFlow.Proofs.Engine.Moves
import PullFlow.Proofs.Engine.Turns
import PullFlow.Proofs.Engine.Handover
import PullFlow.Proofs.Engine.Course
import PullFlow.Proofs.Engine.Blame
import PullFlow.Proofs.Engine.Completion
import PullFlow.Proofs.Engine.Verdict
import PullFlow.Proofs.Engine.CleanStop
import PullFlow.Proofs.Engine.Grounds
import PullFlow.Proofs.Assembly
import PullFlow.Proofs.Catalog
import PullFlow.Proofs.Engine.Bounded
import PullFlow.Proofs.Engine.Dormant
import PullFlow.Proofs.Engine.Ledger
import PullFlow.Proofs.Engine.Locks
import PullFlow.Proofs.Engine.Nested
import PullFlow.Proofs.Engine.Owing
import PullFlow.Proofs.Engine.OwnLock
import PullFlow.Proofs.Engine.Rings
import PullFlow.Proofs.Engine.SingleWriter
import PullFlow.Proofs.Engine.Upkeep
import PullFlow.Proofs.Engine.Writers
import PullFlow.Proofs.Lint
import PullFlow.Proofs.CallRings
import PullFlow.Proofs.Pipeline
import PullFlow.Proofs.Scope.Filled
import PullFlow.Proofs.Ties
import PullFlow.Proofs.Untouched
import PullFlow.Proofs.Variables
import PullFlow.Proofs.Attachment
import PullFlow.Proofs.Engine.Acceptance
import PullFlow.Proofs.Likeness
import PullFlow.Proofs.Scope.Mirrors
import PullFlow.Proofs.Engine.Effects
import PullFlow.Proofs.Hooks
import PullFlow.Proofs.Engine.Bracketing
import PullFlow.Proofs.Engine.Latch
import PullFlow.Proofs.Engine.CallStack
import PullFlow.Proofs.Engine.Discipline
import PullFlow.Proofs.Engine.FirstWrite
import PullFlow.Proofs.Engine.Unhindered
import PullFlow.Proofs.Engine.HeldOpen
import PullFlow.Proofs.Engine.Release
import PullFlow.Proofs.Engine.Reorder
import PullFlow.Proofs.Engine.Connections
import PullFlow.Proofs.Json.Reading
import PullFlow.Proofs.Json.Tokens
import PullFlow.Proofs.Json.Layout
import PullFlow.Proofs.Json.Tidy
import PullFlow.Proofs.Blueprint.Reading
import PullFlow.Proofs.Blueprint.RoundTrip
import PullFlow.Proofs.Decimal.Magnitude
import PullFlow.Proofs.Duration
import PullFlow.Proofs.Outcome
import PullFlow.Proofs.Binding
import PullFlow.Proofs.Engine.Breakdown
import PullFlow.Proofs.Engine.Delivery
import PullFlow.Proofs.Composition
import PullFlow.Proofs.Delays
import PullFlow.Proofs.Origins
import PullFlow.Proofs.Arguments
import PullFlow.Proofs.Initialise
import PullFlow.Proofs.Getters
import PullFlow.Proofs.Integers
import PullFlow.Proofs.Extremes
import PullFlow.Proofs.Engine.PeerCalls
import PullFlow.Proofs.Engine.Feeding
import PullFlow.Proofs.Scope.Isolation
import PullFlow.Proofs.Registry
import PullFlow.Proofs.Json.Operators
import PullFlow.Proofs.Engine.AfterStop
import PullFlow.Proofs.Text.Operators
import PullFlow.Proofs.Companions
