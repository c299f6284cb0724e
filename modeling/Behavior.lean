import Behavior.Agent
import Behavior.Blackboard
import Behavior.Blueprint
import Behavior.Character
import Behavior.Condition
import Behavior.Decimal.Natural
import Behavior.Decimal.Reader
import Behavior.Decimal.Shortest
import Behavior.Duration
import Behavior.Entity
import Behavior.Filter
import Behavior.Journal
import Behavior.Json.Decode
import Behavior.Json.Reader
import Behavior.Json.Text
import Behavior.Json.Value
import Behavior.Json.Writer
import Behavior.Label
import Behavior.Memory
import Behavior.Queue
import Behavior.Random.Generator
import Behavior.Random.Shuffle
import Behavior.Random.Weighted
import Behavior.Registry
import Behavior.Registry.Error
import Behavior.Registry.Parameter
import Behavior.Registry.Standard
import Behavior.Rehearsal.Actor
import Behavior.Rehearsal.Jobs
import Behavior.Rehearsal.Props
import Behavior.Rehearsal.Rounds
import Behavior.Rehearsal.Script
import Behavior.Roster
import Behavior.Scheduler
import Behavior.Search
import Behavior.Snapshot
import Behavior.Snapshot.Written
import Behavior.Status
import Behavior.Table
import Behavior.Task
import Behavior.Text.Blank
import Behavior.Text.Hex
import Behavior.Text.Hidden
import Behavior.Text.Quoted
import Behavior.Text.Record
import Behavior.Tick
import Behavior.Trace
import Behavior.Trace.Event
import Behavior.Trace.Written
import Behavior.Tree.Arena
import Behavior.Tree.Execution
import Behavior.Tree.Frame
import Behavior.Tree.Node
import Behavior.Yaml.Cursor
import Behavior.Yaml.Document
import Behavior.Yaml.Scalar
import Behavior.Yaml.Token
import Behavior.Yaml.Token.Lexer
import Behavior.Yaml.Value
import Behavior.Zone
import Behavior.Zone.Config
import Behavior.Zone.Error
import Behavior.Proofs.Random.Shuffle
import Behavior.Proofs.Random.Weighted
import Behavior.Proofs.Random.Mixing
import Behavior.Proofs.Random.Period
import Behavior.Proofs.Random.Below
import Behavior.Proofs.Random.Orders
import Behavior.Proofs.Random.Termination
import Behavior.Proofs.Tick
import Behavior.Proofs.Single
import Behavior.Proofs.Random.Total
import Behavior.Proofs.Decimal.Natural
import Behavior.Proofs.Json.Text
import Behavior.Proofs.Json.Reader
import Behavior.Proofs.Written
import Behavior.Proofs.Search
import Behavior.Proofs.Tree.Layout
import Behavior.Proofs.Tree.Execution
import Behavior.Proofs.Tree.Forgetting
import Behavior.Proofs.Tree.Acts
import Behavior.Proofs.Tree.Locality
import Behavior.Proofs.Tree.Running.Settled
import Behavior.Proofs.Tree.Running.Children
import Behavior.Proofs.Tree.Running
import Behavior.Proofs.Tree.Accounts
import Behavior.Proofs.Tree.Interpreter
import Behavior.Proofs.Tree.Recall
import Behavior.Proofs.Tree.Simulation
import Behavior.Proofs.Tree.Ticks
import Behavior.Proofs.Trace.Telling
import Behavior.Proofs.Trace.Untraced
import Behavior.Proofs.Tree.Tracing
import Behavior.Proofs.Tree.Lockstep
import Behavior.Proofs.Tree.Bounds
import Behavior.Proofs.Tree.Containment
import Behavior.Proofs.Agent.Operation
import Behavior.Proofs.Tree.Once
import Behavior.Proofs.Tree.Encounters
import Behavior.Proofs.Tree.Sequence
import Behavior.Proofs.Tree.Calls
import Behavior.Proofs.Tree.Selectors
import Behavior.Proofs.Agent.Sequence
import Behavior.Proofs.Agent.Encounters
import Behavior.Proofs.Agent.Selectors
import Behavior.Proofs.Agent.Limit
import Behavior.Proofs.Agent.Idle
import Behavior.Proofs.Agent.Running
import Behavior.Proofs.Agent.Tracing
import Behavior.Proofs.Agent.Containment
import Behavior.Proofs.Agent.Untraced
import Behavior.Proofs.Agent.Inheritance
import Behavior.Proofs.Scheduler.Tokens
import Behavior.Proofs.Scheduler.ShutDown
import Behavior.Proofs.Zone.Placing
import Behavior.Proofs.Zone.Tenancy
import Behavior.Proofs.Zone.Membership
import Behavior.Proofs.Zone.InFlight
import Behavior.Proofs.Zone.Stopping
import Behavior.Proofs.Zone.Rounds
import Behavior.Proofs.Zone.Rebinding
import Behavior.Proofs.Zone.Snapshots
import Behavior.Proofs.Filter
import Behavior.Proofs.Condition
import Behavior.Proofs.Text.Term
import Behavior.Proofs.Text.Guard
import Behavior.Proofs.Registry.Parameter
import Behavior.Proofs.Yaml.Scalar
import Behavior.Proofs.Yaml.Lines
import Behavior.Proofs.Zone.Config
import Behavior.Proofs.Tree.Occurrences
import Behavior.Proofs.Agent.Cache
import Behavior.Proofs.Tree.Confinement
import Behavior.Proofs.Tree.Addresses
import Behavior.Proofs.Tree.Arena
import Behavior.Proofs.Tree.Snapshot
