import PhasedLoad.ActionServer
import PhasedLoad.ActionServer.Start
import PhasedLoad.Binary64
import PhasedLoad.Binary64.Shortest
import PhasedLoad.Budget
import PhasedLoad.Campaign
import PhasedLoad.CommandLine.Arguments
import PhasedLoad.CommandLine.Failure
import PhasedLoad.CommandLine.Perform
import PhasedLoad.CommandLine.Value
import PhasedLoad.Duration
import PhasedLoad.Duration.Exact
import PhasedLoad.Duration.Span
import PhasedLoad.Fault
import PhasedLoad.Folder
import PhasedLoad.Group.Basic
import PhasedLoad.Group.Play
import PhasedLoad.Http.Exchange
import PhasedLoad.Http.Fault
import PhasedLoad.Http.Host
import PhasedLoad.Http.Request
import PhasedLoad.Http.Uri
import PhasedLoad.Http.Url
import PhasedLoad.Json.Basic
import PhasedLoad.Json.Number
import PhasedLoad.Json.Printer
import PhasedLoad.Json.Tree
import PhasedLoad.Log
import PhasedLoad.Main
import PhasedLoad.Output
import PhasedLoad.Output.Lines
import PhasedLoad.Output.Prose
import PhasedLoad.Pattern
import PhasedLoad.Plan
import PhasedLoad.PlanFile
import PhasedLoad.Power
import PhasedLoad.Random.Choice
import PhasedLoad.Random.Keystream
import PhasedLoad.Reading.Decode
import PhasedLoad.Reading.Fault
import PhasedLoad.Reading.Source
import PhasedLoad.Repeats
import PhasedLoad.Report
import PhasedLoad.Run.Basic
import PhasedLoad.Run.Execution
import PhasedLoad.Scope
import PhasedLoad.Selector
import PhasedLoad.Settings
import PhasedLoad.Statistics
import PhasedLoad.Target
import PhasedLoad.Target.Http
import PhasedLoad.Target.Script
import PhasedLoad.Text.Blank
import PhasedLoad.Text.Digits
import PhasedLoad.Text.Quoted
import PhasedLoad.Text.Split
import PhasedLoad.Text.Unprintable
import PhasedLoad.Text.Utf8
import PhasedLoad.World
import PhasedLoad.Yaml.Cursor
import PhasedLoad.Yaml.Event
import PhasedLoad.Yaml.Node
import PhasedLoad.Yaml.Scalar
import PhasedLoad.Yaml.Token
import PhasedLoad.Proofs.Ready
import PhasedLoad.Proofs.Repeats
import PhasedLoad.Proofs.Rounds
import PhasedLoad.Proofs.Share
import PhasedLoad.Proofs.Completion
import PhasedLoad.Proofs.Group.Turn
import PhasedLoad.Proofs.Group.Course
import PhasedLoad.Proofs.Group.Roster
import PhasedLoad.Proofs.Execution.Parts
import PhasedLoad.Proofs.Execution.Block
import PhasedLoad.Proofs.Lifecycle
import PhasedLoad.Proofs.Cancellation
import PhasedLoad.Proofs.Group.Ledger
import PhasedLoad.Proofs.Group.Traces
import PhasedLoad.Proofs.Accounting
import PhasedLoad.Proofs.Order
import PhasedLoad.Proofs.Order.Sequence
import PhasedLoad.Proofs.Order.Cycle
import PhasedLoad.Proofs.Group.Deadline
import PhasedLoad.Proofs.Group.Pacing
import PhasedLoad.Proofs.Group.Stay
import PhasedLoad.Proofs.Group.Exit
import PhasedLoad.Proofs.Group.Copies
import PhasedLoad.Proofs.Group.Multiples
import PhasedLoad.Proofs.Execution.Deadline
import PhasedLoad.Proofs.Allowance
import PhasedLoad.Proofs.TimeBound
import PhasedLoad.Proofs.Schedule
import PhasedLoad.Proofs.Starvation
import PhasedLoad.Proofs.Scope.Lineage
import PhasedLoad.Proofs.Scope.Propagation
import PhasedLoad.Proofs.Scope.Isolation
import PhasedLoad.Proofs.Scope.Contacts
import PhasedLoad.Proofs.Scope.Latch
import PhasedLoad.Proofs.Scope.Nested
import PhasedLoad.Proofs.Scope.Race
import PhasedLoad.Proofs.CommandLine.Stream
import PhasedLoad.Proofs.CommandLine.Agreement
import PhasedLoad.Proofs.Statistics
import PhasedLoad.Proofs.Intervals
import PhasedLoad.Proofs.Group.Intervals
import PhasedLoad.Proofs.Group.Lockstep
import PhasedLoad.Proofs.Execution.Lockstep
import PhasedLoad.Proofs.Lockstep
import PhasedLoad.Proofs.Floor
import PhasedLoad.Proofs.Group.Breakdown
import PhasedLoad.Proofs.Timeout
import PhasedLoad.Proofs.ActionServer.Body
import PhasedLoad.Proofs.ActionServer.Service
import PhasedLoad.Proofs.ActionServer.Bookkeeping
import PhasedLoad.Proofs.Choice
import PhasedLoad.Proofs.Draining
import PhasedLoad.Proofs.Normal
import PhasedLoad.Proofs.Duration.Reading
import PhasedLoad.Proofs.Duration.RoundTrip
import PhasedLoad.Proofs.Duration.Agreement
import PhasedLoad.Proofs.Http.Headers
import PhasedLoad.Proofs.Http.Message
