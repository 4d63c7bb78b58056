import WorkflowEngine.CommandLine.Arguments
import WorkflowEngine.CommandLine.Command
import WorkflowEngine.CommandLine.Perform
import WorkflowEngine.CommandLine.Screen
import WorkflowEngine.Containers
import WorkflowEngine.Engine
import WorkflowEngine.Entries
import WorkflowEngine.Environment
import WorkflowEngine.Execution
import WorkflowEngine.Expression.Coercion
import WorkflowEngine.Expression.Condition
import WorkflowEngine.Expression.Evaluate
import WorkflowEngine.Expression.Path
import WorkflowEngine.Expression.Template
import WorkflowEngine.Failure
import WorkflowEngine.Graph
import WorkflowEngine.Intake
import WorkflowEngine.Journal
import WorkflowEngine.Json.Basic
import WorkflowEngine.Json.Printer
import WorkflowEngine.Json.Reader
import WorkflowEngine.Literal.CharacterName
import WorkflowEngine.Literal.Reader
import WorkflowEngine.Literal.Token
import WorkflowEngine.Logging.Format
import WorkflowEngine.Logging.Logger
import WorkflowEngine.Logging.Program
import WorkflowEngine.Node.Basic
import WorkflowEngine.Node.Branching
import WorkflowEngine.Node.Collection
import WorkflowEngine.Node.Dispatch
import WorkflowEngine.Node.Merge
import WorkflowEngine.Node.Request
import WorkflowEngine.Node.Storing
import WorkflowEngine.Node.Trigger
import WorkflowEngine.Node.Variables
import WorkflowEngine.Node.Wait
import WorkflowEngine.Number.Binary64
import WorkflowEngine.Number.Printed
import WorkflowEngine.Number.Shortest
import WorkflowEngine.Number.Written
import WorkflowEngine.Registry
import WorkflowEngine.Service.Address
import WorkflowEngine.Service.Request
import WorkflowEngine.Service.Routes
import WorkflowEngine.Settings
import WorkflowEngine.State
import WorkflowEngine.Storage
import WorkflowEngine.Storage.Files
import WorkflowEngine.Storage.Hosted
import WorkflowEngine.Storage.Local
import WorkflowEngine.Storage.Path
import WorkflowEngine.Storage.Work
import WorkflowEngine.Text.Blank
import WorkflowEngine.Text.Case
import WorkflowEngine.Text.Digit
import WorkflowEngine.Text.Encoding
import WorkflowEngine.Text.Pieces
import WorkflowEngine.Text.Printable
import WorkflowEngine.Text.Quoted
import WorkflowEngine.Time.Calendar
import WorkflowEngine.Value.Access
import WorkflowEngine.Value.Basic
import WorkflowEngine.Value.Compare
import WorkflowEngine.Value.Json
import WorkflowEngine.Value.Key
import WorkflowEngine.Value.Order
import WorkflowEngine.Value.Printed
import WorkflowEngine.Value.Recorded
import WorkflowEngine.Value.Sorting
import WorkflowEngine.Workflow
import WorkflowEngine.World
import WorkflowEngine.Main
import WorkflowEngine.Proofs.Walk.Outcome
import WorkflowEngine.Proofs.Walk.Composition
import WorkflowEngine.Proofs.Walk.Blindness
import WorkflowEngine.Proofs.Node.Modesty
import WorkflowEngine.Proofs.Node.Straight
import WorkflowEngine.Proofs.Node.Blindness
import WorkflowEngine.Proofs.Run.Course
import WorkflowEngine.Proofs.Walk.Recursion
import WorkflowEngine.Proofs.Run.Steps
import WorkflowEngine.Proofs.Run.Departure
import WorkflowEngine.Proofs.Run.Budget
import WorkflowEngine.Proofs.Run.Failing
import WorkflowEngine.Proofs.Run.Given
import WorkflowEngine.Proofs.Run.Books
import WorkflowEngine.Proofs.Run.Once
import WorkflowEngine.Proofs.Run.Record
import WorkflowEngine.Proofs.Run.Restoration
import WorkflowEngine.Proofs.Run.Advance
import WorkflowEngine.Proofs.Run.Reach
import WorkflowEngine.Proofs.Number.Bits
import WorkflowEngine.Proofs.Number.Rounding
import WorkflowEngine.Proofs.Number.Digits
import WorkflowEngine.Proofs.Number.Shortest
import WorkflowEngine.Proofs.Json.Numbers
import WorkflowEngine.Proofs.Json.Texts
import WorkflowEngine.Proofs.Json.RoundTrip
import WorkflowEngine.Proofs.Json.Plain
import WorkflowEngine.Proofs.Json.Values
import WorkflowEngine.Proofs.Workflow.Reading
import WorkflowEngine.Proofs.Workflow.Normal
import WorkflowEngine.Proofs.Workflow.Acceptance
import WorkflowEngine.Proofs.Workflow.Graphs
import WorkflowEngine.Proofs.Storage.Local
import WorkflowEngine.Proofs.Value.Recorded
import WorkflowEngine.Proofs.Execution.Recorded
import WorkflowEngine.Proofs.Run.Awaited
import WorkflowEngine.Proofs.Run.Joined
import WorkflowEngine.Proofs.Graph.Body
import WorkflowEngine.Proofs.Graph.Ways
import WorkflowEngine.Proofs.Run.Replays
import WorkflowEngine.Proofs.Run.Rounds
import WorkflowEngine.Proofs.Run.Termination
import WorkflowEngine.Proofs.Run.Beginning
import WorkflowEngine.Proofs.Graph.Order
import WorkflowEngine.Proofs.Run.Rearranged
import WorkflowEngine.Proofs.Run.Scopes
import WorkflowEngine.Proofs.Run.Work
import WorkflowEngine.Proofs.Run.Bindings
import WorkflowEngine.Proofs.Storage.Paths
import WorkflowEngine.Proofs.Storage.Operations
import WorkflowEngine.Proofs.Storage.Confinement
import WorkflowEngine.Proofs.Storage.Tables
import WorkflowEngine.Proofs.Storage.Torn
import WorkflowEngine.Proofs.Storage.Loss
import WorkflowEngine.Proofs.Storage.Readers
import WorkflowEngine.Proofs.Execution.Outcome
import WorkflowEngine.Proofs.Service.Bodies
import WorkflowEngine.Proofs.Service.Handling
import WorkflowEngine.Proofs.Service.Turns
import WorkflowEngine.Proofs.Service.Conversation
import WorkflowEngine.Proofs.Value.Levels
import WorkflowEngine.Proofs.Node.Sorting
import WorkflowEngine.Proofs.Node.Storing
import WorkflowEngine.Proofs.Json.LineEnds
import WorkflowEngine.Proofs.Workflow.Encodings
import WorkflowEngine.Proofs.Time.Order
import WorkflowEngine.Proofs.Execution.Ledger
import WorkflowEngine.Proofs.Execution.Listed
import WorkflowEngine.Proofs.Node.MixedKeys
import WorkflowEngine.Proofs.Node.Commuting
import WorkflowEngine.Proofs.Value.Spoken
import WorkflowEngine.Proofs.Expression.JsonTexts
import WorkflowEngine.Proofs.Expression.References
import WorkflowEngine.Proofs.Expression.Templates
import WorkflowEngine.Proofs.Json.Scalars
import WorkflowEngine.Proofs.Json.Literals
import WorkflowEngine.Proofs.Json.Steps
import WorkflowEngine.Proofs.Json.Parts
import WorkflowEngine.Proofs.Json.Documents
import WorkflowEngine.Proofs.Node.Documents
import WorkflowEngine.Proofs.Graph.Search
import WorkflowEngine.Proofs.Number.Order
import WorkflowEngine.Proofs.Number.Nearest
import WorkflowEngine.Proofs.Number.Arithmetic
import WorkflowEngine.Proofs.Expression.Comparisons
import WorkflowEngine.Proofs.Node.Comparing
import WorkflowEngine.Proofs.Node.Waiting
import WorkflowEngine.Proofs.Run.Telling
import WorkflowEngine.Proofs.Run.Merged
import WorkflowEngine.Proofs.Logging.Blocks
import WorkflowEngine.Proofs.Expression.Paths
import WorkflowEngine.Proofs.State.Writes
import WorkflowEngine.Proofs.State.Nesting
import WorkflowEngine.Proofs.Text.Pieces
