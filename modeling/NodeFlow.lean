import NodeFlow.Collaborator.Http
import NodeFlow.Collaborator.Model
import NodeFlow.Collaborator.Reply
import NodeFlow.Command.Execute
import NodeFlow.Command.Parse
import NodeFlow.Compile.Compiler
import NodeFlow.Compile.Declared
import NodeFlow.Compile.Environment
import NodeFlow.Compile.Make
import NodeFlow.Compile.Work
import NodeFlow.Description.Check
import NodeFlow.Description.Kind
import NodeFlow.Description.Labels
import NodeFlow.Description.Load
import NodeFlow.Description.Problem
import NodeFlow.Diagnostic.Basic
import NodeFlow.Diagnostic.Channel
import NodeFlow.Diagram.Description
import NodeFlow.Diagram.Graph
import NodeFlow.Expr.Basic
import NodeFlow.Expr.Eval
import NodeFlow.Expr.Function
import NodeFlow.Expr.Parse
import NodeFlow.Expr.Property
import NodeFlow.Expr.Reason
import NodeFlow.Expr.Token
import NodeFlow.Failure
import NodeFlow.Generate.Creator
import NodeFlow.Generate.Prompt
import NodeFlow.Json.Print
import NodeFlow.Json.Read
import NodeFlow.Main
import NodeFlow.Memory.Heap
import NodeFlow.Memory.Path
import NodeFlow.Memory.Store
import NodeFlow.Number.Binary64
import NodeFlow.Number.Numeral
import NodeFlow.Number.Shortest
import NodeFlow.Proofs.Collaborator.Terms
import NodeFlow.Proofs.Compile.Asking
import NodeFlow.Proofs.Compile.Again
import NodeFlow.Proofs.Compile.Assembly
import NodeFlow.Proofs.Compile.Calm
import NodeFlow.Proofs.Compile.Declared
import NodeFlow.Proofs.Compile.Faithful
import NodeFlow.Proofs.Compile.Watch
import NodeFlow.Proofs.Compile.Labels
import NodeFlow.Proofs.Compile.LoopGuard
import NodeFlow.Proofs.Compile.Runs
import NodeFlow.Proofs.Compile.Sessions
import NodeFlow.Proofs.Compile.Termination
import NodeFlow.Proofs.Compile.Total
import NodeFlow.Proofs.Compile.Trails
import NodeFlow.Proofs.Compile.Variants
import NodeFlow.Proofs.Compile.Visits
import NodeFlow.Proofs.Compile.Watched
import NodeFlow.Proofs.Compile.Work
import NodeFlow.Proofs.Description.Acceptance
import NodeFlow.Proofs.Description.Cycles
import NodeFlow.Proofs.Description.Marks
import NodeFlow.Proofs.Description.WellFormed
import NodeFlow.Proofs.Expr.Dotted
import NodeFlow.Proofs.Expr.Escapes
import NodeFlow.Proofs.Expr.Free
import NodeFlow.Proofs.Expr.Grammar
import NodeFlow.Proofs.Expr.Reads
import NodeFlow.Proofs.Expr.Recognize
import NodeFlow.Proofs.Expr.Scan
import NodeFlow.Proofs.Expr.Spell
import NodeFlow.Proofs.Json.Decoded
import NodeFlow.Proofs.Memory.Kept
import NodeFlow.Proofs.Memory.Counts
import NodeFlow.Proofs.Memory.Parts
import NodeFlow.Proofs.Memory.Seal
import NodeFlow.Proofs.Run.Attempts
import NodeFlow.Proofs.Run.Bounds
import NodeFlow.Proofs.Run.Custody
import NodeFlow.Proofs.Run.Duty
import NodeFlow.Proofs.Run.Edges
import NodeFlow.Proofs.Run.FanOut
import NodeFlow.Proofs.Run.Follow
import NodeFlow.Proofs.Run.Inline
import NodeFlow.Proofs.Run.Interleave
import NodeFlow.Proofs.Run.Isolation
import NodeFlow.Proofs.Run.Journal
import NodeFlow.Proofs.Run.Journey
import NodeFlow.Proofs.Run.Keeping
import NodeFlow.Proofs.Run.Logic
import NodeFlow.Proofs.Run.Mirror
import NodeFlow.Proofs.Run.Owners
import NodeFlow.Proofs.Run.Paths
import NodeFlow.Proofs.Run.Progress
import NodeFlow.Proofs.Run.Schedule
import NodeFlow.Proofs.Run.Settle
import NodeFlow.Proofs.Run.Stages
import NodeFlow.Proofs.Run.SubRuns
import NodeFlow.Proofs.Run.Tasks
import NodeFlow.Proofs.Run.Terms
import NodeFlow.Proofs.Run.Tours
import NodeFlow.Proofs.Run.Traversal
import NodeFlow.Proofs.Run.Walk
import NodeFlow.Proofs.Template.Escapes
import NodeFlow.Proofs.Template.Free
import NodeFlow.Proofs.Template.Lone
import NodeFlow.Proofs.Template.Parts
import NodeFlow.Proofs.Template.Pass
import NodeFlow.Run.Act
import NodeFlow.Run.Context
import NodeFlow.Run.Coop
import NodeFlow.Run.Elements
import NodeFlow.Run.Flow
import NodeFlow.Run.Graph
import NodeFlow.Run.Listener
import NodeFlow.Run.Node
import NodeFlow.Run.NodeType
import NodeFlow.Run.Retry
import NodeFlow.Run.Schedule
import NodeFlow.Run.Stages
import NodeFlow.Run.World
import NodeFlow.Script.Basic
import NodeFlow.Script.Node
import NodeFlow.Script.Stage
import NodeFlow.Settings
import NodeFlow.Template.Placeholder
import NodeFlow.Template.Render
import NodeFlow.Text.Blank
import NodeFlow.Text.CaseTable
import NodeFlow.Text.Casing
import NodeFlow.Text.Digit
import NodeFlow.Text.Printable
import NodeFlow.Text.Quoted
import NodeFlow.Value.Arithmetic
import NodeFlow.Value.Basic
import NodeFlow.Value.Combine
import NodeFlow.Value.Compare
import NodeFlow.Value.Display
import NodeFlow.Value.Fault
import NodeFlow.Value.Members
import NodeFlow.Value.Notation
import NodeFlow.Proofs.Value.Computing
import NodeFlow.Proofs.Collaborator.Accord
import NodeFlow.Proofs.Compile.Accord
import NodeFlow.Proofs.Compile.Aligned
import NodeFlow.Proofs.Compile.Deaf
import NodeFlow.Proofs.Compile.Growth
import NodeFlow.Proofs.Compile.Interchange
import NodeFlow.Proofs.Compile.LastResult
import NodeFlow.Proofs.Compile.Order
import NodeFlow.Proofs.Compile.Reporting
import NodeFlow.Proofs.Compile.Untouched
import NodeFlow.Proofs.Description.Faults
import NodeFlow.Proofs.Description.Reports
import NodeFlow.Proofs.Generate.Verdict
import NodeFlow.Proofs.Json.Inverse
import NodeFlow.Proofs.Memory.Owned
import NodeFlow.Proofs.Run.Calls
import NodeFlow.Proofs.Memory.Usage
import NodeFlow.Proofs.Memory.Conformance
import NodeFlow.Proofs.Memory.Grafts
import NodeFlow.Proofs.Memory.Dotted
import NodeFlow.Proofs.Expr.Comparisons
import NodeFlow.Proofs.Run.Waits
import NodeFlow.Proofs.Run.Steady
import NodeFlow.Proofs.Run.Annotate
import NodeFlow.Proofs.Run.Sights
import NodeFlow.Proofs.Json.Lexemes
import NodeFlow.Proofs.Json.Grammar
import NodeFlow.Proofs.Expr.Saved
import NodeFlow.Proofs.Expr.Accesses
import NodeFlow.Proofs.Diagram.Describing
import NodeFlow.Proofs.Diagnostic.Retention
