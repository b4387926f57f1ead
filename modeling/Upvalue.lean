import Upvalue.Binary64
import Upvalue.Boxing.Action
import Upvalue.Boxing.Box
import Upvalue.Boxing.Error
import Upvalue.Boxing.Pass
import Upvalue.Boxing.Registry
import Upvalue.Boxing.Scope
import Upvalue.Command.Arguments
import Upvalue.Command.Convert
import Upvalue.Command.Directory
import Upvalue.Command.Explain
import Upvalue.Command.Host
import Upvalue.Command.Place
import Upvalue.Command.Run
import Upvalue.Config
import Upvalue.Diagnostic.Basic
import Upvalue.Diagnostic.Explanation
import Upvalue.Diagnostic.JsonLines
import Upvalue.Diagnostic.Terminal
import Upvalue.Json.Basic
import Upvalue.Json.Decode
import Upvalue.Json.Number
import Upvalue.Json.Printer
import Upvalue.Json.Reader
import Upvalue.Json.Record
import Upvalue.Json.Token
import Upvalue.Main
import Upvalue.Program.Basic
import Upvalue.Program.Builder
import Upvalue.Program.Handles
import Upvalue.Program.Json
import Upvalue.Program.Load
import Upvalue.Program.Valid
import Upvalue.Proofs.Boxing.Blame
import Upvalue.Proofs.Boxing.Box
import Upvalue.Proofs.Boxing.Bracketed
import Upvalue.Proofs.Boxing.Calls
import Upvalue.Proofs.Boxing.Change
import Upvalue.Proofs.Boxing.Closed
import Upvalue.Proofs.Boxing.Coherence
import Upvalue.Proofs.Boxing.Complete
import Upvalue.Proofs.Boxing.Cover
import Upvalue.Proofs.Boxing.Decision
import Upvalue.Proofs.Boxing.Fault
import Upvalue.Proofs.Boxing.Frame
import Upvalue.Proofs.Boxing.Fresh
import Upvalue.Proofs.Boxing.Graft
import Upvalue.Proofs.Boxing.Home
import Upvalue.Proofs.Boxing.Idempotence
import Upvalue.Proofs.Boxing.Layout
import Upvalue.Proofs.Boxing.Lockstep
import Upvalue.Proofs.Boxing.LoopOrder
import Upvalue.Proofs.Boxing.Mirror
import Upvalue.Proofs.Boxing.Naming
import Upvalue.Proofs.Boxing.Noted
import Upvalue.Proofs.Boxing.Openings
import Upvalue.Proofs.Boxing.Plan
import Upvalue.Proofs.Boxing.Play
import Upvalue.Proofs.Boxing.Recall
import Upvalue.Proofs.Boxing.Refine
import Upvalue.Proofs.Boxing.Reload
import Upvalue.Proofs.Boxing.Renumber
import Upvalue.Proofs.Boxing.Reorder
import Upvalue.Proofs.Boxing.Report
import Upvalue.Proofs.Boxing.Schedule
import Upvalue.Proofs.Boxing.Settled
import Upvalue.Proofs.Boxing.Sites
import Upvalue.Proofs.Boxing.Slots
import Upvalue.Proofs.Boxing.Stack
import Upvalue.Proofs.Boxing.Step
import Upvalue.Proofs.Boxing.Tick
import Upvalue.Proofs.Boxing.Track
import Upvalue.Proofs.Boxing.Trail
import Upvalue.Proofs.Boxing.Unbox
import Upvalue.Proofs.Boxing.Unfold
import Upvalue.Proofs.Boxing.Validity
import Upvalue.Proofs.Boxing.Verdict
import Upvalue.Proofs.Boxing.Whole
import Upvalue.Proofs.Command.Alike
import Upvalue.Proofs.Command.Arguments
import Upvalue.Proofs.Command.Convert
import Upvalue.Proofs.Command.Directory
import Upvalue.Proofs.Diagnostic.Color
import Upvalue.Proofs.Diagnostic.JsonLines
import Upvalue.Proofs.Diagnostic.Marker
import Upvalue.Proofs.Json.Blanks
import Upvalue.Proofs.Json.Exact
import Upvalue.Proofs.Json.Forms
import Upvalue.Proofs.Json.Number
import Upvalue.Proofs.Json.Origin
import Upvalue.Proofs.Json.Printing
import Upvalue.Proofs.Json.Spelling
import Upvalue.Proofs.Json.Writing
import Upvalue.Proofs.Program.Construction
import Upvalue.Proofs.Program.Content
import Upvalue.Proofs.Program.Correspond
import Upvalue.Proofs.Program.Follow
import Upvalue.Proofs.Program.Forms
import Upvalue.Proofs.Program.Growth
import Upvalue.Proofs.Program.Json
import Upvalue.Proofs.Program.Load
import Upvalue.Proofs.Program.Nesting
import Upvalue.Proofs.Program.Renumber
import Upvalue.Proofs.Program.Scoping
import Upvalue.Proofs.Program.Text
import Upvalue.Proofs.Program.Tree
import Upvalue.Proofs.Program.Walk
import Upvalue.Proofs.Program.Within
import Upvalue.Proofs.Source.Bytes
import Upvalue.Proofs.Source.Position
import Upvalue.Proofs.Source.Terminator
import Upvalue.Proofs.Ty.Json
import Upvalue.Proofs.Ty.Same
import Upvalue.Proofs.Ty.Text
import Upvalue.Shortest
import Upvalue.Source.Cache
import Upvalue.Source.File
import Upvalue.Source.Lines
import Upvalue.Source.Text
import Upvalue.Span
import Upvalue.Text.Quoted
import Upvalue.Text.Unprintable
import Upvalue.Text.Uppercase
import Upvalue.Toml.Blank
import Upvalue.Toml.Quoted
import Upvalue.Toml.Reader
import Upvalue.Toml.Scalar
import Upvalue.Toml.Value
import Upvalue.Ty.Basic
import Upvalue.Ty.Json
