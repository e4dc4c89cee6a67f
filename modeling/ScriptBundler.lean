import ScriptBundler.Build
import ScriptBundler.Bundle.Basic
import ScriptBundler.Bundle.Compile
import ScriptBundler.Bundle.Session
import ScriptBundler.Bundle.Stream
import ScriptBundler.Command.Arguments
import ScriptBundler.Command.Basic
import ScriptBundler.Command.Run
import ScriptBundler.Decimal.Shortest
import ScriptBundler.Destination
import ScriptBundler.Disk.Basic
import ScriptBundler.Failure
import ScriptBundler.Glob.Expand
import ScriptBundler.Glob.Match
import ScriptBundler.Glob.Pattern
import ScriptBundler.Ignore.Match
import ScriptBundler.Ignore.Pattern
import ScriptBundler.Ignore.Rule
import ScriptBundler.Ignore.Scope
import ScriptBundler.Ignore.Walk
import ScriptBundler.Json.Basic
import ScriptBundler.Json.Comment
import ScriptBundler.Json.Quoted
import ScriptBundler.Json.Reader
import ScriptBundler.Json.Record
import ScriptBundler.Main
import ScriptBundler.Options
import ScriptBundler.Partition
import ScriptBundler.Path.Basic
import ScriptBundler.Path.Relative
import ScriptBundler.Path.Set
import ScriptBundler.Project.Alias
import ScriptBundler.Project.Entry
import ScriptBundler.Project.Root
import ScriptBundler.Project.Settings
import ScriptBundler.Proofs.Action
import ScriptBundler.Proofs.Bundle.Built
import ScriptBundler.Proofs.Bundle.Coverage
import ScriptBundler.Proofs.Bundle.Destination
import ScriptBundler.Proofs.Bundle.LoadOrder
import ScriptBundler.Proofs.Bundle.Offsets
import ScriptBundler.Proofs.Bundle.Output
import ScriptBundler.Proofs.Bundle.Refresh
import ScriptBundler.Proofs.Bundle.Tokens
import ScriptBundler.Proofs.Graph.Sharing
import ScriptBundler.Proofs.Graph.Walk
import ScriptBundler.Proofs.Partition
import ScriptBundler.Proofs.PathSet
import ScriptBundler.Proofs.Sorting
import ScriptBundler.Proofs.SourceMap.Builder
import ScriptBundler.Proofs.SourceMap.Marks
import ScriptBundler.Proofs.Text.Lines
import ScriptBundler.Proofs.Trace.Again
import ScriptBundler.Proofs.Trace.Listing
import ScriptBundler.Proofs.Trace.Memory
import ScriptBundler.Proofs.Trace.Resolve
import ScriptBundler.Proofs.Trace.Visit
import ScriptBundler.Report
import ScriptBundler.Script.Grammar.Basic
import ScriptBundler.Script.Grammar.Binding
import ScriptBundler.Script.Grammar.Callable
import ScriptBundler.Script.Grammar.Declaration
import ScriptBundler.Script.Grammar.Expression
import ScriptBundler.Script.Grammar.Markup
import ScriptBundler.Script.Grammar.Statement
import ScriptBundler.Script.Grammar.Types
import ScriptBundler.Script.Token
import ScriptBundler.Script.Tree
import ScriptBundler.Sorting
import ScriptBundler.SourceMap.Basic
import ScriptBundler.SourceMap.Builder
import ScriptBundler.SourceMap.DebugId
import ScriptBundler.SourceMap.Decode
import ScriptBundler.SourceMap.Encode
import ScriptBundler.SourceMap.Inline
import ScriptBundler.SourceMap.Vlq
import ScriptBundler.Text.Base64
import ScriptBundler.Text.Blank
import ScriptBundler.Text.Identifier
import ScriptBundler.Trace.Basic
import ScriptBundler.Trace.Graph
import ScriptBundler.Trace.Import
import ScriptBundler.Trace.Load
import ScriptBundler.Trace.Request
import ScriptBundler.Trace.Resolve
import ScriptBundler.Workspace
import ScriptBundler.Proofs.Bundle.Session
import ScriptBundler.Proofs.Trace.Truth
import ScriptBundler.Proofs.Trace.Calls
import ScriptBundler.Proofs.Disk.Change
import ScriptBundler.Proofs.Trace.Told
import ScriptBundler.Proofs.Splicing
import ScriptBundler.Proofs.Bundle.Requests
import ScriptBundler.Proofs.Bundle.Placement
import ScriptBundler.Proofs.Disk.Grow
import ScriptBundler.Proofs.Bundle.Live
import ScriptBundler.Proofs.Bundle.Jobs
import ScriptBundler.Proofs.Bundle.Order
import ScriptBundler.Proofs.Bundle.Owners
import ScriptBundler.Proofs.Bundle.Edits
import ScriptBundler.Proofs.Bundle.Refusal
import ScriptBundler.Proofs.Bundle.Spelling
import ScriptBundler.Proofs.Bundle.Carriers
import ScriptBundler.Proofs.SourceMap.Texts
import ScriptBundler.Proofs.SourceMap.Inline
import ScriptBundler.Proofs.Trace.Twice
import ScriptBundler.Proofs.Bundle.Reload
import ScriptBundler.Proofs.Trace.Order
import ScriptBundler.Proofs.Trace.Walks
import ScriptBundler.Proofs.Bundle.Loading
import ScriptBundler.Proofs.Trace.Alias
import ScriptBundler.Proofs.Path.Ancestors
import ScriptBundler.Proofs.Json.Ordered
import ScriptBundler.Proofs.Trace.Packages
import ScriptBundler.Proofs.Trace.Relative
import ScriptBundler.Proofs.Project.Alias
import ScriptBundler.Proofs.Json.Comment
import ScriptBundler.Proofs.Ignore.Order
import ScriptBundler.Proofs.Project.AliasOrder
import ScriptBundler.Proofs.Path.Under
import ScriptBundler.Proofs.Disk.Tree
import ScriptBundler.Proofs.Disk.Copy
import ScriptBundler.Proofs.Glob.Escape
import ScriptBundler.Proofs.Ignore.Below
import ScriptBundler.Proofs.Ignore.Standing
import ScriptBundler.Proofs.Ignore.Seen
import ScriptBundler.Proofs.Ignore.Moved
import ScriptBundler.Proofs.Project.Collected
import ScriptBundler.Proofs.Project.Moved
import ScriptBundler.Proofs.Load.History
import ScriptBundler.Proofs.Script.Constructs
import ScriptBundler.Proofs.Script.Plain
import ScriptBundler.Proofs.Script.Untyped
import ScriptBundler.Proofs.Path.Route
import ScriptBundler.Proofs.Disk.Alike
import ScriptBundler.Proofs.Glob.Anchor
import ScriptBundler.Proofs.Path.Pairs
import ScriptBundler.Proofs.Glob.Spelled
import ScriptBundler.Proofs.Glob.Rooted
import ScriptBundler.Proofs.Trace.Twins
import ScriptBundler.Proofs.Bundle.Twins
import ScriptBundler.Proofs.Trace.Copied
import ScriptBundler.Proofs.Project.Anchored
import ScriptBundler.Proofs.Path.Relative
import ScriptBundler.Proofs.Glob.Settled
import ScriptBundler.Proofs.Disk.Whole
import ScriptBundler.Proofs.Glob.Existing
