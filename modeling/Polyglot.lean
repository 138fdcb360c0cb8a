import Polyglot.Text.Character
import Polyglot.Text.Quoted
import Polyglot.Text.Search
import Polyglot.Text.Utf8
import Polyglot.Digest
import Polyglot.Number.Writing
import Polyglot.Number.Reading
import Polyglot.Json.Writer
import Polyglot.Json.Reader
import Polyglot.Style.Sheet
import Polyglot.Style.Head
import Polyglot.Component.Reader
import Polyglot.Language
import Polyglot.Location.World
import Polyglot.Xml.Reader
import Polyglot.Xml.Mapping
import Polyglot.Catalogue
import Polyglot.Compiler.Registry
import Polyglot.Compiler.Output
import Polyglot.Table
import Polyglot.Request
import Polyglot.Component.Settings
import Polyglot.Component.Reference
import Polyglot.Program.Basic
import Polyglot.Config.Basic
import Polyglot.Config.Reader
import Polyglot.Config.File
import Polyglot.Log.Setup
import Polyglot.Log.Percent
import Polyglot.Fault
import Polyglot.Failure
import Polyglot.Loop.Routine
import Polyglot.Loop.Schedule
import Polyglot.Source.Loader
import Polyglot.Component.Pipeline
import Polyglot.Hub.Dispatch
import Polyglot.Compiler.Basic
import Polyglot.Template.Render
import Polyglot.Template.Evaluate
import Polyglot.Template.Reader
import Polyglot.Toml.Reader
import Polyglot.Yaml.Reader
import Polyglot.Template.Token
import Polyglot.Value.Arithmetic
import Polyglot.Template.Datum
import Polyglot.Markdown.Writer
import Polyglot.Program.Run
import Polyglot.Config.Plugin
import Polyglot.Build.Task
import Polyglot.Cli.Session
import Polyglot.Main
import Polyglot.Proofs.Loop.View
import Polyglot.Proofs.Loop.Cancel
import Polyglot.Proofs.Loop.Tidy
import Polyglot.Proofs.Loop.Groups
import Polyglot.Proofs.Loop.Pop
import Polyglot.Proofs.Loop.Contract
import Polyglot.Proofs.Loop.Upkeep
import Polyglot.Proofs.Loop.Rest
import Polyglot.Proofs.Loop.Block
import Polyglot.Proofs.Loop.Solo
import Polyglot.Proofs.Outcome
import Polyglot.Proofs.Text.Search
import Polyglot.Proofs.Hub.Key
import Polyglot.Proofs.Hub.History
import Polyglot.Proofs.Hub.Terms
import Polyglot.Proofs.Hub.Rules
import Polyglot.Proofs.Hub.Life
import Polyglot.Proofs.Hub.Kept
import Polyglot.Proofs.Hub.Languages
import Polyglot.Proofs.Hub.Plain
import Polyglot.Proofs.Hub.Transparent
import Polyglot.Proofs.Hub.Depth
import Polyglot.Proofs.Component.Scope
import Polyglot.Proofs.Component.Read
import Polyglot.Proofs.Component.Closing
import Polyglot.Proofs.Component.RoundTrip
import Polyglot.Proofs.Style.Marking
import Polyglot.Proofs.Style.Selectors
import Polyglot.Proofs.Style.Scoping
import Polyglot.Proofs.Style.Preludes
import Polyglot.Proofs.Style.Commas
import Polyglot.Proofs.Style.Spans
import Polyglot.Proofs.Style.Agreement
import Polyglot.Proofs.Style.Places
import Polyglot.Proofs.Style.Cuts
import Polyglot.Proofs.Style.Passing
import Polyglot.Proofs.Style.Splitting
import Polyglot.Proofs.Style.Again
import Polyglot.Proofs.Loop.Ledger
import Polyglot.Proofs.Loop.Tends
import Polyglot.Proofs.Loop.CutOff
import Polyglot.Proofs.Loop.Tended
import Polyglot.Proofs.Loop.Parts
import Polyglot.Proofs.Loop.Turn
import Polyglot.Proofs.Hub.Entries
import Polyglot.Proofs.Hub.Origins
import Polyglot.Proofs.Hub.Single
import Polyglot.Proofs.Hub.Books
import Polyglot.Proofs.Hub.Sharing
import Polyglot.Proofs.Hub.Inflight
import Polyglot.Proofs.Hub.Answers
import Polyglot.Proofs.Component.Assembly
import Polyglot.Proofs.Hub.Footprint
import Polyglot.Proofs.Hub.Worn
import Polyglot.Proofs.Table
import Polyglot.Proofs.Registry.Flat
import Polyglot.Proofs.Component.Nesting
import Polyglot.Proofs.Component.Attributes
import Polyglot.Proofs.Component.Written
import Polyglot.Proofs.Component.Appended
import Polyglot.Proofs.Component.Turns
import Polyglot.Proofs.Xml.Mapping
import Polyglot.Proofs.Xml.Names
import Polyglot.Proofs.Hub.Debugging
import Polyglot.Proofs.Json.Documents
import Polyglot.Proofs.Component.Root
import Polyglot.Proofs.Xml.Texts
import Polyglot.Proofs.Hub.Loading
import Polyglot.Proofs.Build.Sources
import Polyglot.Proofs.Build.Calls
import Polyglot.Proofs.Component.Reference
import Polyglot.Proofs.Style.Tokens
import Polyglot.Proofs.Catalogue
import Polyglot.Proofs.Log.Streams
import Polyglot.Proofs.Config.File
import Polyglot.Proofs.Scalar
