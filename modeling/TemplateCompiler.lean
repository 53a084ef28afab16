import TemplateCompiler.Command.Arguments
import TemplateCompiler.Command.Run
import TemplateCompiler.Compile
import TemplateCompiler.Component.Config
import TemplateCompiler.Component.Exports
import TemplateCompiler.Component.Imports
import TemplateCompiler.Component.Script
import TemplateCompiler.Edit.Buffer
import TemplateCompiler.Error
import TemplateCompiler.Loader.FileTree
import TemplateCompiler.Loader.Load
import TemplateCompiler.Main
import TemplateCompiler.Number.Binary64
import TemplateCompiler.Number.Shortest
import TemplateCompiler.Proofs.Text.Cut
import TemplateCompiler.Render.Block
import TemplateCompiler.Render.Compose
import TemplateCompiler.Render.Escape
import TemplateCompiler.Render.Fragment
import TemplateCompiler.Render.Module
import TemplateCompiler.Render.Reference
import TemplateCompiler.Resolve.Outline
import TemplateCompiler.Resolve.Reference
import TemplateCompiler.Scope
import TemplateCompiler.Script.Binding
import TemplateCompiler.Script.Grammar
import TemplateCompiler.Script.Grammar.Basic
import TemplateCompiler.Script.Grammar.Expression
import TemplateCompiler.Script.Grammar.Function
import TemplateCompiler.Script.Grammar.Module
import TemplateCompiler.Script.Grammar.Pattern
import TemplateCompiler.Script.Grammar.Statement
import TemplateCompiler.Script.Identifier
import TemplateCompiler.Script.NameChar
import TemplateCompiler.Script.Scanner
import TemplateCompiler.Script.Spelling
import TemplateCompiler.Script.Token
import TemplateCompiler.Script.Tree
import TemplateCompiler.Span
import TemplateCompiler.Template.Attribute
import TemplateCompiler.Template.Fault
import TemplateCompiler.Template.Mustache
import TemplateCompiler.Template.Name
import TemplateCompiler.Template.Reader
import TemplateCompiler.Template.Tree
import TemplateCompiler.Template.Validation
import TemplateCompiler.Text.Basic
import TemplateCompiler.Text.Blank
import TemplateCompiler.Text.Letter
import TemplateCompiler.Text.Position
import TemplateCompiler.Text.Quoted
import TemplateCompiler.Text.Utf8
import TemplateCompiler.Proofs.Edit.Anchored
import TemplateCompiler.Proofs.Outcome
import TemplateCompiler.Proofs.Script.Bindings
import TemplateCompiler.Proofs.Script.Placed
import TemplateCompiler.Proofs.Grammar.Scanning
import TemplateCompiler.Proofs.Grammar.States
import TemplateCompiler.Proofs.Grammar.Rows
import TemplateCompiler.Proofs.Grammar.Steps
import TemplateCompiler.Proofs.Grammar.Patterns
import TemplateCompiler.Proofs.Grammar.Functions
import TemplateCompiler.Proofs.Grammar.Expressions
import TemplateCompiler.Proofs.Grammar.Statements
import TemplateCompiler.Proofs.Grammar.Modules
import TemplateCompiler.Proofs.Grammar.Soundness
import TemplateCompiler.Proofs.Component.Removal
import TemplateCompiler.Proofs.Component.Linking
import TemplateCompiler.Proofs.Template.Cursor
import TemplateCompiler.Proofs.Template.Reading
import TemplateCompiler.Proofs.Template.Nodes
import TemplateCompiler.Proofs.Template.Expressions
import TemplateCompiler.Proofs.Compilation
import TemplateCompiler.Proofs.Emitted.Lexical
import TemplateCompiler.Proofs.Template.Formed
import TemplateCompiler.Proofs.Emitted.Atoms
import TemplateCompiler.Proofs.Emitted.Weight
import TemplateCompiler.Proofs.Emitted.Markup
import TemplateCompiler.Proofs.Emitted.Target
import TemplateCompiler.Proofs.Emitted.Evaluation
import TemplateCompiler.Proofs.Emitted.Parsing
import TemplateCompiler.Proofs.Emitted.Meaning
import TemplateCompiler.Proofs.Resolve.References
import TemplateCompiler.Proofs.Resolve.Scoping
import TemplateCompiler.Proofs.Text.Lines
import TemplateCompiler.Proofs.Render.Provenance
import TemplateCompiler.Proofs.Component.Confinement
import TemplateCompiler.Proofs.Template.Apart
import TemplateCompiler.Proofs.Render.Occurrences
import TemplateCompiler.Proofs.Template.Layout
import TemplateCompiler.Proofs.Template.Tiling
import TemplateCompiler.Proofs.Render.Capture
import TemplateCompiler.Proofs.Text.Bytes
import TemplateCompiler.Proofs.Edit.History
import TemplateCompiler.Proofs.Edit.Meaning
import TemplateCompiler.Proofs.Edit.Pieces
import TemplateCompiler.Proofs.Component.Rewriting
import TemplateCompiler.Proofs.Component.RemovedRanges
import TemplateCompiler.Proofs.Component.Hygiene
import TemplateCompiler.Proofs.Component.Rereading
import TemplateCompiler.Proofs.Loader.Cache
import TemplateCompiler.Proofs.Edit.Commutation
import TemplateCompiler.Proofs.Edit.Splicing
import TemplateCompiler.Proofs.Resolve.Hiding
import TemplateCompiler.Proofs.Script.Shifted
import TemplateCompiler.Proofs.Template.Invariants
import TemplateCompiler.Proofs.Template.Moved
import TemplateCompiler.Proofs.Template.Concatenation
import TemplateCompiler.Proofs.Render.Concatenation
import TemplateCompiler.Proofs.Script.Gaps
import TemplateCompiler.Proofs.Script.Headers
import TemplateCompiler.Proofs.Render.Seams
import TemplateCompiler.Proofs.Resolve.Names
import TemplateCompiler.Proofs.Resolve.Locality
import TemplateCompiler.Proofs.Resolve.BlindSpots
import TemplateCompiler.Proofs.Template.Skimming
import TemplateCompiler.Proofs.Template.WholeMustache
import TemplateCompiler.Proofs.Template.Trailing
import TemplateCompiler.Proofs.Template.EachHeader
import TemplateCompiler.Proofs.FirstFault
import TemplateCompiler.Proofs.Component.Configuration
import TemplateCompiler.Proofs.Template.Violations
import TemplateCompiler.Proofs.Component.LiteralSpans
import TemplateCompiler.Proofs.Template.Pointing
import TemplateCompiler.Proofs.Command.Location
import TemplateCompiler.Proofs.Template.Watching
import TemplateCompiler.Proofs.Template.Recording
import TemplateCompiler.Proofs.Template.Progress
import TemplateCompiler.Proofs.Edit.Refusal
import TemplateCompiler.Proofs.Emitted.Escaping
import TemplateCompiler.Proofs.Script.Quoting
import TemplateCompiler.Proofs.Script.Hoisting
