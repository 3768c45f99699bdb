import SpecTree.Catalog
import SpecTree.CommandLine.Invocation
import SpecTree.CommandLine.Report
import SpecTree.CommandLine.Run
import SpecTree.Comment.Kind
import SpecTree.Comment.Line
import SpecTree.Comment.Token
import SpecTree.Config
import SpecTree.Definition
import SpecTree.Definition.Declaration
import SpecTree.Definition.Scope
import SpecTree.Expansion
import SpecTree.File.Disk
import SpecTree.File.Error
import SpecTree.File.Limits
import SpecTree.File.Path
import SpecTree.File.Sources
import SpecTree.Index
import SpecTree.Json
import SpecTree.Json.Number
import SpecTree.Json.Parser
import SpecTree.Json.Printer
import SpecTree.LoadError
import SpecTree.Loading
import SpecTree.Main
import SpecTree.Naming
import SpecTree.Number.Binary64
import SpecTree.Number.Fixed
import SpecTree.Number.Literal
import SpecTree.Number.Nearest
import SpecTree.Number.Power
import SpecTree.Number.Shortest
import SpecTree.Options
import SpecTree.Primitive
import SpecTree.Proofs.Agreement
import SpecTree.Proofs.Appending
import SpecTree.Proofs.Atomicity
import SpecTree.Proofs.Choice
import SpecTree.Proofs.ChosenType
import SpecTree.Proofs.Coercion
import SpecTree.Proofs.Component
import SpecTree.Proofs.Conditional
import SpecTree.Proofs.Conditional.Runs
import SpecTree.Proofs.Course
import SpecTree.Proofs.Declared
import SpecTree.Proofs.Edit
import SpecTree.Proofs.Everywhere
import SpecTree.Proofs.FailedAccess
import SpecTree.Proofs.Filling.Document
import SpecTree.Proofs.Filling.Hint
import SpecTree.Proofs.Filling.Kind
import SpecTree.Proofs.Filling.Members
import SpecTree.Proofs.Filling.Parsed
import SpecTree.Proofs.Filling.ReadBack
import SpecTree.Proofs.Filling.Selectors
import SpecTree.Proofs.Filling.Slots
import SpecTree.Proofs.Filling.Values
import SpecTree.Proofs.Headed
import SpecTree.Proofs.Indistinct.Node
import SpecTree.Proofs.Indistinct.Spec
import SpecTree.Proofs.Lenient
import SpecTree.Proofs.Listing
import SpecTree.Proofs.Loading
import SpecTree.Proofs.MemoryFiles
import SpecTree.Proofs.Node
import SpecTree.Proofs.Number.Bits
import SpecTree.Proofs.Number.ExponentForm
import SpecTree.Proofs.Number.Rounding
import SpecTree.Proofs.Numeral
import SpecTree.Proofs.OneOf.Access
import SpecTree.Proofs.OneOf.Indistinct
import SpecTree.Proofs.OneOf.Reading
import SpecTree.Proofs.OneOf.Runs
import SpecTree.Proofs.OneOf.Settled
import SpecTree.Proofs.OneOf.Settling
import SpecTree.Proofs.OneOf.Survival
import SpecTree.Proofs.OneOf.Writing
import SpecTree.Proofs.OpenChoices
import SpecTree.Proofs.Operation
import SpecTree.Proofs.Ordered
import SpecTree.Proofs.Parameter
import SpecTree.Proofs.Path
import SpecTree.Proofs.Persistence
import SpecTree.Proofs.References.Building
import SpecTree.Proofs.References.Circle
import SpecTree.Proofs.References.ClosedWalk
import SpecTree.Proofs.References.Closure
import SpecTree.Proofs.References.Expansion
import SpecTree.Proofs.References.Failure
import SpecTree.Proofs.References.Lookup
import SpecTree.Proofs.References.Order
import SpecTree.Proofs.References.Parts
import SpecTree.Proofs.References.Registered
import SpecTree.Proofs.References.Reported
import SpecTree.Proofs.References.Trees
import SpecTree.Proofs.References.Variants
import SpecTree.Proofs.Refusal
import SpecTree.Proofs.Reordering.Alike
import SpecTree.Proofs.Reordering.Catalog
import SpecTree.Proofs.Reordering.Finish
import SpecTree.Proofs.Retention
import SpecTree.Proofs.Scan.Account
import SpecTree.Proofs.Scan.Append
import SpecTree.Proofs.Scan.Blame
import SpecTree.Proofs.Scan.Block
import SpecTree.Proofs.Scan.Concatenation
import SpecTree.Proofs.Scan.Cursor
import SpecTree.Proofs.Scan.Following
import SpecTree.Proofs.Scan.Grammar
import SpecTree.Proofs.Scan.Mark
import SpecTree.Proofs.Scan.Progress
import SpecTree.Proofs.Scan.Renumber
import SpecTree.Proofs.Scan.Spelling
import SpecTree.Proofs.Scan.Steps
import SpecTree.Proofs.Scan.WellFormed
import SpecTree.Proofs.Shape
import SpecTree.Proofs.Sharing
import SpecTree.Proofs.Sound.Build
import SpecTree.Proofs.Sound.Collection
import SpecTree.Proofs.Sound.Component
import SpecTree.Proofs.Sound.Fit
import SpecTree.Proofs.Sound.Node
import SpecTree.Proofs.Sound.OneOf
import SpecTree.Proofs.Sound.Spec
import SpecTree.Proofs.Sound.View
import SpecTree.Proofs.Spec
import SpecTree.Proofs.Status
import SpecTree.Proofs.Suffix.Alternative
import SpecTree.Proofs.Suffix.Building
import SpecTree.Proofs.Suffix.Components
import SpecTree.Proofs.Suffix.Conservative
import SpecTree.Proofs.Suffix.Inherited
import SpecTree.Proofs.Suffix.Trees
import SpecTree.Proofs.Suffix.Writing
import SpecTree.Proofs.Text
import SpecTree.Proofs.TextForm
import SpecTree.Proofs.Typing
import SpecTree.Proofs.Unfinished
import SpecTree.Proofs.UpToDate
import SpecTree.Proofs.Xml
import SpecTree.References
import SpecTree.Registry
import SpecTree.Result
import SpecTree.Text.Blank
import SpecTree.Text.CaseTable
import SpecTree.Text.Cut
import SpecTree.Text.Hex
import SpecTree.Text.Letter
import SpecTree.Text.PrintTable
import SpecTree.Text.Quoted
import SpecTree.Toml
import SpecTree.Toml.Parser
import SpecTree.Toml.Scalar
import SpecTree.Toml.Table
import SpecTree.Tree.Build
import SpecTree.Tree.Choice
import SpecTree.Tree.Collection
import SpecTree.Tree.Component
import SpecTree.Tree.Conditional
import SpecTree.Tree.Edit
import SpecTree.Tree.EntryList
import SpecTree.Tree.Error
import SpecTree.Tree.Explain
import SpecTree.Tree.Fill
import SpecTree.Tree.Node
import SpecTree.Tree.NodeEdit
import SpecTree.Tree.OneOf
import SpecTree.Tree.Open
import SpecTree.Tree.Parameter
import SpecTree.Tree.Spec
import SpecTree.Tree.Xml
import SpecTree.TypeRef
import SpecTree.Value
import SpecTree.Value.Coerce
import SpecTree.Value.Text
