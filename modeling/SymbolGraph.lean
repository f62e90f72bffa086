import SymbolGraph.Arena
import SymbolGraph.Attempt
import SymbolGraph.CommandLine
import SymbolGraph.Config
import SymbolGraph.Error
import SymbolGraph.Failure
import SymbolGraph.Fixture
import SymbolGraph.Handlers
import SymbolGraph.Java.Codec
import SymbolGraph.Java.Flatten
import SymbolGraph.Java.Tree
import SymbolGraph.Json.Decode
import SymbolGraph.Json.Doc
import SymbolGraph.Json.Draft
import SymbolGraph.Json.Token
import SymbolGraph.Json.Value
import SymbolGraph.Key
import SymbolGraph.Kind
import SymbolGraph.Kotlin.Codec
import SymbolGraph.Kotlin.Flatten
import SymbolGraph.Kotlin.Tree
import SymbolGraph.Layout
import SymbolGraph.Lazy
import SymbolGraph.Location
import SymbolGraph.Main
import SymbolGraph.Names.Hierarchy
import SymbolGraph.Names.Index
import SymbolGraph.Names.Resolve
import SymbolGraph.Oracle
import SymbolGraph.Processor
import SymbolGraph.Proofs.Action
import SymbolGraph.Proofs.Agreement.Basic
import SymbolGraph.Proofs.Agreement.Semantics
import SymbolGraph.Proofs.Agreement.Symbols
import SymbolGraph.Proofs.Agreement.Traversal
import SymbolGraph.Proofs.Agreement.Views
import SymbolGraph.Proofs.Aliases
import SymbolGraph.Proofs.Assignability
import SymbolGraph.Proofs.Codec
import SymbolGraph.Proofs.Comparison
import SymbolGraph.Proofs.Descent
import SymbolGraph.Proofs.Direct.Basic
import SymbolGraph.Proofs.Direct.Children
import SymbolGraph.Proofs.Direct.Declarations
import SymbolGraph.Proofs.Direct.Founded
import SymbolGraph.Proofs.Direct.Gathering
import SymbolGraph.Proofs.Direct.Genuine
import SymbolGraph.Proofs.Direct.Traversal
import SymbolGraph.Proofs.Direct.Types
import SymbolGraph.Proofs.Direct.Unasking
import SymbolGraph.Proofs.Dispatch
import SymbolGraph.Proofs.Expansion
import SymbolGraph.Proofs.Fixture
import SymbolGraph.Proofs.Forest
import SymbolGraph.Proofs.Guards
import SymbolGraph.Proofs.Hierarchy
import SymbolGraph.Proofs.Idempotence
import SymbolGraph.Proofs.Identity
import SymbolGraph.Proofs.Index
import SymbolGraph.Proofs.Inquiry
import SymbolGraph.Proofs.Interning
import SymbolGraph.Proofs.Java.Codec
import SymbolGraph.Proofs.Java.Flatten
import SymbolGraph.Proofs.Java.InKotlin
import SymbolGraph.Proofs.Json.Decode
import SymbolGraph.Proofs.Json.Draft
import SymbolGraph.Proofs.Json.Spelling
import SymbolGraph.Proofs.Json.Text
import SymbolGraph.Proofs.Kind
import SymbolGraph.Proofs.Kotlin.Codec
import SymbolGraph.Proofs.Kotlin.Erasure
import SymbolGraph.Proofs.Kotlin.Flatten
import SymbolGraph.Proofs.Layout
import SymbolGraph.Proofs.Layout.Alike
import SymbolGraph.Proofs.Layout.Building
import SymbolGraph.Proofs.Layout.Mirrored
import SymbolGraph.Proofs.Layout.Outline
import SymbolGraph.Proofs.Members
import SymbolGraph.Proofs.Memory
import SymbolGraph.Proofs.Models
import SymbolGraph.Proofs.Names
import SymbolGraph.Proofs.Navigation
import SymbolGraph.Proofs.Nearest
import SymbolGraph.Proofs.Operation
import SymbolGraph.Proofs.Outcome
import SymbolGraph.Proofs.Outline
import SymbolGraph.Proofs.Overridee
import SymbolGraph.Proofs.Overriding
import SymbolGraph.Proofs.PackageNames
import SymbolGraph.Proofs.Preorder
import SymbolGraph.Proofs.Processor
import SymbolGraph.Proofs.Pruning
import SymbolGraph.Proofs.QualifiedName
import SymbolGraph.Proofs.Questions
import SymbolGraph.Proofs.Reentrance
import SymbolGraph.Proofs.References
import SymbolGraph.Proofs.Renaming.Arena
import SymbolGraph.Proofs.Renaming.Layout
import SymbolGraph.Proofs.Renaming.Models
import SymbolGraph.Proofs.Renaming.Names
import SymbolGraph.Proofs.Renaming.Run
import SymbolGraph.Proofs.Renaming.Unambiguous
import SymbolGraph.Proofs.Resolution
import SymbolGraph.Proofs.Roots
import SymbolGraph.Proofs.Search
import SymbolGraph.Proofs.Settled
import SymbolGraph.Proofs.Silence
import SymbolGraph.Proofs.Spelling
import SymbolGraph.Proofs.Text.TypeText
import SymbolGraph.Proofs.Thrift
import SymbolGraph.Proofs.Traversal
import SymbolGraph.Proofs.Unfolding
import SymbolGraph.Proofs.Visit
import SymbolGraph.Proofs.Walk
import SymbolGraph.Search
import SymbolGraph.Session.Basic
import SymbolGraph.Session.Declarations
import SymbolGraph.Session.Overriding
import SymbolGraph.Session.References
import SymbolGraph.Session.State
import SymbolGraph.Session.Symbol
import SymbolGraph.Session.Types
import SymbolGraph.Shape
import SymbolGraph.Shape.Codec
import SymbolGraph.Text.CharacterClass
import SymbolGraph.Text.TextMap
import SymbolGraph.Text.TypeText
import SymbolGraph.Traversal
import SymbolGraph.Type
import SymbolGraph.TypeTable
