import AdviceMigration.Advice.Binding
import AdviceMigration.Advice.Edit
import AdviceMigration.Advice.Usage
import AdviceMigration.Advice.Error
import AdviceMigration.Advice.Folding
import AdviceMigration.Advice.Framework
import AdviceMigration.Advice.FreshName
import AdviceMigration.Advice.Locals
import AdviceMigration.Advice.Migration
import AdviceMigration.Advice.Plan
import AdviceMigration.Advice.WriteBack
import AdviceMigration.Command.FileTree
import AdviceMigration.Command.Request
import AdviceMigration.Command.Run
import AdviceMigration.Command.Summary
import AdviceMigration.Config.FileFilter
import AdviceMigration.Config.Glob
import AdviceMigration.Config.Glob.Expression
import AdviceMigration.Config.Glob.Kind
import AdviceMigration.Config.Glob.Matching
import AdviceMigration.Config.Glob.Reader
import AdviceMigration.Config.LogLevel
import AdviceMigration.Config.Settings
import AdviceMigration.Config.Toml.DateTime
import AdviceMigration.Config.Toml.Document
import AdviceMigration.Config.Toml.Number
import AdviceMigration.Config.Toml.Reader
import AdviceMigration.Config.Toml.Text
import AdviceMigration.Config.Toml.Value
import AdviceMigration.Main
import AdviceMigration.Proofs.Advice.Binding
import AdviceMigration.Proofs.Advice.Classes
import AdviceMigration.Proofs.Advice.Framework
import AdviceMigration.Proofs.Advice.Heads
import AdviceMigration.Proofs.Advice.Edits
import AdviceMigration.Proofs.Advice.Idempotence
import AdviceMigration.Proofs.Advice.Plans
import AdviceMigration.Proofs.Advice.Session
import AdviceMigration.Proofs.Advice.Settled
import AdviceMigration.Proofs.Advice.WriteBack
import AdviceMigration.Proofs.Execution.BareReturns
import AdviceMigration.Proofs.Execution.Completion
import AdviceMigration.Proofs.Execution.Endings
import AdviceMigration.Proofs.Execution.Machine
import AdviceMigration.Proofs.Scope.Types
import AdviceMigration.Proofs.Source.Lines
import AdviceMigration.Proofs.Source.Mentions
import AdviceMigration.Proofs.Source.PackedReturns
import AdviceMigration.Proofs.Source.PackedSites
import AdviceMigration.Proofs.Source.PathOrder
import AdviceMigration.Proofs.Source.Paths
import AdviceMigration.Proofs.Source.RoundTrip
import AdviceMigration.Proofs.Source.Supply
import AdviceMigration.Proofs.Source.Visiting
import AdviceMigration.Proofs.Text.Newline
import AdviceMigration.Scope.Body
import AdviceMigration.Scope.Event
import AdviceMigration.Scope.Types
import AdviceMigration.Source.Annot
import AdviceMigration.Source.Comment
import AdviceMigration.Source.Completion
import AdviceMigration.Source.Fault
import AdviceMigration.Source.Locate
import AdviceMigration.Source.Node
import AdviceMigration.Source.Operator
import AdviceMigration.Source.Parse.Cursor
import AdviceMigration.Source.Parse.Decl
import AdviceMigration.Source.Parse.Expr
import AdviceMigration.Source.Parse.Grammar
import AdviceMigration.Source.Parse.Stmt
import AdviceMigration.Source.Parse.TypeRef
import AdviceMigration.Source.Parse.Unit
import AdviceMigration.Source.Path
import AdviceMigration.Source.Print.Doc
import AdviceMigration.Source.Print.Tree
import AdviceMigration.Source.Print.Unit
import AdviceMigration.Source.Token
import AdviceMigration.Source.Token.Lexeme
import AdviceMigration.Source.Token.Stream
import AdviceMigration.Source.Traverse
import AdviceMigration.Source.Tree
import AdviceMigration.Source.TypeRef
import AdviceMigration.Text.Blank
import AdviceMigration.Text.Identifier
import AdviceMigration.Text.Json
import AdviceMigration.Text.Newline
import AdviceMigration.Text.Numeral
import AdviceMigration.Text.Place
import AdviceMigration.Text.Printable
import AdviceMigration.Text.Quoted
import AdviceMigration.Proofs.Advice.References
import AdviceMigration.Proofs.Scope.Lookup
import AdviceMigration.Proofs.Scope.Phrases
import AdviceMigration.Proofs.Scope.Alignment
import AdviceMigration.Proofs.Advice.Renaming
import AdviceMigration.Proofs.Source.ReturnSites
import AdviceMigration.Proofs.Advice.PackedBody
import AdviceMigration.Proofs.Advice.KeptEffects
import AdviceMigration.Proofs.Advice.Packing
import AdviceMigration.Proofs.Advice.Folding
import AdviceMigration.Proofs.Advice.Slots
import AdviceMigration.Proofs.Advice.Frames
import AdviceMigration.Proofs.Scope.Contexts
import AdviceMigration.Proofs.Scope.Dangling
import AdviceMigration.Proofs.Advice.Dangling
import AdviceMigration.Proofs.Scope.Standing
import AdviceMigration.Proofs.Advice.FreshNames
import AdviceMigration.Proofs.Advice.Surroundings
import AdviceMigration.Proofs.Advice.Carrier
import AdviceMigration.Proofs.Advice.Container
import AdviceMigration.Proofs.Source.Tokens
import AdviceMigration.Proofs.Source.Cursors
import AdviceMigration.Proofs.Source.Identities
import AdviceMigration.Proofs.Source.Productions
import AdviceMigration.Proofs.Source.Drawing
import AdviceMigration.Proofs.Source.Annotations
import AdviceMigration.Proofs.Advice.Meanings
import AdviceMigration.Proofs.Source.Bounds
import AdviceMigration.Proofs.Source.Halting
import AdviceMigration.Proofs.Source.Termination
import AdviceMigration.Proofs.Advice.Reordering
import AdviceMigration.Proofs.Advice.FoldOutcome
import AdviceMigration.Proofs.Advice.FoldEnds
import AdviceMigration.Proofs.Advice.FoldedBody
import AdviceMigration.Proofs.Advice.SlotTypes
import AdviceMigration.Proofs.Advice.Sharing
import AdviceMigration.Proofs.Scope.Lateness
import AdviceMigration.Proofs.Advice.Usages
import AdviceMigration.Proofs.Scope.Insertion
import AdviceMigration.Proofs.Advice.Substitution
import AdviceMigration.Proofs.Source.Facing
import AdviceMigration.Proofs.Source.Reparsing
import AdviceMigration.Proofs.Source.StoredComments
import AdviceMigration.Proofs.Source.TypeWording
import AdviceMigration.Proofs.Source.TypeReading
import AdviceMigration.Proofs.Source.OwnComments
import AdviceMigration.Proofs.Source.IntLiterals
import AdviceMigration.Proofs.Source.PrintedComments
import AdviceMigration.Proofs.Advice.KeptComments
import AdviceMigration.Proofs.Advice.NameSearch
import AdviceMigration.Proofs.Advice.PendingPaths
import AdviceMigration.Proofs.Source.Spacing
import AdviceMigration.Proofs.Source.Walks
