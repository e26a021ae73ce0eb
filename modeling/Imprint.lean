import Imprint.Calendar.Date
import Imprint.Calendar.Pattern
import Imprint.Capability
import Imprint.Command.Console
import Imprint.Command.Directory
import Imprint.Command.Help
import Imprint.Command.Path
import Imprint.Command.Program
import Imprint.Command.Request
import Imprint.Command.Source
import Imprint.Command.Switch
import Imprint.Document.Comment
import Imprint.Document.Notation
import Imprint.Document.Package
import Imprint.Document.Paragraph
import Imprint.Document.Range
import Imprint.Document.Run
import Imprint.Document.Template
import Imprint.Expression.Access
import Imprint.Expression.Context
import Imprint.Expression.Evaluate
import Imprint.Expression.Filter
import Imprint.Expression.Fold
import Imprint.Expression.Grammar
import Imprint.Expression.Lexer
import Imprint.Expression.Operation
import Imprint.Expression.Scanner
import Imprint.Expression.Selecting
import Imprint.Expression.Term
import Imprint.Expression.Test
import Imprint.Expression.TextLiteral
import Imprint.Expression.Token
import Imprint.Fault
import Imprint.Json.Basic
import Imprint.Json.Printer
import Imprint.Json.Reader
import Imprint.Main
import Imprint.Number.Binary64
import Imprint.Number.Division
import Imprint.Number.Fixed
import Imprint.Number.Reading
import Imprint.Number.Shortest
import Imprint.Render
import Imprint.Stamping.Commit
import Imprint.Stamping.Configuration
import Imprint.Stamping.Delimiters
import Imprint.Stamping.Directive
import Imprint.Stamping.Dispatch
import Imprint.Stamping.Replacement
import Imprint.Stamping.Stamper
import Imprint.Stamping.World
import Imprint.Text.CaseMapping
import Imprint.Text.Category
import Imprint.Text.Preview
import Imprint.Text.Quoted
import Imprint.Text.Search
import Imprint.Value.Arguments
import Imprint.Value.Arithmetic
import Imprint.Value.Basic
import Imprint.Value.Compare
import Imprint.Value.Format
import Imprint.Value.Function
import Imprint.Value.Member
import Imprint.Value.Method
import Imprint.Value.Percent
import Imprint.Value.Sequence
import Imprint.Value.Text
import Imprint.Value.TextMethod
import Imprint.Xml.Forest
import Imprint.Xml.Node
import Imprint.Xml.Tag
import Imprint.Proofs.Action
import Imprint.Proofs.AttributeReading
import Imprint.Proofs.BreakKinds
import Imprint.Proofs.CellConditions
import Imprint.Proofs.CellParagraphs
import Imprint.Proofs.ChildRevision
import Imprint.Proofs.CommandOutput
import Imprint.Proofs.CommentDeletion
import Imprint.Proofs.CommentErasure
import Imprint.Proofs.CommentRanges
import Imprint.Proofs.CommentStorage
import Imprint.Proofs.CommitFrame
import Imprint.Proofs.CommitRemovals
import Imprint.Proofs.CompiledExpressions
import Imprint.Proofs.ConsumedComments
import Imprint.Proofs.ConsumptionLedger
import Imprint.Proofs.DetachedNodes
import Imprint.Proofs.DirectiveCalls
import Imprint.Proofs.DirectiveEffects
import Imprint.Proofs.DirectiveEvaluation
import Imprint.Proofs.DisplayConditions
import Imprint.Proofs.EngineSteps
import Imprint.Proofs.EvaluatedTexts
import Imprint.Proofs.Evaluation
import Imprint.Proofs.EventAccounting
import Imprint.Proofs.FittingOptions
import Imprint.Proofs.Forest
import Imprint.Proofs.ForestGrowth
import Imprint.Proofs.Frames
import Imprint.Proofs.GuardedCalls
import Imprint.Proofs.Independence
import Imprint.Proofs.InlineDirectives
import Imprint.Proofs.LineBreaks
import Imprint.Proofs.NameLookup
import Imprint.Proofs.NodeNumbering
import Imprint.Proofs.OpenedPackages
import Imprint.Proofs.OverlappingRepeats
import Imprint.Proofs.ParagraphComments
import Imprint.Proofs.PendingComments
import Imprint.Proofs.PendingRequests
import Imprint.Proofs.Phases
import Imprint.Proofs.ProxyBuilding
import Imprint.Proofs.ProxyViews
import Imprint.Proofs.PrunedForests
import Imprint.Proofs.ReadingOffsets
import Imprint.Proofs.RecordedRepeats
import Imprint.Proofs.RefusedEdits
import Imprint.Proofs.Registrations
import Imprint.Proofs.RemainingComments
import Imprint.Proofs.Repetition
import Imprint.Proofs.ReplacedChildren
import Imprint.Proofs.ReplacedText
import Imprint.Proofs.ReplacementEdits
import Imprint.Proofs.ResolvedCopies
import Imprint.Proofs.ResolvedOnce
import Imprint.Proofs.RunAccounting
import Imprint.Proofs.RunContent
import Imprint.Proofs.RunText
import Imprint.Proofs.RunTextRoundTrip
import Imprint.Proofs.SectionTraces
import Imprint.Proofs.SiblingOrder
import Imprint.Proofs.SparedContent
import Imprint.Proofs.SparedNodes
import Imprint.Proofs.SparingSteps
import Imprint.Proofs.StamperReuse
import Imprint.Proofs.TextAlignment
import Imprint.Proofs.TextCuts
import Imprint.Proofs.TextKeys
import Imprint.Proofs.TokenGrammar
import Imprint.Proofs.TokenSearch
import Imprint.Proofs.TokenValues
import Imprint.Proofs.Tree
import Imprint.Proofs.UnreachableTrees
import Imprint.Proofs.UntouchedParagraphs
import Imprint.Proofs.UntouchedTrees
import Imprint.Proofs.ValueResolution
import Imprint.Proofs.ValuesInPlace
import Imprint.Proofs.Walk
import Imprint.Proofs.WalkRewrites
import Imprint.Proofs.WalkVisits
import Imprint.Proofs.WritableTexts
