import ModelForms.Bounds.Depth
import ModelForms.Bounds.Guard
import ModelForms.Bounds.Limits
import ModelForms.Command.Args
import ModelForms.Command.Config
import ModelForms.Command.LogSettings
import ModelForms.Command.Options
import ModelForms.Command.Rendering
import ModelForms.Command.Report
import ModelForms.Command.Run
import ModelForms.Diagnostic
import ModelForms.Document.Basic
import ModelForms.Document.Error
import ModelForms.Document.Lowering
import ModelForms.Entries
import ModelForms.Expr.Basic
import ModelForms.Expr.Parser
import ModelForms.Expr.Token
import ModelForms.FieldPath
import ModelForms.Files.Basic
import ModelForms.Files.Memory
import ModelForms.Files.Path
import ModelForms.Form.Conformance
import ModelForms.Form.Control
import ModelForms.Form.Matching
import ModelForms.Form.Walk
import ModelForms.Hint
import ModelForms.Intrinsic
import ModelForms.Json.Basic
import ModelForms.Json.Message
import ModelForms.Json.Reader
import ModelForms.Json.Record
import ModelForms.Json.Text
import ModelForms.Location
import ModelForms.Main
import ModelForms.Mode
import ModelForms.NameRegister
import ModelForms.Number.Decimal
import ModelForms.Number.Double
import ModelForms.Number.Shortest
import ModelForms.Proofs.Bounds.BalancedWalks
import ModelForms.Proofs.Command.Overriding
import ModelForms.Proofs.Document.CircularModels
import ModelForms.Proofs.Document.ComposedProperties
import ModelForms.Proofs.Document.DefiningModels
import ModelForms.Proofs.Document.Dependencies
import ModelForms.Proofs.Document.Directives
import ModelForms.Proofs.Document.ErrorLocations
import ModelForms.Proofs.Document.FaithfulLowering
import ModelForms.Proofs.Document.Imitation
import ModelForms.Proofs.Document.KeyLists
import ModelForms.Proofs.Document.Lowerable
import ModelForms.Proofs.Document.Lowered
import ModelForms.Proofs.Document.LoweringDocuments
import ModelForms.Proofs.Document.LoweringStates
import ModelForms.Proofs.Document.Meaning
import ModelForms.Proofs.Document.NameLocations
import ModelForms.Proofs.Document.NamedOperands
import ModelForms.Proofs.Document.OrderOfModels
import ModelForms.Proofs.Document.Outcomes
import ModelForms.Proofs.Document.ReadingBack
import ModelForms.Proofs.Document.RegroupedDocuments
import ModelForms.Proofs.Document.RegroupedMeanings
import ModelForms.Proofs.Document.Regrouping
import ModelForms.Proofs.Document.Resolution
import ModelForms.Proofs.Document.ScheduledLowering
import ModelForms.Proofs.Document.Schedules
import ModelForms.Proofs.Entries
import ModelForms.Proofs.Expr.Embedding
import ModelForms.Proofs.Expr.ErrorPositions
import ModelForms.Proofs.Expr.Grammar
import ModelForms.Proofs.Expr.Parsing
import ModelForms.Proofs.Expr.Regrouping
import ModelForms.Proofs.Expr.Scanning
import ModelForms.Proofs.Expr.SlicedScanning
import ModelForms.Proofs.Expr.StringLiterals
import ModelForms.Proofs.Expr.Tiling
import ModelForms.Proofs.Form.BlankForms
import ModelForms.Proofs.Form.CheckedValues
import ModelForms.Proofs.Form.ControlPaths
import ModelForms.Proofs.Form.DefectOrder
import ModelForms.Proofs.Form.Defects
import ModelForms.Proofs.Form.Derivations
import ModelForms.Proofs.Form.FaithfulForms
import ModelForms.Proofs.Form.GroupPaths
import ModelForms.Proofs.Form.Inhabitation
import ModelForms.Proofs.Form.Levels
import ModelForms.Proofs.Form.ModelValues
import ModelForms.Proofs.Form.NullableCells
import ModelForms.Proofs.Form.Resetting
import ModelForms.Proofs.Form.StrippedValues
import ModelForms.Proofs.Form.TreeValues
import ModelForms.Proofs.Form.ValueNesting
import ModelForms.Proofs.Form.Walks
import ModelForms.Proofs.Json.Pointers
import ModelForms.Proofs.Json.Reading
import ModelForms.Proofs.Json.Rewriting
import ModelForms.Proofs.Lockstep
import ModelForms.Proofs.Runs
import ModelForms.Proofs.Text.Codes
import ModelForms.Proofs.Text.Cutting
import ModelForms.Proofs.Text.Filling
import ModelForms.Proofs.Text.Messages
import ModelForms.Proofs.Text.Replacing
import ModelForms.Proofs.Tree.Additions
import ModelForms.Proofs.Tree.Agreement
import ModelForms.Proofs.Tree.Collapsing
import ModelForms.Proofs.Tree.Cycles
import ModelForms.Proofs.Tree.DepthErrors
import ModelForms.Proofs.Tree.Exactness
import ModelForms.Proofs.Tree.Failures
import ModelForms.Proofs.Tree.Guarded
import ModelForms.Proofs.Tree.HonouredHints
import ModelForms.Proofs.Tree.LocalHints
import ModelForms.Proofs.Tree.ModeIndependence
import ModelForms.Proofs.Tree.Naming
import ModelForms.Proofs.Tree.Navigation
import ModelForms.Proofs.Tree.NullFree
import ModelForms.Proofs.Tree.Plans
import ModelForms.Proofs.Tree.Positions
import ModelForms.Proofs.Tree.Refusals
import ModelForms.Proofs.Tree.Rules
import ModelForms.Proofs.Tree.SharedTables
import ModelForms.Proofs.Tree.Visits
import ModelForms.Proofs.Tree.WrittenPaths
import ModelForms.Proofs.Types.Aliases
import ModelForms.Proofs.Types.BrokenChains
import ModelForms.Proofs.Types.Closed
import ModelForms.Proofs.Types.CompositionLaws
import ModelForms.Proofs.Types.Growth
import ModelForms.Proofs.Types.Handles
import ModelForms.Proofs.Types.NamedLaws
import ModelForms.Proofs.Types.NamedProperties
import ModelForms.Proofs.Types.NamedTerms
import ModelForms.Proofs.Types.Pools
import ModelForms.Proofs.Types.PropertyLaws
import ModelForms.Proofs.Types.Reach
import ModelForms.Proofs.Types.Restoring
import ModelForms.Proofs.Types.Sessions
import ModelForms.Proofs.Types.Spelling
import ModelForms.Proofs.Types.Stripping
import ModelForms.Proofs.Types.Terms
import ModelForms.Proofs.Types.Unfolding
import ModelForms.Proofs.Types.UnionForm
import ModelForms.Proofs.Types.UnionLaws
import ModelForms.Proofs.Types.UniqueTexts
import ModelForms.Text.CharClass
import ModelForms.Text.Pieces
import ModelForms.Text.Quoted
import ModelForms.Text.Shown
import ModelForms.Tree.Basic
import ModelForms.Tree.Derive
import ModelForms.Tree.Error
import ModelForms.Tree.Expansion
import ModelForms.Tree.Plan
import ModelForms.Tree.Text
import ModelForms.Types.Catalog
import ModelForms.Types.Composition
import ModelForms.Types.Definitions
import ModelForms.Types.Nullability
import ModelForms.Types.Storage
import ModelForms.Types.Table
import ModelForms.Types.Term
import ModelForms.Proofs.Document.WrittenModes
import ModelForms.NameStorage
import ModelForms.Proofs.Bounds.GuardCalls
import ModelForms.Proofs.NameCalls
import ModelForms.Proofs.Document.KeptProperties
import ModelForms.Types.DefinitionStorage
import ModelForms.Proofs.FirstOccurrences
import ModelForms.Proofs.Types.StoredDefinitions
import ModelForms.Proofs.Types.DefinitionCalls
