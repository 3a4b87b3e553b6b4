import QueryShape.OrderedMap
import QueryShape.Wrapped
import QueryShape.Parser
import QueryShape.Source.Lexer
import QueryShape.Source.Executable
import QueryShape.Source.TypeSystem
import QueryShape.Schema
import QueryShape.Selection
import QueryShape.TypingError
import QueryShape.Selection.Text
import QueryShape.Resolved
import QueryShape.Reachability
import QueryShape.Linked
import QueryShape.Flattened
import QueryShape.Json
import QueryShape.Shape.Normal
import QueryShape.Shape.Text
import QueryShape.Signature
import QueryShape.DocumentTyping
import QueryShape.Decimal
import QueryShape.Settings
import QueryShape.Files
import QueryShape.Letters
import QueryShape.Settings.Json
import QueryShape.Settings.Json5
import QueryShape.Settings.KeyPath
import QueryShape.Settings.Yaml
import QueryShape.Settings.Load
import QueryShape.CommandLine
import QueryShape.Main
import QueryShape.Proofs.FieldsReached
import QueryShape.Proofs.TransitiveClosure
import QueryShape.Proofs.DependencyOrder
import QueryShape.Proofs.Outcome
import QueryShape.Proofs.ResolveSteps
import QueryShape.Proofs.Substitution
import QueryShape.Proofs.Linking
import QueryShape.Proofs.Meaning
import QueryShape.Proofs.Everywhere
import QueryShape.Proofs.SchemaTyping
import QueryShape.Proofs.CustomScalars
import QueryShape.Proofs.SelectionShape
import QueryShape.Proofs.Response
import QueryShape.Proofs.Soundness
import QueryShape.Proofs.Echoes
import QueryShape.Proofs.Agreement
import QueryShape.Proofs.RepeatedItems
import QueryShape.Proofs.RepeatedLinking
import QueryShape.Proofs.FirstOccurrences
import QueryShape.Proofs.Merging
import QueryShape.Proofs.RepeatedShapes
import QueryShape.Proofs.Cycles
import QueryShape.Proofs.Height
import QueryShape.Proofs.LinkedHeight
import QueryShape.Proofs.Expansion
import QueryShape.Proofs.HeightCap
import QueryShape.Proofs.CapThreshold
import QueryShape.Proofs.DeclarationOrder
import QueryShape.Proofs.Resolving
import QueryShape.Proofs.Independence
import QueryShape.Proofs.ShapeParts
import QueryShape.Proofs.WellFormedShapes
import QueryShape.Proofs.ExactTypename
import QueryShape.Proofs.StableSort
import QueryShape.Proofs.StableOrder
import QueryShape.Proofs.OwnTypeChains
import QueryShape.Proofs.Quoting
import QueryShape.Proofs.UniqueReading
import QueryShape.Proofs.Arguments
import QueryShape.Proofs.CommandOutcome
import QueryShape.Proofs.FixedSelections
import QueryShape.Proofs.NormalForms
import QueryShape.Proofs.NormalMeaning
import QueryShape.Proofs.InputTypes
import QueryShape.Proofs.VariableTypes
import QueryShape.Proofs.Acceptance
import QueryShape.Proofs.Listing
import QueryShape.Proofs.PossibleTypes
import QueryShape.Proofs.Fallback
import QueryShape.Proofs.Components
import QueryShape.Proofs.CyclicFragments
import QueryShape.Proofs.Propagation
import QueryShape.Proofs.MergedDefinitions
import QueryShape.Proofs.DepthFigures
import QueryShape.Proofs.TableReading
import QueryShape.Proofs.EnvironmentReading
import QueryShape.Proofs.EnvironmentLayer
import QueryShape.Proofs.NotedFigures
