import Sketch.Main
import Sketch.Figure.Render
import Sketch.Source.Library
import Sketch.Proofs.BuiltinForms
import Sketch.Proofs.CallOutcomes
import Sketch.Proofs.Collection
import Sketch.Proofs.Decimals
import Sketch.Proofs.ErrorSpans
import Sketch.Proofs.Forms
import Sketch.Proofs.Grammar
import Sketch.Proofs.Instances
import Sketch.Proofs.Layers
import Sketch.Proofs.Lines
import Sketch.Proofs.NearestNumbers
import Sketch.Proofs.NumberNaturality
import Sketch.Proofs.NumberText
import Sketch.Proofs.Outcome
import Sketch.Proofs.Positions
import Sketch.Proofs.Recognition
import Sketch.Proofs.ReducedCommands
import Sketch.Proofs.Registration
import Sketch.Proofs.Requests
import Sketch.Proofs.Results
import Sketch.Proofs.RoundTrip
import Sketch.Proofs.ScriptRuns
import Sketch.Proofs.Sequencing
import Sketch.Proofs.Signatures
import Sketch.Proofs.SpanErasure
import Sketch.Proofs.Spans
import Sketch.Proofs.StableTexts
import Sketch.Proofs.Trees
import Sketch.Proofs.UnmatchedBrackets
import Sketch.Proofs.WrittenBack
import Sketch.Proofs.Conflicts
import Sketch.Proofs.Contexts
import Sketch.Proofs.KeptCalls
import Sketch.Proofs.Messages
import Sketch.Proofs.FailingCalls
import Sketch.Proofs.NestingLimit
import Sketch.Proofs.Offsets
import Sketch.Proofs.UnclosedBrackets
import Sketch.Proofs.Spacing
import Sketch.Proofs.SpacedCommands
import Sketch.Proofs.EqualTemplates
import Sketch.Proofs.LookupOrder
import Sketch.Proofs.Heights
import Sketch.Proofs.CurriedCalls
import Sketch.Proofs.SpanIndependence
import Sketch.Proofs.DeclarationOrder
import Sketch.Proofs.EqualTrees
import Sketch.Proofs.Excerpts
import Sketch.Proofs.SourceNumbers
import Sketch.Proofs.CurveSegments
import Sketch.Proofs.DistinctTexts
import Sketch.Proofs.EqualFigures
import Sketch.Proofs.StableCommands
