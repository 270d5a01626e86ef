import Arbor.Files.Tree
import Arbor.Main
import Arbor.Proofs.Lexical
import Arbor.Proofs.EmitRun
import Arbor.Proofs.NodeInduction
import Arbor.Proofs.Refinement
import Arbor.Proofs.Checking
import Arbor.Proofs.Lookups
import Arbor.Proofs.HostScoping
import Arbor.Proofs.Normal
import Arbor.Proofs.NumberReading
import Arbor.Proofs.QuotedReading
import Arbor.Proofs.Reader
import Arbor.Proofs.TypeReading
import Arbor.Proofs.ExpressionReading
import Arbor.Proofs.StatementReading
import Arbor.Proofs.UniqueReading
import Arbor.Proofs.Bodies
import Arbor.Proofs.BodyTyping
import Arbor.Proofs.ScopeLayout
import Arbor.Proofs.ReturnTypes
import Arbor.Proofs.MarkedOutput
import Arbor.Proofs.MarkedScopes
import Arbor.Proofs.Hygiene
import Arbor.Proofs.Structural
import Arbor.Proofs.Alike
import Arbor.Proofs.ReorderedTyping
import Arbor.Proofs.FieldOrder
import Arbor.Proofs.DistinctNames
import Arbor.Proofs.ScopeChanges
import Arbor.Proofs.HostNames
import Arbor.Proofs.Scanning
import Arbor.Proofs.ScannedOutput
import Arbor.Proofs.WrittenBodies
import Arbor.Proofs.DroppedReturns
import Arbor.Proofs.TreeDecoding
import Arbor.Proofs.TreeEncoding
import Arbor.Proofs.ReplTranscript
import Arbor.Proofs.UnusedBindings
import Arbor.Proofs.ScopeHistory
import Arbor.Proofs.FieldPermutations
import Arbor.Proofs.PrettyReading
import Arbor.Proofs.ForeignKeys
import Arbor.Proofs.InternalFailures
import Arbor.Proofs.VisitEffects
import Arbor.Proofs.TypeTexts
import Arbor.Proofs.ReportedTypes
import Arbor.Proofs.MismatchReports
