import DeclSync.Main
import DeclSync.Proofs.BareMethods
import DeclSync.Proofs.ClosingMarks
import DeclSync.Proofs.CombinedMethods
import DeclSync.Proofs.ConcatenatedBundles
import DeclSync.Proofs.ControlFlowLines
import DeclSync.Proofs.DeclarationBlock
import DeclSync.Proofs.DecoratedComments
import DeclSync.Proofs.DocumentedBundles
import DeclSync.Proofs.HeaderWindows
import DeclSync.Proofs.LineBreakStyles
import DeclSync.Proofs.MethodInvariants
import DeclSync.Proofs.NestedScans
import DeclSync.Proofs.PatchedRegions
import DeclSync.Proofs.PerformedRuns
import DeclSync.Proofs.PlainNames
import DeclSync.Proofs.PrevalentEndings
import DeclSync.Proofs.ReadBack
import DeclSync.Proofs.ReportedRuns
import DeclSync.Proofs.Rerun
import DeclSync.Proofs.ScannedLiterals
import DeclSync.Proofs.SearchedHeaders
import DeclSync.Proofs.SharedTargets
import DeclSync.Proofs.Signatures
import DeclSync.Proofs.SplicedFiles
import DeclSync.Proofs.StoppedRuns
import DeclSync.Proofs.Transcoding
import DeclSync.Proofs.UnifiedEndings
import DeclSync.Proofs.WrittenOptions
