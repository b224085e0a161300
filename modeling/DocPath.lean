import DocPath.Cli.Session
import DocPath.Document.Display
import DocPath.Document.Equality
import DocPath.Main
import DocPath.Proofs.ReadBack
import DocPath.Proofs.WriteFailure
import DocPath.Proofs.Removal
import DocPath.Proofs.ScopeLens
import DocPath.Path.Grammar
import DocPath.Proofs.PathReading
import DocPath.Proofs.PathText
import DocPath.Document.Ordered
import DocPath.Proofs.DeepMerge
import DocPath.Proofs.DecodedOrder
import DocPath.Proofs.MergeCommand
import DocPath.Proofs.CachedIdentity
import DocPath.Proofs.Publishing
import DocPath.Proofs.FilePlaces
import DocPath.Proofs.Presented
import DocPath.Proofs.PipelineRegisters
import DocPath.Proofs.CommandEffects
import DocPath.Proofs.EditedOrder
import DocPath.Proofs.SetThenGet
import DocPath.Proofs.NestingDepth
import DocPath.Proofs.DetachedStatus
import DocPath.Proofs.LeafWrites
import DocPath.Proofs.MergeAlgebra
import DocPath.Proofs.IndependentWrites
import DocPath.Proofs.LensLaws
import DocPath.Proofs.EditInvariants
import DocPath.Proofs.SequenceLimit
import DocPath.Proofs.UndoneEdits
import DocPath.Proofs.JsonTokens
import DocPath.Proofs.JsonLexing
import DocPath.Proofs.JsonRoundTrip
import DocPath.Proofs.PathComponents
import DocPath.Proofs.StatusRuns
import DocPath.Proofs.JoinedPaths
import DocPath.Proofs.JsonRoutes
import DocPath.Proofs.WholeNumbers
import DocPath.Proofs.ApiVersions
import DocPath.Proofs.NumericEquality
import DocPath.Proofs.LocalTags
import DocPath.Proofs.IntegerNumerals
import DocPath.Proofs.JsonLocality
import DocPath.Proofs.JsonPlaces
import DocPath.Proofs.YamlPlaces
import DocPath.Proofs.IntegerPlaces
