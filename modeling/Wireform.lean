import Wireform.Schema.Reader
import Wireform.Schema.Writer
import Wireform.Schema.Merge
import Wireform.Bytes
import Wireform.Timestamp
import Wireform.Integer
import Wireform.Index.Build
import Wireform.Index.Writer
import Wireform.Report
import Wireform.Codec.Encode
import Wireform.Codec.Decode
import Wireform.Plan.Writer
import Wireform.Conformance
import Wireform.Main
import Wireform.Pattern.Reader
import Wireform.Text.Split
import Wireform.Proofs.RoundTrip
import Wireform.Proofs.LiftedRoundTrip
import Wireform.Proofs.StableEncoding
import Wireform.Proofs.PlannedMessages
import Wireform.Proofs.JustifiedSteps
import Wireform.Proofs.MatchedTexts
import Wireform.Proofs.DocumentComponents
import Wireform.Proofs.SeenMembers
import Wireform.Proofs.NullProperties
import Wireform.Proofs.RequiredKeys
import Wireform.Proofs.AdmittedValues
import Wireform.Proofs.ConformingValues
import Wireform.Proofs.ConformingMessages
import Wireform.Proofs.FlatConformance
import Wireform.Proofs.VariantConformance
import Wireform.Proofs.ResolvedReferences
import Wireform.Proofs.DocumentedKeys
import Wireform.Proofs.AgreeingInterfaces
import Wireform.Proofs.LintReports
import Wireform.Proofs.LaidPlans
import Wireform.Proofs.RearrangedFiles
import Wireform.Proofs.SelectedTargets
import Wireform.Proofs.IndexContents
import Wireform.Proofs.PackageClauses
import Wireform.Proofs.RestoredSets
import Wireform.Proofs.ClosedDocuments
import Wireform.Proofs.ComponentKeys
import Wireform.Proofs.TypeNames
import Wireform.Proofs.EnumTables
import Wireform.Proofs.UnwrappedDocuments
import Wireform.Proofs.Numerals
import Wireform.Proofs.ReadInstants
import Wireform.Proofs.StrictBytes
import Wireform.Proofs.TableLookups
import Wireform.Proofs.ReorderedFields
import Wireform.Proofs.NestingDepth
import Wireform.Proofs.EmissionOutcomes
import Wireform.Proofs.RelativePaths
import Wireform.Proofs.MergedSets
import Wireform.Proofs.ImportBlocks
import Wireform.Proofs.MalformedReports
import Wireform.Proofs.StringLiterals
import Wireform.Proofs.WrittenLiterals
