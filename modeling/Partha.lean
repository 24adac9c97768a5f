import Partha.Ai.ConfigStore
import Partha.Ai.Conversation
import Partha.Analysis.ArchitectureModel
import Partha.Analysis.GuardedSubgraph
import Partha.Analysis.Impact
import Partha.Analysis.SourceStream
import Partha.Analysis.ModuleNames
import Partha.Auth.Allowlist
import Partha.Auth.Families
import Partha.Auth.Flows
import Partha.Auth.Callback
import Partha.Analysis.ProductSurfaces
import Partha.Analysis.RevisionManifest
import Partha.Auth.Origins
import Partha.Auth.SignIn
import Partha.Browser.ArchitectureLayout
import Partha.Browser.AuthStore
import Partha.Browser.RefreshReplay
import Partha.Canonical.Encoding
import Partha.Canonical.Projection
import Partha.Canonical.Rearrangement
import Partha.Core.RateLimit
import Partha.Egress.Policy
import Partha.Evidence.Citations
import Partha.Extraction.Dependencies
import Partha.Extraction.FailClosed
import Partha.Extraction.Http
import Partha.Extraction.ImportBindings
import Partha.Extraction.LexicalScopes
import Partha.Extraction.RequirementLines
import Partha.Extraction.RequirementNames
import Partha.Extraction.FetchMethod
import Partha.Extraction.JsonLines
import Partha.Jobs.Cancellation
import Partha.Jobs.Submission
import Partha.Lineage.Backfill
import Partha.Lineage.Pointer
import Partha.Lineage.Reanalysis
import Partha.Repository.Atomicity
import Partha.Reports.MarkdownReport
import Partha.Repository.Parsing
import Partha.Resolution.InjectedGuards
import Partha.Resolution.LexicalNesting
import Partha.Resolution.RelativeImports
import Partha.Resolution.ShadowedCalls
import Partha.Review.Filtering
import Partha.Review.SharedDispositions
import Partha.Snapshot.DerivationGraph
import Partha.Snapshot.Immutability
import Partha.Snapshot.Validation
