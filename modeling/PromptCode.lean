import PromptCode.Py.Str
import PromptCode.Py.Path
import PromptCode.Py.Utf8
import PromptCode.Py.Err
import PromptCode.Py.Sha256
import PromptCode.Py.Json
import PromptCode.Py.Base64
import PromptCode.Py.Float
import PromptCode.Py.FloatRepr
import PromptCode.Py.JsonValue
import PromptCode.Py.JsonLoads
import PromptCode.Py.Convert
import PromptCode.Transition
import PromptCode.FileTree.Basic
import PromptCode.FileTree.Walk
import PromptCode.FileTree.Names
import PromptCode.Registry
import PromptCode.PathPolicy
import PromptCode.StorageLedger
import PromptCode.WorkspaceQuota
import PromptCode.Workspace
import PromptCode.FrozenPaths
import PromptCode.SourceManifest
import PromptCode.ManifestReader
import PromptCode.ObjectStore
import PromptCode.SubmissionStore
import PromptCode.DurableSubmission
import PromptCode.DurableRoundTrip
import PromptCode.ExecutionTransfer
import PromptCode.RemoteGrading
import PromptCode.SaveRefresh
import PromptCode.Submittable
import PromptCode.SnapshotFreeze
import PromptCode.FreezeImmutable
import PromptCode.RowLock
import PromptCode.EvaluationQueue
import PromptCode.TrustedResult
import PromptCode.SignedResults
import PromptCode.GradingJobs
import PromptCode.GradingLease
import PromptCode.Assessment
import PromptCode.ReviewBoard
import PromptCode.ReviewOutcomes
import PromptCode.ReviewProtocol
import PromptCode.ReviewChain
import PromptCode.PublishedReviews
import PromptCode.AppealProtocol
import PromptCode.FairSemaphore
import PromptCode.CapacityQueue
import PromptCode.LegacyBroker
import PromptCode.LegacyJobCalls
import PromptCode.LegacyBrokerRuns
import PromptCode.AiBudget
import PromptCode.LedgerSums
import PromptCode.StorageReservations
import PromptCode.RetainedArtifacts
import PromptCode.ArtifactAccounting
import PromptCode.StorageCap
import PromptCode.SubmissionRuns
import PromptCode.CommitMarker
import PromptCode.SandboxRelay
import PromptCode.RelayAccounting
import PromptCode.RefreshRotation
import PromptCode.PasswordReset
import PromptCode.InviteCap
import PromptCode.TokenRevocation
import PromptCode.RateLimit
import PromptCode.Py.Timedelta
import PromptCode.Lifecycle
import PromptCode.SessionTimer
import PromptCode.Py.Rational
import PromptCode.UsageScores
import PromptCode.AutomatedGrading
import PromptCode.GradingCalibration
import PromptCode.Leaderboard
import PromptCode.Fencing
import PromptCode.UserContent
import PromptCode.AiMastery
import PromptCode.Py.JsonErrors
import PromptCode.Py.Text
import PromptCode.Py.UnitFloat
import PromptCode.Py.Difflib
import PromptCode.Py.Strptime
import PromptCode.Greedy
import PromptCode.Scorer
import PromptCode.ListScoring
import PromptCode.ProcessRun
import PromptCode.Scorable
import PromptCode.CanonicalComparison
import PromptCode.ExecutionFeedback
import PromptCode.Py.Surrogates
import PromptCode.Py.SameValue
import PromptCode.Py.IpAddress
import PromptCode.ClientIp
import PromptCode.EditorRoundTrip
import PromptCode.Py.Lines
import PromptCode.DiffStats
import PromptCode.Py.Symlinks
import PromptCode.PathContainment
import PromptCode.ProposalEditor
import PromptCode.ProposalDisposition
import PromptCode.RowTable
import PromptCode.GradingAdmission
import PromptCode.AttemptStart
import PromptCode.RevisionHistory
import PromptCode.SavedFiles
import PromptCode.EditorTabs
import PromptCode.Cleanup
import PromptCode.AutomaticGrades
import PromptCode.PublishedGrades
import PromptCode.FreezeRetry
import PromptCode.EvaluationCommit
