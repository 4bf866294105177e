import MediaBackup.Admin.Accounts
import MediaBackup.Admin.Paths
import MediaBackup.Agent.Checkpoints
import MediaBackup.Agent.Generations
import MediaBackup.Agent.HandedOut
import MediaBackup.Agent.Manifest
import MediaBackup.Agent.Offers
import MediaBackup.Agent.Persisted
import MediaBackup.Agent.Queue
import MediaBackup.Agent.Quiet
import MediaBackup.Agent.Recovery
import MediaBackup.Agent.Restore
import MediaBackup.Agent.Splitting
import MediaBackup.Android.MediaScanner
import MediaBackup.DatabaseCopies
import MediaBackup.DoctorKeys
import MediaBackup.Fingerprints
import MediaBackup.Framework.Base64
import MediaBackup.Framework.Disk
import MediaBackup.Framework.HardLinks
import MediaBackup.Framework.Holders
import MediaBackup.Framework.Interference
import MediaBackup.Framework.Json
import MediaBackup.Framework.JsonText
import MediaBackup.Framework.JsonTree
import MediaBackup.Framework.LengthPrefix
import MediaBackup.Framework.Lift
import MediaBackup.Framework.LockRace
import MediaBackup.Framework.Noninterference
import MediaBackup.Framework.Observers
import MediaBackup.Framework.Paging
import MediaBackup.Framework.PathText
import MediaBackup.Framework.Phases
import MediaBackup.Framework.Program
import MediaBackup.Framework.Ranking
import MediaBackup.Framework.Restriction
import MediaBackup.Framework.Semaphore
import MediaBackup.Framework.Steps
import MediaBackup.Framework.Table
import MediaBackup.Framework.TokenBucket
import MediaBackup.Framework.Total
import MediaBackup.Framework.Traces
import MediaBackup.Framework.Walk
import MediaBackup.Protocol
import MediaBackup.Server.Admission
import MediaBackup.Server.Announced
import MediaBackup.Server.ApiReads
import MediaBackup.Server.ApiWrites
import MediaBackup.Server.Assembly
import MediaBackup.Server.BearerTokens
import MediaBackup.Server.Calm
import MediaBackup.Server.ChangeLog
import MediaBackup.Server.CommitFrame
import MediaBackup.Server.CommitSpec
import MediaBackup.Server.CompleteSpec
import MediaBackup.Server.Confinement
import MediaBackup.Server.DataDir
import MediaBackup.Server.Deletion
import MediaBackup.Server.Delivery
import MediaBackup.Server.DeliveryCommit
import MediaBackup.Server.Doctor
import MediaBackup.Server.Duplicates
import MediaBackup.Server.Exclusion
import MediaBackup.Server.Isolation
import MediaBackup.Server.Library
import MediaBackup.Server.LoginAdmission
import MediaBackup.Server.LoginBuckets
import MediaBackup.Server.LoginDelays
import MediaBackup.Server.LoginRates
import MediaBackup.Server.Lone
import MediaBackup.Server.Manifests
import MediaBackup.Server.MobileApi
import MediaBackup.Server.Outlook
import MediaBackup.Server.Overview
import MediaBackup.Server.Ownership
import MediaBackup.Server.PartFiles
import MediaBackup.Server.PartRace
import MediaBackup.Server.PartWrites
import MediaBackup.Server.Passes
import MediaBackup.Server.Permanence
import MediaBackup.Server.Progress
import MediaBackup.Server.Quota
import MediaBackup.Server.Reclaim
import MediaBackup.Server.ReconcileSpec
import MediaBackup.Server.Recovery
import MediaBackup.Server.Refusals
import MediaBackup.Server.RequestSpec
import MediaBackup.Server.RootedFs
import MediaBackup.Server.Routes
import MediaBackup.Server.Rules
import MediaBackup.Server.Runs
import MediaBackup.Server.RuntimeLock
import MediaBackup.Server.Sessions
import MediaBackup.Server.Spares
import MediaBackup.Server.StageSpec
import MediaBackup.Server.State
import MediaBackup.Server.Statements
import MediaBackup.Server.Step
import MediaBackup.Server.Storage
import MediaBackup.Server.Stored
import MediaBackup.Server.Sync
import MediaBackup.Server.System
import MediaBackup.Server.Timeline
import MediaBackup.Server.TrustedProxy
import MediaBackup.Server.UploadCommit
import MediaBackup.Server.Valid
import MediaBackup.Server.Versions
import MediaBackup.Server.WeakAdmission
import MediaBackup.StorageKeys
