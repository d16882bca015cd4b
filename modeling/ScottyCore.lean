import ScottyCore.Lib.Run
import ScottyCore.Lib.KeyedTable
import ScottyCore.Lib.Exchange
import ScottyCore.Lib.History
import ScottyCore.Core.Merge
import ScottyCore.Backup.Builtins
import ScottyCore.Sync.PushDelta
import ScottyCore.Sync.Stale
import ScottyCore.Sync.Mesh
import ScottyCore.Sync.Pull
import ScottyCore.Sync.Version
import ScottyCore.Sync.Convergence
import ScottyCore.Sync.Cursor
import ScottyCore.Auth.ExternalLogin
import ScottyCore.Auth.JwtUser
import ScottyCore.Lib.Raise
import ScottyCore.Auth.Deactivated
import ScottyCore.Auth.CompletedLogin
import ScottyCore.Auth.Gates
import ScottyCore.Auth.BackupCodes
import ScottyCore.Auth.Setup
import ScottyCore.Users.TenantApi
import ScottyCore.Lib.Json
import ScottyCore.Settings.Service
import ScottyCore.Auth.Middleware
import ScottyCore.Auth.Credentials
import ScottyCore.Auth.Lockout
import ScottyCore.Settings.SelfLockout
import ScottyCore.Backup.Restore
import ScottyCore.Backup.TenantIdentity
import ScottyCore.Backup.Isolation
import ScottyCore.Auth.Sessions
import ScottyCore.Backup.Sinks
import ScottyCore.Lib.Coroutine
import ScottyCore.Backup.Scheduler
import ScottyCore.Backup.Dispatch
import ScottyCore.Backup.RunStates
import ScottyCore.Backup.SinkLedger
import ScottyCore.Backup.Retention
import ScottyCore.Backup.Schedules
import ScottyCore.Sync.PushScope
import ScottyCore.Sync.Extraction
import ScottyCore.Core.Stored
import ScottyCore.Sync.Accounting
import ScottyCore.Sync.Reapply
import ScottyCore.Lib.Bytes
import ScottyCore.Sync.Peers
import ScottyCore.Sync.PeerKeys
import ScottyCore.Sync.TheirKey
import ScottyCore.Backup.RoundTrip
import ScottyCore.Backup.PlatformMerge
import ScottyCore.Backup.PlatformRestore
import ScottyCore.Backup.Secrets
import ScottyCore.Lib.FileTree
import ScottyCore.Lib.FileOps
import ScottyCore.Backup.Uploads
import ScottyCore.Backup.LocalDisk
import ScottyCore.Backup.LocalPut
import ScottyCore.Backup.SinkSteps
import ScottyCore.Backup.SinkListing
import ScottyCore.Lib.Validation
import ScottyCore.Settings.Schemas
import ScottyCore.Settings.Reads
import ScottyCore.Settings.Updates
import ScottyCore.Settings.Keys
import ScottyCore.AiBackends.Config
import ScottyCore.Items.Service
import ScottyCore.Items.Isolation
import ScottyCore.Lib.DirTree
import ScottyCore.Files.Names
import ScottyCore.Files.Service
import ScottyCore.Files.Confinement
import ScottyCore.Files.Ownership
import ScottyCore.Lib.Broadcast
import ScottyCore.Tasks.Engine
import ScottyCore.Tasks.Lifecycle
import ScottyCore.Tasks.Views
import ScottyCore.Tasks.Delivery
import ScottyCore.Tasks.Reconstruction
import ScottyCore.Tasks.StreamEnds
import ScottyCore.Sync.Backoff
import ScottyCore.Lib.Registry
import ScottyCore.Sync.PeerTasks
import ScottyCore.Sync.Decision
import ScottyCore.Backup.DueList
import ScottyCore.Sync.Echo
import ScottyCore.Backup.Crypto
import ScottyCore.Backup.Orphans
import ScottyCore.Settings.GlobalPatch
import ScottyCore.Backup.Overlay
import ScottyCore.Backup.Atomicity
import ScottyCore.Backup.StoreApi
import ScottyCore.Backup.DevStore
import ScottyCore.AiBackends.Health
import ScottyCore.Auth.TenantKeys
import ScottyCore.Settings.Resolution
import ScottyCore.Files.Slugs
import ScottyCore.Auth.RefreshTokens
import ScottyCore.Files.Listed
import ScottyCore.Tasks.Answers
import ScottyCore.AutoUpdate.Pins
import ScottyCore.AutoUpdate.Bumps
import ScottyCore.AutoUpdate.Checks
import ScottyCore.AutoUpdate.Settling
import ScottyCore.AutoUpdate.Rebuilds
import ScottyCore.Files.Sanitized
import ScottyCore.Settings.Layout
import ScottyCore.Scripts.Dns
import ScottyCore.Scripts.Apps
import ScottyCore.Core.RequestLogging
import ScottyCore.Lib.Paging
import ScottyCore.Core.Pages
import ScottyCore.Scripts.YamlInserts
import ScottyCore.Scripts.ClaudeMd
import ScottyCore.Backup.GitDelivery
import ScottyCore.Launch.CrashWatch
import ScottyCore.Backup.RotateKey
import ScottyCore.Backup.DevMap
import ScottyCore.Backup.RemoteRuns
