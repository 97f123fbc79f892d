import BorgManager.AdjustableCapacity
import BorgManager.Administrators
import BorgManager.AgeCutoffs
import BorgManager.ArchiveCache
import BorgManager.ArchiveCommands
import BorgManager.ArchiveExtraction
import BorgManager.ArchiveFreshness
import BorgManager.ArchiveMounts
import BorgManager.ArchiveRename
import BorgManager.ArchiveSeries
import BorgManager.ArtifactPaths
import BorgManager.AuthorizedKeys
import BorgManager.BackupArchives
import BorgManager.BackupArtifacts
import BorgManager.BackupChecks
import BorgManager.BackupEnvelope
import BorgManager.BackupRestorability
import BorgManager.BackupTasks
import BorgManager.BackupTrees
import BorgManager.Base64
import BorgManager.Blocks
import BorgManager.BorgDocuments
import BorgManager.ByteLines
import BorgManager.BytePatterns
import BorgManager.CacheExchange
import BorgManager.CacheProtection
import BorgManager.ChainExclusivity
import BorgManager.ChainReservations
import BorgManager.CivilTime
import BorgManager.CleanupAgreement
import BorgManager.CleanupSelection
import BorgManager.ClientCacheCleanup
import BorgManager.ClientCacheManifest
import BorgManager.ClientCacheProtection
import BorgManager.ClientCacheScan
import BorgManager.CommandExecution
import BorgManager.CommandSecrecy
import BorgManager.CompressionSpec
import BorgManager.CreateProgress
import BorgManager.CredentialStore
import BorgManager.DatabaseCleanup
import BorgManager.DatabasePreview
import BorgManager.DeviceArtifacts
import BorgManager.DeviceCommands
import BorgManager.Dictionaries
import BorgManager.DistinctTallies
import BorgManager.ElidedLogs
import BorgManager.EnvelopeRoundTrip
import BorgManager.EnvironmentVault
import BorgManager.ErrorExtraction
import BorgManager.Exceptions
import BorgManager.ExecutionKeys
import BorgManager.ExecutionPlan
import BorgManager.FileSteps
import BorgManager.FixedWindows
import BorgManager.Framing
import BorgManager.GreedyAdmission
import BorgManager.HealthNotifications
import BorgManager.Histories
import BorgManager.HostAccess
import BorgManager.InterfaceSampling
import BorgManager.ItemActivity
import BorgManager.JsonGrammar
import BorgManager.JsonIntegers
import BorgManager.JsonLexing
import BorgManager.JsonLimits
import BorgManager.JsonText
import BorgManager.KeyedTables
import BorgManager.LevelOrder
import BorgManager.LinePatterns
import BorgManager.LiveLogs
import BorgManager.LiveRuns
import BorgManager.LogFilter
import BorgManager.LogLines
import BorgManager.LoginThrottle
import BorgManager.ManagerCacheCleanup
import BorgManager.ManagerCacheProtection
import BorgManager.ManifestAgreement
import BorgManager.ManualChain
import BorgManager.MarkedFrames
import BorgManager.Meters
import BorgManager.NetworkStream
import BorgManager.NetworkTotals
import BorgManager.Numerals
import BorgManager.OrphanMounts
import BorgManager.OwnArchives
import BorgManager.Patterns
import BorgManager.PlanAdmission
import BorgManager.PlanStability
import BorgManager.PosixPaths
import BorgManager.Publication
import BorgManager.PythonText
import BorgManager.QueueCapacity
import BorgManager.QueueSystem
import BorgManager.Rankings
import BorgManager.Records
import BorgManager.RecoveryCodes
import BorgManager.RefreshAdmission
import BorgManager.RemoteCommand
import BorgManager.RemoteOutput
import BorgManager.RepositoryDiscovery
import BorgManager.RepositoryImport
import BorgManager.RestoreChunks
import BorgManager.RestoreExchange
import BorgManager.RestoreProgress
import BorgManager.RestoreSelection
import BorgManager.RunExecution
import BorgManager.RunHistory
import BorgManager.RunLogs
import BorgManager.RunQueue
import BorgManager.RunStatus
import BorgManager.ScheduleConflicts
import BorgManager.ScheduleExclusivity
import BorgManager.ScheduleRequests
import BorgManager.ScheduleSync
import BorgManager.ScheduledGroup
import BorgManager.SecretStore
import BorgManager.SecurityMaterial
import BorgManager.SessionLifetime
import BorgManager.SessionRevocation
import BorgManager.ShellWords
import BorgManager.SingleFlight
import BorgManager.SourceScan
import BorgManager.SourceStatistics
import BorgManager.StorageMonitor
import BorgManager.StorageProbe
import BorgManager.Supersession
import BorgManager.Tables
import BorgManager.ThrottleBounds
import BorgManager.ThrottleIsolation
import BorgManager.Utf8Decoding
import BorgManager.WarningCollector
import BorgManager.WarningItems
import BorgManager.Worklists
