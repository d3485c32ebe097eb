import OpenChronicle.Embedding.Backfill
import OpenChronicle.Embedding.Deferred
import OpenChronicle.Embedding.Freshness
import OpenChronicle.Embedding.Stamps
import OpenChronicle.GitOnboard.Delivery
import OpenChronicle.Search.Fusion
import OpenChronicle.Store.Index
import OpenChronicle.Transfer.Replace
import OpenChronicle.Transfer.RoundTrip
import OpenChronicle.Lib.Crash
import OpenChronicle.OfflineRestore.Model
import OpenChronicle.OfflineRestore.Steps
import OpenChronicle.OfflineRestore.Activate
import OpenChronicle.OfflineRestore.Rollback
import OpenChronicle.OfflineRestore.Calls
import OpenChronicle.OfflineRestore.Custody
import OpenChronicle.OfflineRestore.Resume
import OpenChronicle.OfflineRestore.Finish
import OpenChronicle.OfflineRestore.Evidence
import OpenChronicle.Lib.AsyncLock
import OpenChronicle.Maintenance.Model
import OpenChronicle.Maintenance.Exclusion
import OpenChronicle.Maintenance.Overlap
import OpenChronicle.Maintenance.Tick
import OpenChronicle.Backup.Frame
import OpenChronicle.Maintenance.Evidence
import OpenChronicle.Backup.Catalog
import OpenChronicle.Backup.Calls
import OpenChronicle.Backup.History
import OpenChronicle.GitOnboard.Clusters
import OpenChronicle.GitOnboard.Failure
import OpenChronicle.GitOnboard.Overlap
import OpenChronicle.Embedding.Chunks
import OpenChronicle.Lib.Calendar
import OpenChronicle.Lib.IsoText
import OpenChronicle.Store.Timestamps
import OpenChronicle.Store.Fallback
import OpenChronicle.Search.Revisions
import OpenChronicle.Lib.Sql
import OpenChronicle.Store.Clauses
import OpenChronicle.Search.Eligible
import OpenChronicle.Search.Dominance
import OpenChronicle.GitOnboard.Gates
import OpenChronicle.GitOnboard.GitLog
import OpenChronicle.Backup.Retention
import OpenChronicle.Backup.Push
import OpenChronicle.Maintenance.Config
import OpenChronicle.Maintenance.StateFile
import OpenChronicle.Lib.Words
import OpenChronicle.Store.DeleteProjects
import OpenChronicle.Store.Escape
import OpenChronicle.Lib.Backtrack
import OpenChronicle.Logging.Redaction
import OpenChronicle.Logging.Formatters
import OpenChronicle.Api.RateLimit
import OpenChronicle.Observability.CachedExporter
import OpenChronicle.Lib.Upgrade
import OpenChronicle.Store.Migrator
import OpenChronicle.Store.Upgrades
import OpenChronicle.Store.NormalizeTimestamps
import OpenChronicle.Lib.Like
import OpenChronicle.Store.ProjectNames
import OpenChronicle.Embedding.Vectors
import OpenChronicle.Embedding.OllamaProbe
import OpenChronicle.Embedding.VerifiedRevision
import OpenChronicle.GitOnboard.Clone
import OpenChronicle.Lib.Traces
import OpenChronicle.GitOnboard.CloneRuns
import OpenChronicle.Api.Access
import OpenChronicle.Api.ApiKey
import OpenChronicle.Api.Gates
import OpenChronicle.Backup.Stage
import OpenChronicle.Backup.StageRuns
import OpenChronicle.Config.Layers
import OpenChronicle.Embedding.BackfillLock
import OpenChronicle.GitOnboard.CloneSecrets
import OpenChronicle.Maintenance.CloudBackup
import OpenChronicle.Maintenance.CloudChildren
import OpenChronicle.Observability.Recorder
import OpenChronicle.Observability.RecorderRuns
import OpenChronicle.Observability.Scrape
