import ProductPdfQr.Version.Committed
import ProductPdfQr.Auth.Revocation
import ProductPdfQr.Auth.RateLimit
import ProductPdfQr.Database.Transactions
import ProductPdfQr.Effect.Prog
import ProductPdfQr.Json.Codec
import ProductPdfQr.DeployRollback.ProxyLast
import ProductPdfQr.DeployRollback.Cutover
import ProductPdfQr.DeployRollback.Conservative
import ProductPdfQr.DeployRollback.Faultless
import ProductPdfQr.ReviewGate.Noninterference
import ProductPdfQr.Restore.Runs
import ProductPdfQr.Restore.Exact
import ProductPdfQr.Restore.References
import ProductPdfQr.Restore.Verified
import ProductPdfQr.DeployRollback.WatermarkBuilder
import ProductPdfQr.DeployRollback.AuditGrowth
import ProductPdfQr.DeployRollback.ClockRuns
import ProductPdfQr.ReviewGate.Retained
import ProductPdfQr.ReviewGate.Fenced
import ProductPdfQr.QRCode.Cache
import ProductPdfQr.QRCode.Label
import ProductPdfQr.DeployRollback.Release
import ProductPdfQr.Ao.Replacement
import ProductPdfQr.Ao.Trust
import ProductPdfQr.Ao.Snapshot
import ProductPdfQr.Ao.Verifier
import ProductPdfQr.Ao.Opinion
import ProductPdfQr.ReviewGate.Observations
import ProductPdfQr.BackupRecovery.Complete
import ProductPdfQr.DeployRollback.ReleaseBinding
import ProductPdfQr.DeployRollback.Inspection
import ProductPdfQr.BackupRecovery.Generations
import ProductPdfQr.BackupRecovery.Retention
import ProductPdfQr.Importer.Complete
import ProductPdfQr.Restore.Capacity
import ProductPdfQr.UploadLimit
import ProductPdfQr.Public.MissLimit
import ProductPdfQr.Importer.Rows
import ProductPdfQr.BackupRecovery.RotationResume
import ProductPdfQr.BackupRecovery.Histories
import ProductPdfQr.BackupRecovery.Lifetimes
import ProductPdfQr.BackupRecovery.HalfDeleted
