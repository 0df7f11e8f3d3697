import H2kvm.Batch.Accounting
import H2kvm.Batch.Checkpoint
import H2kvm.Batch.Loader
import H2kvm.Batch.Orchestrator
import H2kvm.Batch.Progress
import H2kvm.Batch.Resume
import H2kvm.Config.Aliases
import H2kvm.Config.DeepMerge
import H2kvm.Config.MappingConfig
import H2kvm.Config.Validation
import H2kvm.Config.ValidatorAgreement
import H2kvm.Converters.Chains
import H2kvm.Converters.Contained
import H2kvm.Converters.ConvertAtomic
import H2kvm.Converters.Descriptor
import H2kvm.Converters.DiskOutputs
import H2kvm.Converters.Extract
import H2kvm.Converters.ExtractLimits
import H2kvm.Converters.Fetch
import H2kvm.Converters.FetchContained
import H2kvm.Converters.FetchWalk
import H2kvm.Converters.FlatFastPath
import H2kvm.Converters.Manifest
import H2kvm.Converters.ParentChain
import H2kvm.Converters.Progress
import H2kvm.Converters.SymlinkRefusal
import H2kvm.Converters.VmdkDescriptors
import H2kvm.Converters.VmdkParser
import H2kvm.Core.AuditDelivery
import H2kvm.Core.CircuitBreaker
import H2kvm.Core.FirmwareResolver
import H2kvm.Core.LogConservation
import H2kvm.Core.RateLimiter
import H2kvm.Core.StructuredLog
import H2kvm.Core.ValidationRedaction
import H2kvm.Core.ValidationSilence
import H2kvm.Core.ValidationSuite
import H2kvm.Daemon.Deduplicator
import H2kvm.Daemon.NoLoss
import H2kvm.Daemon.Queueing
import H2kvm.Daemon.Workflow
import H2kvm.Daemon.WorkflowFiles
import H2kvm.Daemon.WorkflowJobs
import H2kvm.Daemon.WorkflowTruth
import H2kvm.Deployers.DnsName
import H2kvm.Deployers.Firmware
import H2kvm.Deployers.Kubernetes
import H2kvm.Deployers.KubernetesDisk
import H2kvm.Deployers.ManifestLabels
import H2kvm.Deployers.NameGaps
import H2kvm.Deployers.NameRetries
import H2kvm.Deployers.PvcSize
import H2kvm.Deployers.UploadCleanup
import H2kvm.Framework.Base64
import H2kvm.Framework.Buckets
import H2kvm.Framework.Checks
import H2kvm.Framework.Data
import H2kvm.Framework.Effects
import H2kvm.Framework.FileOps
import H2kvm.Framework.FirstFit
import H2kvm.Framework.Journal
import H2kvm.Framework.Keys
import H2kvm.Framework.Lineage
import H2kvm.Framework.Lines
import H2kvm.Framework.Matches
import H2kvm.Framework.Names
import H2kvm.Framework.Objects
import H2kvm.Framework.Obstacles
import H2kvm.Framework.Overlay
import H2kvm.Framework.Paths
import H2kvm.Framework.Quantity
import H2kvm.Framework.Query
import H2kvm.Framework.Replace
import H2kvm.Framework.Run
import H2kvm.Framework.Scanning
import H2kvm.Framework.Semaphore
import H2kvm.Framework.Since
import H2kvm.Framework.Sorting
import H2kvm.Framework.TempFiles
import H2kvm.Framework.Trail
import H2kvm.Framework.TreeWalk
import H2kvm.Framework.Usage
import H2kvm.Framework.Utf8
import H2kvm.Framework.Yaml
import H2kvm.Fstab.Preservation
import H2kvm.Fstab.Reports
import H2kvm.Fstab.Rewriter
import H2kvm.Fstab.Stabilized
import H2kvm.Fstab.Stabilizer
import H2kvm.Fstab.UniversalRewriter
import H2kvm.Hooks.StageHooks
import H2kvm.Hooks.Template
import H2kvm.Live.GrubRoot
import H2kvm.Live.RemoteFile
import H2kvm.Network.Ifcfg
import H2kvm.Network.IfcfgEdits
import H2kvm.Network.IfcfgStatic
import H2kvm.Network.Interfaces
import H2kvm.Network.InterfacesLines
import H2kvm.Network.InterfacesStatic
import H2kvm.Network.NetplanMembers
import H2kvm.Network.NetplanPass
import H2kvm.Network.NetplanRefs
import H2kvm.Network.Renames
import H2kvm.Network.Scan
import H2kvm.Network.StaticAddressing
import H2kvm.Network.SystemdNetwork
import H2kvm.Operator.HyperConversion
import H2kvm.Operator.Ownership
import H2kvm.Operator.PhaseMachine
import H2kvm.Operator.Validation
import H2kvm.Operator.ValidationInvariant
import H2kvm.Operator.ValidationRecovery
import H2kvm.Orchestration.BusLogic
import H2kvm.Orchestration.DeployedDisk
import H2kvm.Orchestration.DiskProcessor
import H2kvm.Orchestration.Interference
import H2kvm.Orchestration.ManifestAcceptance
import H2kvm.Orchestration.ManifestRun
import H2kvm.Orchestration.ParallelDisks
import H2kvm.Profiles.CacheRuns
import H2kvm.Profiles.Inheritance
import H2kvm.Profiles.Loader
import H2kvm.Quality.AuditLogger
import H2kvm.Recovery.Completion
import H2kvm.Recovery.History
import H2kvm.Recovery.Locking
import H2kvm.Recovery.Manager
import H2kvm.Recovery.Newest
import H2kvm.Recovery.Retention
import H2kvm.Rollback.Orchestrator
import H2kvm.Rollback.Restore
import H2kvm.Vmware.Datastore
import H2kvm.Vmware.Download
import H2kvm.Vmware.DownloadExact
import H2kvm.Vmware.DownloadOnly
import H2kvm.Vmware.RateLimit
import H2kvm.Web.AutoCleanup
import H2kvm.Web.CleanupRuns
import H2kvm.Web.CleanupSafety
import H2kvm.Web.Kubeconfig
import H2kvm.Web.Listing
import H2kvm.Web.LoginThrottle
import H2kvm.Web.Manager
import H2kvm.Web.ScanLines
import H2kvm.Web.Terminal
import H2kvm.Windows.Hive
import H2kvm.Windows.RegistryText
import H2kvm.Worker.Atomicity
import H2kvm.Worker.Cleanup
import H2kvm.Worker.Engine
import H2kvm.Worker.EventStream
import H2kvm.Worker.HealthServer
import H2kvm.Worker.Queue
import H2kvm.Worker.Registry
import H2kvm.Worker.Scheduler
import H2kvm.Worker.Schemas
import H2kvm.Worker.TimeInState
