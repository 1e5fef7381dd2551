import Monutchee.Lib.Act
import Monutchee.Lib.Path
import Monutchee.System.Data
import Monutchee.System.Validation
import Monutchee.System.World
import Monutchee.System.Backend
import Monutchee.System.Run
import Monutchee.System.Protocol
import Monutchee.System.Frame
import Monutchee.System.Refinement
import Monutchee.System.Exclusion
import Monutchee.System.Sync
import Monutchee.System.Agreement
import Monutchee.System.Rollback
import Monutchee.System.Network
import Monutchee.System.Finality
import Monutchee.System.Power
import Monutchee.System.Latch
import Monutchee.System.Deadline
import Monutchee.System.Replay
import Monutchee.System.Intent
import Monutchee.System.Product
import Monutchee.System.Native
import Monutchee.System.Clock
import Monutchee.System.Instances
import Monutchee.System.Factory
import Monutchee.Storage.Prepare
import Monutchee.Storage.Reset
import Monutchee.Logging.Reader
import Monutchee.Logging.Follow
import Monutchee.Logging.Pagination
import Monutchee.System.Daemon
import Monutchee.System.Privilege
import Monutchee.System.Reload
import Monutchee.System.Closure
import Monutchee.System.Wellformed
import Monutchee.Logging.UserLog
import Monutchee.Logging.RoundTrip
import Monutchee.Logging.ChangedFields
import Monutchee.System.Service
import Monutchee.System.Audit
import Monutchee.System.Journal
import Monutchee.System.Checks
import Monutchee.System.Remaining
import Monutchee.System.Rejection
import Monutchee.System.Preferences
import Monutchee.Lib.Regex
import Monutchee.Lib.Checked
import Monutchee.Lib.Json
import Monutchee.Artifact.Manifest
import Monutchee.Artifact.Schema
import Monutchee.Artifact.PathLanguage
import Monutchee.Artifact.Refusal
import Monutchee.Artifact.Archive
import Monutchee.Artifact.Extract
import Monutchee.Artifact.Payload
import Monutchee.Artifact.Create
import Monutchee.Storage.Policy
import Monutchee.Storage.Boot
import Monutchee.Lib.Files
import Monutchee.Storage.Backup
import Monutchee.Storage.Restore
import Monutchee.Storage.Repeat
import Monutchee.Storage.Extraction
import Monutchee.Storage.Writing
import Monutchee.Storage.RamRoot
import Monutchee.Jtag.Loader
import Monutchee.Jtag.Binding
import Monutchee.Jtag.Override
import Monutchee.System.Erasure
import Monutchee.System.RuntimeRoot
import Monutchee.Lib.Mask
import Monutchee.System.Scanning
import Monutchee.System.Grammar
import Monutchee.System.Subnet
import Monutchee.Lib.Ini
import Monutchee.System.NetworkFile
import Monutchee.System.ClockFiles
import Monutchee.System.Links
import Monutchee.System.AtomicWrite
import Monutchee.Logging.DeveloperLog
import Monutchee.Lib.JsonText
import Monutchee.Logging.Export
import Monutchee.Lib.Dependency
import Monutchee.Service.Manager
import Monutchee.Service.Termination
import Monutchee.Lib.Sorted
import Monutchee.Sysmon.Monitor
import Monutchee.Sysmon.Sampling
import Monutchee.Sysmon.Renumbering
import Monutchee.Sysmon.Isolation
import Monutchee.Lib.Session
import Monutchee.Storage.Reformat
import Monutchee.Storage.Reformatted
import Monutchee.Service.Lifecycle
import Monutchee.Lib.Exchange
import Monutchee.System.Errors
import Monutchee.System.Client
import Monutchee.Flash.Emmc
import Monutchee.Lib.Disk
import Monutchee.Lib.Mounts
import Monutchee.Lib.Simulation
import Monutchee.Storage.Mounting
import Monutchee.Storage.Preboot
import Monutchee.System.Durability
import Monutchee.System.PowerCut
import Monutchee.System.Selection
