import Provision.Action
import Provision.Action.Apply
import Provision.Action.Codec
import Provision.Action.Preview
import Provision.Action.PreviewCodec
import Provision.Backend
import Provision.Bus.Error
import Provision.Cli.Arguments
import Provision.Cli.Completions
import Provision.Cli.Context
import Provision.Cli.Doctor
import Provision.Cli.Exit
import Provision.Cli.Grammar
import Provision.Cli.Help
import Provision.Cli.Logs
import Provision.Cli.Manual
import Provision.Cli.Output
import Provision.Cli.Program
import Provision.Cli.Runs
import Provision.Decimal
import Provision.Digest
import Provision.Duration
import Provision.Duration.Words
import Provision.Effect
import Provision.Files
import Provision.Host.Call
import Provision.Host.Error
import Provision.Instant
import Provision.IoError
import Provision.Json.Decode
import Provision.Json.Printer
import Provision.Json.Reader
import Provision.Json.Value
import Provision.Layout
import Provision.Live.Host
import Provision.Live.Manager
import Provision.Live.Mounts
import Provision.Machine
import Provision.Main
import Provision.Mock.Host
import Provision.Mock.Manager
import Provision.Mock.Rehearsal
import Provision.Mock.Table
import Provision.Mount.Entry
import Provision.Mount.Manage
import Provision.Mount.Options
import Provision.Mount.Table
import Provision.Outcome
import Provision.Outcome.Codec
import Provision.Path
import Provision.Plan.Codec
import Provision.Plan.Error
import Provision.Plan.File
import Provision.Plan.Json
import Provision.Retry
import Provision.Retry.Loop
import Provision.Retry.Words
import Provision.Run.Countdown
import Provision.Run.Error
import Provision.Run.Indexed
import Provision.Run.Journal
import Provision.Run.Orchestrator
import Provision.Run.Registry
import Provision.Run.Report
import Provision.RunId
import Provision.RunId.Bytes
import Provision.RunLog
import Provision.RunLog.Codec
import Provision.Script
import Provision.Settings
import Provision.Store
import Provision.Store.Error
import Provision.SystemCall
import Provision.Text.Blank
import Provision.Text.Digits
import Provision.Text.Utf8
import Provision.Toml.Decode
import Provision.Toml.Moments
import Provision.Toml.Numbers
import Provision.Toml.Reader
import Provision.Toml.Strings
import Provision.Toml.Tree
import Provision.Toml.Value
import Provision.UnitOp
import Provision.Units.Control
import Provision.Units.State
import Provision.World
import Provision.Proofs.Script.Reach
import Provision.Proofs.Action.Requests
import Provision.Proofs.Run.Account
import Provision.Proofs.Run.Plan
import Provision.Proofs.Run.Rules
import Provision.Proofs.Run.Outcome
import Provision.Proofs.Retry
import Provision.Proofs.Units.Switch
import Provision.Proofs.Units.Watch
import Provision.Proofs.Mount.Stack
import Provision.Proofs.Mock.Manager
import Provision.Proofs.Mock.Stage
import Provision.Proofs.Run.Ledger
import Provision.Proofs.Run.UnitLedger
import Provision.Proofs.Run.MountLedger
import Provision.Proofs.Run.Restored
import Provision.Proofs.Run.Residue
import Provision.Proofs.Run.Recovery
import Provision.Proofs.Run.Coherent
import Provision.Proofs.Run.Chronicle
import Provision.Proofs.Run.Resumed
import Provision.Proofs.Run.WriteAhead
import Provision.Proofs.Run.Operating
import Provision.Proofs.Run.Attainable
import Provision.Proofs.Run.Contention
import Provision.Proofs.Run.Rollbacks
import Provision.Proofs.Run.Reversal
import Provision.Proofs.Run.Sites
import Provision.Proofs.Run.Registering
import Provision.Proofs.Run.Convergence
import Provision.Proofs.Mock.Untroubled
import Provision.Proofs.Mock.Trial
import Provision.Proofs.Run.Course
import Provision.Proofs.Run.Preview
import Provision.Proofs.Run.Idempotence
import Provision.Proofs.Run.Dependencies
import Provision.Proofs.Run.Interchange
import Provision.Proofs.Run.Countdown
import Provision.Proofs.Run.Ordering
import Provision.Proofs.Run.LeastOrder
import Provision.Proofs.Faults
import Provision.Proofs.Toml.Keys
import Provision.Proofs.Plan.Decoding
import Provision.Proofs.Json.Printing
import Provision.Proofs.RunLog.Codec
import Provision.Proofs.Files
import Provision.Proofs.Store
import Provision.Proofs.Mount.Matching
import Provision.Proofs.Mount.Options
import Provision.Proofs.Mount.Fallible
import Provision.Proofs.Units.Turning
import Provision.Proofs.Run.Spared
import Provision.Proofs.Run.Untouched
import Provision.Proofs.Run.Cycles
import Provision.Proofs.Units.Recorded
import Provision.Proofs.Mock.Undoing
import Provision.Proofs.Mount.Table
import Provision.Proofs.Retry.Calls
import Provision.Proofs.Mock.Reverting
import Provision.Proofs.Bus
import Provision.Proofs.Run.Verdict
import Provision.Proofs.Backend
import Provision.Proofs.Cli.Exit
import Provision.Proofs.Instant
import Provision.Proofs.Store.Latest
import Provision.Proofs.Files.Writing
import Provision.Proofs.Store.Serving
import Provision.Proofs.Run.WriteBack
import Provision.Proofs.Retry.Backoff
import Provision.Proofs.RunId
import Provision.Proofs.Store.Confined
