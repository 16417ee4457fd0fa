import Robinhood.Actions.Capture
import Robinhood.Actions.Command
import Robinhood.Actions.Missing
import Robinhood.Actions.Purge
import Robinhood.Actions.Restore
import Robinhood.Actions.Template
import Robinhood.Agent.Cursor
import Robinhood.Agent.Server
import Robinhood.Agent.Soundness
import Robinhood.ChangeSource.Batch
import Robinhood.ChangeSource.Format
import Robinhood.ChangeSource.Lustre
import Robinhood.ChangeSource.Record
import Robinhood.Changelog.Batches
import Robinhood.Changelog.Dedup
import Robinhood.Changelog.Event
import Robinhood.Changelog.Listener
import Robinhood.Changelog.Parse
import Robinhood.Changelog.Record
import Robinhood.Cli.Find
import Robinhood.ConfigImport.Comments
import Robinhood.ConfigImport.Conditions
import Robinhood.ConfigImport.Import
import Robinhood.ConfigImport.Literals
import Robinhood.ConfigImport.Text
import Robinhood.Daemon.Ingest
import Robinhood.Daemon.Supervisor
import Robinhood.Daemon.Thresholds
import Robinhood.Daemon.Verify
import Robinhood.Ingest.Change
import Robinhood.Ingest.JuiceFs
import Robinhood.Ingest.Lustre
import Robinhood.JuiceFs.Agreement
import Robinhood.JuiceFs.CrashReplay
import Robinhood.JuiceFs.History
import Robinhood.JuiceFs.Live
import Robinhood.JuiceFs.Progress
import Robinhood.JuiceFs.Replay
import Robinhood.JuiceFs.Resolution
import Robinhood.JuiceFs.Subtree
import Robinhood.JuiceFs.Tree
import Robinhood.JuiceFs.Walk
import Robinhood.Lib.Base64
import Robinhood.Lib.DurableDir
import Robinhood.Lib.FuzzyReplay
import Robinhood.Lib.InOrder
import Robinhood.Lib.Interleave
import Robinhood.Lib.Memory
import Robinhood.Lib.Numeral
import Robinhood.Lib.Proc
import Robinhood.Lib.Retry
import Robinhood.Lib.Serial
import Robinhood.Lib.Service
import Robinhood.Lib.Shared
import Robinhood.Lib.Sql.Grammar
import Robinhood.Lib.Sql.Lexer
import Robinhood.Lib.Sql.Semantics
import Robinhood.Lib.Table
import Robinhood.Lib.Text
import Robinhood.Lib.Wildcard
import Robinhood.Lib.WorkQueue
import Robinhood.Lib.WorkerPool
import Robinhood.Lustre.Concurrent
import Robinhood.Lustre.Namespace
import Robinhood.Lustre.Rename
import Robinhood.Lustre.RenameCrash
import Robinhood.Lustre.Runs
import Robinhood.Lustre.Status
import Robinhood.Lustre.Stripes
import Robinhood.Namespace.Adapter
import Robinhood.Namespace.Chains
import Robinhood.Pipeline.Deadlock
import Robinhood.Pipeline.InFlight
import Robinhood.Pipeline.Loss
import Robinhood.Pipeline.Runs
import Robinhood.Pipeline.System
import Robinhood.Policy.Classifier
import Robinhood.Policy.Commute
import Robinhood.Policy.Conditions
import Robinhood.Policy.Dispatch
import Robinhood.Policy.Overlap
import Robinhood.Policy.Ownership
import Robinhood.Policy.Reconcile
import Robinhood.Policy.Trigger
import Robinhood.Policy.When
import Robinhood.Posix.Mount
import Robinhood.Posix.Path
import Robinhood.Predicate.Cost
import Robinhood.Predicate.Eval
import Robinhood.Predicate.Like
import Robinhood.Predicate.Pushdown
import Robinhood.Predicate.Query
import Robinhood.Predicate.Sql
import Robinhood.Scan.Complete
import Robinhood.Scan.JuiceFs
import Robinhood.Scan.Lustre
import Robinhood.Scan.Posix
import Robinhood.Store.Catalog
import Robinhood.Store.Database
import Robinhood.Store.Document
import Robinhood.Store.Dump
import Robinhood.Store.Fid
import Robinhood.Store.Json
import Robinhood.Store.JsonOrder
import Robinhood.Store.JsonPath
import Robinhood.Store.Links
import Robinhood.Store.Lustre
import Robinhood.Store.MariaDb
import Robinhood.Store.Statements
import Robinhood.Store.Types
import Robinhood.Store.Xattr
