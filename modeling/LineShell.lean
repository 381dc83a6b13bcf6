import LineShell.Text.Split
import LineShell.Text.Space
import LineShell.Text.Utf8
import LineShell.Path.Basic
import LineShell.Path.Normal
import LineShell.Command.Line
import LineShell.Stream.Consent
import LineShell.Files.Error
import LineShell.Files.Store
import LineShell.Files.Walk
import LineShell.Files.Handle
import LineShell.Files.Calls
import LineShell.Stream.Memory
import LineShell.Stream.Source
import LineShell.Stream.Console
import LineShell.Stream.FileSink
import LineShell.Session.Environment
import LineShell.Session.Failure
import LineShell.Session.Action
import LineShell.Session.World
import LineShell.Command.Options
import LineShell.Command.Usage
import LineShell.Verbs.Builtin
import LineShell.Verbs.Navigation
import LineShell.Verbs.Entries
import LineShell.Verbs.Cat
import LineShell.Verbs.Move
import LineShell.Verbs.Table
import LineShell.Command.Job
import LineShell.Session.Execute
import LineShell.Text.ClusterTable
import LineShell.Text.Cluster
import LineShell.Files.Tree
import LineShell.Session.Script
import LineShell.Program
import LineShell.Main
import LineShell.Proofs.Text.Cutting
import LineShell.Proofs.Path.Reduction
import LineShell.Proofs.Text.Joined
import LineShell.Proofs.Path.Abridged
import LineShell.Proofs.Files.Lexical
import LineShell.Proofs.Session.Room
import LineShell.Proofs.Command.Parsing
import LineShell.Proofs.Command.Grammar
import LineShell.Proofs.Session.Observed
import LineShell.Proofs.Verbs.Composed
import LineShell.Proofs.Files.Contents
import LineShell.Proofs.Files.Locations
import LineShell.Proofs.Files.Sound
import LineShell.Proofs.Session.Streams
import LineShell.Proofs.Stream.Chunked
import LineShell.Proofs.Session.Flow
import LineShell.Proofs.Session.Restoration
import LineShell.Proofs.Session.Heard
import LineShell.Proofs.Verbs.Lines
import LineShell.Proofs.Session.Transparency
import LineShell.Proofs.Files.Walks
import LineShell.Proofs.Files.Transfer
import LineShell.Proofs.Files.Moved
import LineShell.Proofs.Verbs.Moves
import LineShell.Proofs.Files.Entries
import LineShell.Proofs.Verbs.Consent
import LineShell.Proofs.Verbs.Reporting
import LineShell.Proofs.Session.Complaints
import LineShell.Proofs.Verbs.Statuses
import LineShell.Proofs.Session.Failures
import LineShell.Proofs.Session.ExitCode
import LineShell.Proofs.Stream.Delivery
import LineShell.Proofs.Session.Delivered
import LineShell.Proofs.Files.Aside
import LineShell.Proofs.Session.Captured
import LineShell.Proofs.Verbs.Batches
import LineShell.Proofs.Path.Normal
import LineShell.Proofs.Session.Whereabouts
import LineShell.Proofs.Session.Reentry
import LineShell.Proofs.Session.Invariant
import LineShell.Proofs.Files.Changes
import LineShell.Proofs.Verbs.SinglePath
import LineShell.Proofs.Session.Alike
import LineShell.Proofs.Verbs.Indifference
import LineShell.Proofs.Session.Unheard
import LineShell.Proofs.Session.Refusal
import LineShell.Proofs.Files.FailedTransfer
import LineShell.Proofs.Verbs.FailedMoves
import LineShell.Proofs.Verbs.Directories
import LineShell.Proofs.Path.Tidy
import LineShell.Proofs.Path.Canonical
import LineShell.Proofs.Verbs.Arguments
import LineShell.Proofs.Stream.Schedules
import LineShell.Proofs.Files.Reopened
import LineShell.Proofs.Verbs.Looking
import LineShell.Proofs.Session.Accumulated
import LineShell.Proofs.Session.Supply
import LineShell.Proofs.Stream.Channel
import LineShell.Proofs.Stream.SoleSink
import LineShell.Proofs.Session.Undrawn
import LineShell.Proofs.Session.Script
import LineShell.Proofs.Verbs.Reading
import LineShell.Proofs.Verbs.Echoing
import LineShell.Proofs.Verbs.Concatenation
import LineShell.Proofs.Verbs.Listings
import LineShell.Proofs.Files.Undone
import LineShell.Proofs.Verbs.Undoing
import LineShell.Proofs.Session.Script
import LineShell.Proofs.Verbs.Reading
