import Machteld.Bytes
import Machteld.Except
import Machteld.Dict
import Machteld.Utf8
import Machteld.TclText
import Machteld.Channel
import Machteld.Argv
import Machteld.CmdExe
import Machteld.Cmdline.EscapeArg
import Machteld.Cmdline.Batch
import Machteld.Cmdline.BatchInert
import Machteld.Crt
import Machteld.Cmdline.ProgramWord
import Machteld.Cmdline.BatchWords
import Machteld.Cmdline.Launch
import Machteld.Rfc8259.Grammar
import Machteld.Rfc8259.Strings
import Machteld.Rfc8259.Writer
import Machteld.Rfc8259.Reader
import Machteld.Rfc8259.ReaderSound
import Machteld.Rfc8259.ReaderComplete
import Machteld.Json.Number
import Machteld.Json.Value
import Machteld.Json.Encode
import Machteld.Json.Decode
import Machteld.Json.EmitText
import Machteld.Json.Plain
import Machteld.Json.RoundTrip
import Machteld.Json.FailClosed
import Machteld.Json.Collapse
import Machteld.Json.Typed
import Machteld.Json.NumberGate
import Machteld.Json.Strict
import Machteld.Json.PlainGuard
import Machteld.TclSpec
import Machteld.Json.Line
import Machteld.Json.Framing
import Machteld.Json.Depth
import Machteld.Json.Session
import Machteld.Json.Agree
import Machteld.Units.Parse
import Machteld.Units.Digits
import Machteld.Units.Agree
import Machteld.Entry.Gate
import Machteld.Env.Merged
import Machteld.Worker.Dispatch
import Machteld.Worker.Reply
import Machteld.Worker.Answer
import Machteld.Worker.Binding
import Machteld.Decimal
import Machteld.Pool.State
import Machteld.Pool.Moves
import Machteld.Pool.Conserve
import Machteld.Pool.Run
import Machteld.Pool.Batch
import Machteld.Pool.Progress
import Machteld.Pool.Deliver
import Machteld.Pool.Wire
import Machteld.Pool.Healthy
import Machteld.Utf16
import Machteld.Run
import Machteld.Prog
import Machteld.Ps.Tree
import Machteld.Watch.State
import Machteld.Watch.Records
import Machteld.Watch.Deliver
import Machteld.Watch.Precedence
import Machteld.Child.State
import Machteld.Child.Final
import Machteld.Child.Scope
import Machteld.Child.Pumped
import Machteld.Child.Monitor
import Machteld.Pty.State
import Machteld.Pty.Fifo
import Machteld.Publish.State
import Machteld.Publish.World
import Machteld.Publish.Names
import Machteld.Publish.Queries
import Machteld.Publish.Rules
import Machteld.Publish.Kept
import Machteld.Publish.Displaced
import Machteld.Publish.Report
import Machteld.Publish.Recovery
import Machteld.Publish.Told
import Machteld.Pmap.State
import Machteld.Pmap.Errors
import Machteld.Pmap.Registry
import Machteld.Pmap.Outcome
import Machteld.DepthFirst
import Machteld.Utf8Order
import Machteld.Dirs.Walk
import Machteld.Dirs.Volume
import Machteld.Dirs.Stays
import Machteld.Dirs.Tree
import Machteld.Dirs.Visit
import Machteld.Dirs.Names
import Machteld.Dirs.Account
import Machteld.Dirs.Walked
import Machteld.Dirs.Tally
import Machteld.Dirs.Inventory
import Machteld.Dirs.Linked
import Machteld.Dirs.Prefix
import Machteld.Dirs.Spelling
import Machteld.Dirs.Prefixed
import Machteld.Checked
import Machteld.RecordPath
import Machteld.Watch.Notify
import Machteld.Dirs.Buffer
import Machteld.Dirs.Payload
import Machteld.TclReads
import Machteld.Cli.Norm
import Machteld.Cli.Fits
import Machteld.Cli.Parse
import Machteld.Cli.Reading
import Machteld.Cli.Parsed
import Machteld.Cli.Help
import Machteld.Log.Configure
import Machteld.Log.Atomic
import Machteld.Log.Write
import Machteld.Log.Record
import Machteld.Http.Headers
import Machteld.Http.Lines
import Machteld.Http.Body
import Machteld.Http.Whole
import Machteld.Proc.Free
import Machteld.Proc.Cleanup
import Machteld.Chars
import Machteld.Docs.Page
import Machteld.Docs.Options
import Machteld.Docs.Catalog
import Machteld.Docs.Get
import Machteld.Docs.Search
import Machteld.Docs.Paging
import Machteld.Docs.Json
import Machteld.Docs.Host
import Machteld.Docs.Hosted
import Machteld.Matcher
import Machteld.Pty.Strip
import Machteld.Pty.Stripped
import Machteld.Child.Capture
import Machteld.Child.ValidUtf8
import Machteld.Docs.JsonTree
import Machteld.WinPath
import Machteld.Docs.SafePath
import Machteld.EndsIn
import Machteld.Docs.Raw
import Machteld.Docs.Load
import Machteld.Docs.Loaded
import Machteld.Docs.Accepted
import Machteld.Docs.Pack
import Machteld.Docs.Index
import Machteld.Docs.Answers
import Machteld.Docs.Damaged
import Machteld.Trim
import Machteld.Docs.Resolves
import Machteld.Docs.View
import Machteld.Docs.Viewed
import Machteld.Ledger
import Machteld.Routine
import Machteld.Launch.Kernel
import Machteld.Launch.Calls
import Machteld.Launch.Process
import Machteld.Launch.Launched
import Machteld.Launch.Child
import Machteld.Launch.Spawn
import Machteld.Launch.Spawned
import Machteld.Launch.Reap
import Machteld.Launch.Registry
import Machteld.Launch.Session
import Machteld.Launch.Commands
import Machteld.Launch.Outcome
import Machteld.Pmap.Served
import Machteld.Hash.Outcome
import Machteld.Store.Outcome
