import LibWing.Native.Request
import LibWing.Native.Fragment
import LibWing.Client.Messages
import LibWing.Native.Tokens
import LibWing.Client.Agreement
import LibWing.Node.Def
import LibWing.Node.Codec
import LibWing.Native.Response
import LibWing.Console.Main
import LibWing.Console.Stream
import LibWing.Console.Read
import LibWing.Console.Parse
import LibWing.Console.Replay
import LibWing.Console.RoundTrip
import LibWing.Console.Attended
import LibWing.Console.Conserve
import LibWing.Console.Reachable
import LibWing.Console.Fresh
import LibWing.Lib.Interleave
import LibWing.Session.Shared
import LibWing.Session.Bulk
import LibWing.Session.Calls
import LibWing.Session.Machine
import LibWing.Session.History
import LibWing.Session.Invariant
import LibWing.Session.Outline
import LibWing.Session.BulkOutline
import LibWing.Session.Coalesce
import LibWing.Session.Fence
import LibWing.Session.Metering
import LibWing.Session.Isolation
import LibWing.Node.Recode
import LibWing.Osc.Codec
import LibWing.Osc.RoundTrip
import LibWing.Lib.Locks
import LibWing.Session.Locks
import LibWing.Session.Restore
import LibWing.Session.SelectorStop
import LibWing.Console.Token
import LibWing.Console.Capture
import LibWing.Console.Exact
import LibWing.Console.Fenced
import LibWing.Console.Foreign
import LibWing.Lib.Probe
import LibWing.PropMap.Index
import LibWing.PropMap.Writer
import LibWing.PropMap.Layout
import LibWing.PropMap.Tables
import LibWing.PropMap.Lookup
import LibWing.PropMap.Faithful
import LibWing.Session.Dump
import LibWing.Session.Branches
import LibWing.Session.Sweep
import LibWing.Session.DumpRestore
import LibWing.PropMap.Embedded
import LibWing.Native.Bounded
import LibWing.Binary.Values
import LibWing.Console.Framed
import LibWing.Binary.Live
import LibWing.Native.Resource
import LibWing.Session.Batches
import LibWing.Session.Reports
import LibWing.Schema.Live
import LibWing.Console.Nodes
import LibWing.Console.Freshest
import LibWing.Console.Subtree
import LibWing.Binary.Verify
import LibWing.Node.Indexed
import LibWing.Node.Truncated
import LibWing.Node.Named
import LibWing.Schema.Overlay
import LibWing.Schema.Names
import LibWing.Lib.Window
import LibWing.Osc.Accounting
import LibWing.Osc.NodePairs
import LibWing.Osc.Duplicates
import LibWing.Session.Gap
import LibWing.PropMap.Framing
import LibWing.Tools.Leaves
import LibWing.Lib.Files
import LibWing.Tools.Published
import LibWing.Tools.Litter
import LibWing.Tools.CrashSafe
import LibWing.Tools.Streams
import LibWing.Tools.Control
import LibWing.Tools.Boundary
import LibWing.Tools.Guarded
import LibWing.Tools.Crawl
import LibWing.Tools.Embed
import LibWing.Native.Framing
import LibWing.Schema.Segments
import LibWing.Lib.Text
import LibWing.Meter.Frame
import LibWing.Tools.Hex
import LibWing.Tools.Matrix
import LibWing.Tools.Wingcap
import LibWing.Tools.Reading
import LibWing.Tools.Merged
import LibWing.Lib.Runs
import LibWing.Tools.Flagged
import LibWing.Tools.Joined
import LibWing.Tools.Settled
import LibWing.Lib.Machine
import LibWing.Osc.Builders
import LibWing.Osc.Policy
import LibWing.Tools.Proxy
import LibWing.Tools.Transcript
import LibWing.Console.Discovered
import LibWing.Osc.Subscribed
import LibWing.Meter.Stream
import LibWing.Tools.Sanitized
import LibWing.Tools.Restored
import LibWing.Tools.Drivers
import LibWing.Tools.Driven
import LibWing.Tools.Promoted
import LibWing.Client.Device
import LibWing.Lib.Passes
import LibWing.Schema.Refresh
import LibWing.Client.Enums
import LibWing.Schema.Version
