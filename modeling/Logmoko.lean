import Logmoko.CStr
import Logmoko.Lib.Run
import Logmoko.Lib.Submission
import Logmoko.Lib.Fifo
import Logmoko.Lib.Count
import Logmoko.Lib.Cursor
import Logmoko.Lib.Keyed
import Logmoko.Lib.Overwrite
import Logmoko.Lib.Buffer
import Logmoko.Lib.Files
import Logmoko.Lib.Segments
import Logmoko.Lib.JsonText
import Logmoko.Lib.Aead
import Logmoko.Lib.Ledger
import Logmoko.Lib.Bits
import Logmoko.Lib.Links
import Logmoko.Ring.Basic
import Logmoko.Ring.System
import Logmoko.Ring.Invariant
import Logmoko.Ring.Machine
import Logmoko.Ring.Preservation
import Logmoko.Ring.Calls
import Logmoko.Ring.Refinement
import Logmoko.Ring.Sizing
import Logmoko.Ring.Wrap
import Logmoko.Ring.Laps
import Logmoko.Ring.Ownership
import Logmoko.Ring.Progress
import Logmoko.Handler.Model
import Logmoko.Handler.Move
import Logmoko.Handler.Machine
import Logmoko.Handler.Wakeup
import Logmoko.Handler.Counters
import Logmoko.Handler.Shutdown
import Logmoko.Handler.Liveness
import Logmoko.Handler.Order
import Logmoko.Registry.Model
import Logmoko.Registry.Config
import Logmoko.Registry.System
import Logmoko.Registry.Edit
import Logmoko.Registry.Invariant
import Logmoko.Registry.Teardown
import Logmoko.Registry.Reachable
import Logmoko.Registry.Query
import Logmoko.Registry.Kinds
import Logmoko.Registry.Factory
import Logmoko.Registry.Safety
import Logmoko.Registry.Section
import Logmoko.Registry.HandlerPass
import Logmoko.Registry.LoggerPass
import Logmoko.Registry.Idempotence
import Logmoko.Registry.Applied
import Logmoko.Registry.Wiring
import Logmoko.Format.Model
import Logmoko.Format.Line
import Logmoko.Format.Decimal
import Logmoko.Format.Json
import Logmoko.Format.Escape
import Logmoko.File.Model
import Logmoko.File.Move
import Logmoko.File.Filename
import Logmoko.File.Batch
import Logmoko.File.Held
import Logmoko.File.Rotation
import Logmoko.File.Rename
import Logmoko.File.Stream
import Logmoko.File.Size
import Logmoko.Format.Text
import Logmoko.Format.Complete
import Logmoko.Format.Timestamp
import Logmoko.Startup.Model
import Logmoko.Startup.Invariant
import Logmoko.Startup.Preservation
import Logmoko.Startup.Return
import Logmoko.Syslog.Model
import Logmoko.Syslog.Session
import Logmoko.Transport.Model
import Logmoko.Transport.RoundTrip
import Logmoko.Transport.Keys
import Logmoko.Transport.Connector
import Logmoko.Transport.Sockets
import Logmoko.Dispatch.Attachments
import Logmoko.Dispatch.Law
import Logmoko.Dispatch.Model
import Logmoko.Dispatch.History
import Logmoko.Intrusive.Model
import Logmoko.Intrusive.Sequence
import Logmoko.Intrusive.Concurrent
import Logmoko.Lib.StrBuf
import Logmoko.Lib.Cells
import Logmoko.Lib.Traced
import Logmoko.Parser.Model
import Logmoko.Parser.Grammar
import Logmoko.Parser.Line
import Logmoko.Parser.Spelling
import Logmoko.Parser.Item
import Logmoko.Parser.Blocks
import Logmoko.Parser.RoundTrip
import Logmoko.Parser.Meaning
import Logmoko.Parser.Chunks
import Logmoko.Parser.Key
import Logmoko.Parser.Rewrite
import Logmoko.Parser.Idle
import Logmoko.Parser.Comment
import Logmoko.Parser.Isolation
import Logmoko.Parser.Listener
import Logmoko.Parser.Memory
import Logmoko.Parser.Bounds
import Logmoko.Parser.Fields
import Logmoko.Parser.Cuts
import Logmoko.Parser.Opening
import Logmoko.Parser.Safety
import Logmoko.Process.Model
import Logmoko.Process.Move
import Logmoko.Process.Order
import Logmoko.Process.Teardown
import Logmoko.Handler.Delivery
import Logmoko.Sink.File
import Logmoko.Sink.Lines
import Logmoko.Sink.Readback
import Logmoko.Sink.Faults
import Logmoko.Sink.Emitter
import Logmoko.Sink.Streams
import Logmoko.Transport.Sender
import Logmoko.Transport.Attempts
import Logmoko.Transport.Switch
import Logmoko.Sink.Socket
import Logmoko.Sink.Machine
import Logmoko.Sink.Datagrams
import Logmoko.Lib.Channel
import Logmoko.Sink.Network
import Logmoko.Process.Outlet
import Logmoko.Process.Readback
import Logmoko.Process.Network
