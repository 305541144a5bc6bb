import Hyprwire.Lib.Outcome
import Hyprwire.Core.Types
import Hyprwire.Lib.Bytes
import Hyprwire.Lib.Leb128
import Hyprwire.Core.VarInt
import Hyprwire.Core.Generic
import Hyprwire.Core.Grammar
import Hyprwire.Lib.Utf8
import Hyprwire.Scanner.Dispatch
import Hyprwire.Scanner.Parse
import Hyprwire.Scanner.Document
import Hyprwire.Scanner.Rendering
import Hyprwire.Scanner.Rereading
import Hyprwire.Lib.Worklist
import Hyprwire.Scanner.Returns
import Hyprwire.Wire.Call
import Hyprwire.Wire.Word
import Hyprwire.Wire.RoundTrip
import Hyprwire.Wire.Limits
import Hyprwire.Core.Control
import Hyprwire.Lib.Frame
import Hyprwire.Wire.Batch
import Hyprwire.Wire.Stream
import Hyprwire.Wire.Validate
import Hyprwire.Wire.Enums
import Hyprwire.Wire.Descriptors
import Hyprwire.Wire.Receive
import Hyprwire.Wire.Send
import Hyprwire.Wire.Loan
import Hyprwire.Wire.Deferred
import Hyprwire.Core.Accept
import Hyprwire.Core.Codec
import Hyprwire.Wire.Total
import Hyprwire.Wire.Exact
import Hyprwire.Wire.Release
import Hyprwire.Lib.Run
import Hyprwire.System.Client
import Hyprwire.System.Server
import Hyprwire.Lib.History
import Hyprwire.System.Ledger
import Hyprwire.System.Order
import Hyprwire.System.Answers
import Hyprwire.System.Barrier
import Hyprwire.System.Thread
import Hyprwire.System.Failure
import Hyprwire.System.Fatal
import Hyprwire.System.Handshake
import Hyprwire.System.Advertised
import Hyprwire.System.Lifecycle
import Hyprwire.System.Polling
import Hyprwire.System.Held
import Hyprwire.System.Silence
import Hyprwire.System.Deferral
import Hyprwire.System.Specs
import Hyprwire.System.Naming
import Hyprwire.System.Farewell
import Hyprwire.System.Numbering
import Hyprwire.System.Agreement
import Hyprwire.System.Freshness
import Hyprwire.System.Credentials
import Hyprwire.Wire.Traced
import Hyprwire.Scanner.Names
import Hyprwire.Core.Unreported
import Hyprwire.System.Orphans
import Hyprwire.System.Departures
import Hyprwire.System.Serving
import Hyprwire.System.Receiving
import Hyprwire.System.Dispatching
import Hyprwire.System.Posting
import Hyprwire.System.Rewording
import Hyprwire.System.Line
import Hyprwire.System.Cuts
