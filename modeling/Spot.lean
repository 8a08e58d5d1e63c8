import Spot.Client.Blob
import Spot.Client.Bottlers
import Spot.Client.Build
import Spot.Client.BuilderCalls
import Spot.Client.Cache
import Spot.Client.CacheBound
import Spot.Client.ClientId
import Spot.Client.Correlation
import Spot.Client.Datagram
import Spot.Client.Deadline
import Spot.Client.DefaultEndpoints
import Spot.Client.EndToEnd
import Spot.Client.Endpoint
import Spot.Client.Enqueue
import Spot.Client.Envelope
import Spot.Client.Exchange
import Spot.Client.Gate
import Spot.Client.Groups
import Spot.Client.Guarantee
import Spot.Client.Handler
import Spot.Client.IdState
import Spot.Client.Identity
import Spot.Client.Inner
import Spot.Client.InstantMessage
import Spot.Client.Network
import Spot.Client.Origin
import Spot.Client.PacketChannel
import Spot.Client.Query
import Spot.Client.Recipient
import Spot.Client.Records
import Spot.Client.Registry
import Spot.Client.State
import Spot.Client.Store
import Spot.Client.StoreIdentity
import Spot.Client.Supply
import Spot.Client.Uuid
import Spot.Conn.Attempts
import Spot.Conn.Bookkeeping
import Spot.Conn.BrowserLinks
import Spot.Conn.Closing
import Spot.Conn.Dial
import Spot.Conn.Discovery
import Spot.Conn.Drain
import Spot.Conn.Driver
import Spot.Conn.Events
import Spot.Conn.Handshake
import Spot.Conn.KeptIdentity
import Spot.Conn.Links
import Spot.Conn.PopTimeout
import Spot.Conn.Protocol
import Spot.Conn.Refresh
import Spot.Conn.Requests
import Spot.Conn.Resolver
import Spot.Conn.Session
import Spot.Conn.Threads
import Spot.Conn.Threshold
import Spot.Conn.WaitOnline
import Spot.Conn.WasmChallenge
import Spot.Conn.WasmClosing
import Spot.Conn.WasmFlush
import Spot.Conn.WasmQueue
import Spot.Conn.WasmWait
import Spot.Conn.WriteQueue
import Spot.Conn.Writers
import Spot.General.Bits
import Spot.General.Broadcast
import Spot.General.Census
import Spot.General.Clock
import Spot.General.Entries
import Spot.General.Keyed
import Spot.General.Monitor
import Spot.General.Mpsc
import Spot.General.Pool
import Spot.General.Potential
import Spot.General.Prog
import Spot.General.Registry
import Spot.General.Runs
import Spot.General.SharedSlot
import Spot.General.SortedMap
import Spot.General.Split
import Spot.General.Symbolic
import Spot.General.Utf8
import Spot.General.Varint
import Spot.General.WorkQueue
import Spot.Proto.Base64
import Spot.Proto.Packet
import Spot.Proto.Rereading
