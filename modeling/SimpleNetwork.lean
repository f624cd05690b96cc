import SimpleNetwork.Base.CellRing
import SimpleNetwork.Base.Outcome
import SimpleNetwork.Base.Runs
import SimpleNetwork.Base.Triple
import SimpleNetwork.Base.Words
import SimpleNetwork.Base.Slices
import SimpleNetwork.Buffer.Basic
import SimpleNetwork.Buffer.Circle
import SimpleNetwork.Buffer.CircleQueue
import SimpleNetwork.Buffer.CircleSpec
import SimpleNetwork.Buffer.QueueOps
import SimpleNetwork.Buffer.Array
import SimpleNetwork.Reactor.Connection
import SimpleNetwork.Reactor.Packet
import SimpleNetwork.Reactor.OnRead
import SimpleNetwork.Reactor.Framing
import SimpleNetwork.Reactor.RoundTrip
import SimpleNetwork.Asio.Socket
import SimpleNetwork.Asio.Disconnect
import SimpleNetwork.Asio.SendPump
import SimpleNetwork.Asio.KcpUpdate
import SimpleNetwork.Asio.Acceptor
import SimpleNetwork.Asio.Books
import SimpleNetwork.Asio.Connector
import SimpleNetwork.Asio.Modes
import SimpleNetwork.Asio.Sessions
import SimpleNetwork.Reactor.SendBuffer
import SimpleNetwork.Reactor.Nested
import SimpleNetwork.Reactor.Confined
import SimpleNetwork.Buffer.Bip
import SimpleNetwork.Buffer.BipSpec
import SimpleNetwork.Buffer.BipQueue
import SimpleNetwork.Asio.ReceivePump
import SimpleNetwork.Asio.Interface
import SimpleNetwork.Asio.Datagram
import SimpleNetwork.Buffer.CircleSound
import SimpleNetwork.Asio.Listening
import SimpleNetwork.Asio.ControlBlock
import SimpleNetwork.Asio.Provenance
import SimpleNetwork.Buffer.CircleWrite
import SimpleNetwork.Reactor.Readers
import SimpleNetwork.Reactor.Undo
import SimpleNetwork.Asio.Notifications
import SimpleNetwork.Asio.UdpWrite
import SimpleNetwork.Asio.Timer
import SimpleNetwork.Buffer.CircleAppend
import SimpleNetwork.Buffer.BipAppend
import SimpleNetwork.Buffer.ArrayAppend
import SimpleNetwork.Buffer.Append
import SimpleNetwork.Buffer.BipRanges
import SimpleNetwork.Buffer.SpaceQuery
import SimpleNetwork.Buffer.CircleRefusal
import SimpleNetwork.Buffer.Refusals
import SimpleNetwork.Base.Footprint
import SimpleNetwork.Buffer.CircleRanges
import SimpleNetwork.Buffer.RangeChecks
import SimpleNetwork.Asio.KcpSend
import SimpleNetwork.Asio.Indifferent
import SimpleNetwork.Asio.Opening
import SimpleNetwork.Base.Cursors
import SimpleNetwork.Asio.Ticks
import SimpleNetwork.Base.Retries
import SimpleNetwork.Asio.ConvSearch
import SimpleNetwork.Buffer.GrowRetry
import SimpleNetwork.Reactor.Flushing
import SimpleNetwork.Reactor.InOrder
import SimpleNetwork.Asio.SendPacket
import SimpleNetwork.Buffer.CircleSizes
import SimpleNetwork.Asio.Rings
import SimpleNetwork.Asio.Sides
import SimpleNetwork.Asio.Answers
import SimpleNetwork.Asio.TcpSide
import SimpleNetwork.Asio.TcpLink
import SimpleNetwork.Asio.TcpProgress
import SimpleNetwork.Asio.UdpLink
import SimpleNetwork.Asio.Peers
import SimpleNetwork.Asio.KcpSide
import SimpleNetwork.Asio.KcpLink
import SimpleNetwork.Asio.PlainKcp
import SimpleNetwork.Asio.KcpSilence
import SimpleNetwork.Asio.Replies
import SimpleNetwork.Asio.UdpAcceptor
import SimpleNetwork.Base.Annotated
import SimpleNetwork.Asio.Marks
import SimpleNetwork.Asio.Erasure
import SimpleNetwork.Asio.OwnBytes
import SimpleNetwork.Buffer.CircleStray
import SimpleNetwork.Buffer.CircleFrame
