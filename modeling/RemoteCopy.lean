import RemoteCopy.Library.RingBuffer
import RemoteCopy.Server
import RemoteCopy.Rcopy
import RemoteCopy.Messages
import RemoteCopy.Receiver
import RemoteCopy.ServerSteps
import RemoteCopy.ServerInvariant
import RemoteCopy.ServerPeer
import RemoteCopy.Reassembly
import RemoteCopy.ArrivalOrder
import RemoteCopy.Delivery
import RemoteCopy.OrderedChannel
import RemoteCopy.Recovery
import RemoteCopy.RcopyPeer
import RemoteCopy.Handshake
import RemoteCopy.Codec
import RemoteCopy.Acknowledgements
import RemoteCopy.Receiving
import RemoteCopy.ControlTraffic
import RemoteCopy.Reach
import RemoteCopy.Impossible
import RemoteCopy.Session
import RemoteCopy.Pairing
import RemoteCopy.Representation
import RemoteCopy.Stream
import RemoteCopy.Request
import RemoteCopy.Resend
import RemoteCopy.GivingUp
import RemoteCopy.Sizes
import RemoteCopy.Library.Ledger
import RemoteCopy.Resources
import RemoteCopy.Library.Drive
import RemoteCopy.Silence
import RemoteCopy.RingCalls
import RemoteCopy.RingInvariant
import RemoteCopy.RingArithmetic
import RemoteCopy.Library.Edits
import RemoteCopy.WindowMap
import RemoteCopy.WindowUse
import RemoteCopy.Library.Mailbox
import RemoteCopy.Library.Numbered
import RemoteCopy.Undisturbed
import RemoteCopy.OrderedSession
import RemoteCopy.Copy
import RemoteCopy.Completion
import RemoteCopy.Library.Rounding
import RemoteCopy.Library.Congruential
import RemoteCopy.SendErr
import RemoteCopy.Library.Decimal
import RemoteCopy.Settings
import RemoteCopy.ZeroRate
import RemoteCopy.CopyErrors
import RemoteCopy.Library.Chunks
import RemoteCopy.RegularFile
import RemoteCopy.Library.Slots
import RemoteCopy.PollLib
import RemoteCopy.Descriptors
