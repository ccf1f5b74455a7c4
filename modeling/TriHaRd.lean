import TriHaRd.Untainting.Quorum
import TriHaRd.Untainting.Completeness
import TriHaRd.Untainting.Freshness
import TriHaRd.Untainting.Replays
import TriHaRd.Untainting.Verdict
import TriHaRd.Clock.Reading
import TriHaRd.Clock.Serving
import TriHaRd.Clock.Monotone
import TriHaRd.Clock.Solicited
import TriHaRd.Clock.Frequency
import TriHaRd.Clock.Offset
import TriHaRd.Clock.Settling
import TriHaRd.Clock.Rate
import TriHaRd.Clock.Spikes
import TriHaRd.Monitor.Polls
import TriHaRd.Monitor.Gaps
import TriHaRd.Monitor.SelfTaint
import TriHaRd.Monitor.Recalibration
import TriHaRd.Monitor.Band
import TriHaRd.Messages.RoundTrip
import TriHaRd.Network.Origin
import TriHaRd.Network.Discovery
import TriHaRd.Network.Cascades
import TriHaRd.Node.Receive
import TriHaRd.Node.Shutdown
import TriHaRd.Node.SocketLock
import TriHaRd.Node.Descriptor
import TriHaRd.Node.Wakeup
import TriHaRd.Node.Interrupted
import TriHaRd.Node.Uninterrupted
import TriHaRd.TimeAuthority.Payloads
import TriHaRd.Crypto.Codecs
import TriHaRd.Crypto.Datagrams
import TriHaRd.Isolation.Leftover
import TriHaRd.Isolation.Enclave
import TriHaRd.Host.Joining
