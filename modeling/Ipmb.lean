import Ipmb.Authentication
import Ipmb.DeriveBox
import Ipmb.Eviction
import Ipmb.ExactCounts
import Ipmb.Expiry
import Ipmb.ExpiryRange
import Ipmb.FetchHandle
import Ipmb.FreeCallback
import Ipmb.Greeting
import Ipmb.HalfOpen
import Ipmb.HandleRuns
import Ipmb.Handshake
import Ipmb.Isolation
import Ipmb.LabelSets
import Ipmb.MacHub
import Ipmb.MacSend
import Ipmb.MappingWindows
import Ipmb.NetworkFates
import Ipmb.NodeClosing
import Ipmb.NodeReceiver
import Ipmb.Order
import Ipmb.Padding
import Ipmb.PipeRuns
import Ipmb.ReaderState
import Ipmb.RecvLoop
import Ipmb.Refusals
import Ipmb.RegionSteps
import Ipmb.RegistrySizes
import Ipmb.RejoinProtocol
import Ipmb.RightRuns
import Ipmb.RoutingSpec
import Ipmb.SendEnds
import Ipmb.Unread
import Ipmb.Wakeup
import Ipmb.Windows
import Ipmb.WireSafety
import Ipmb.WrapperRuns
