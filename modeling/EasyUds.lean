import EasyUds.Client.Retry
import EasyUds.Platform.DescriptorPassing
import EasyUds.Platform.KqueueReadiness
import EasyUds.Reactor.AdmissionOrder
import EasyUds.Reactor.Authorization
import EasyUds.Reactor.Cancellation
import EasyUds.Reactor.Descriptors
import EasyUds.Reactor.EndOfStream
import EasyUds.Reactor.EventTokens
import EasyUds.Reactor.ReadAhead
import EasyUds.Reactor.Resume
import EasyUds.Reactor.StreamSlots
import EasyUds.Reactor.Supersession
import EasyUds.Reactor.TryReserve
import EasyUds.Reactor.WireVersion
import EasyUds.Reactor.WorkerSupply
import EasyUds.Runtime.Routes
import EasyUds.Runtime.SocketPath
import EasyUds.Server.Interest
import EasyUds.Server.RequestCap
import EasyUds.Server.Shutdown
import EasyUds.Server.StreamOutput
import EasyUds.Server.Table
import EasyUds.Session.Correlation
import EasyUds.Session.Stats
import EasyUds.Transport.Deadlines
import EasyUds.Transport.GatheredWrite
import EasyUds.Transport.Responses
import EasyUds.Transport.Transparency
