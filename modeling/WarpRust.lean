import WarpRust.Library.Machine
import WarpRust.Library.Lists
import WarpRust.Library.Doubling
import WarpRust.Config
import WarpRust.Proxy.StaggeredDial
import WarpRust.Proxy.Handle
import WarpRust.Proxy.Relay
import WarpRust.Proxy.RelayStreams
import WarpRust.Proxy.RelayIdle
import WarpRust.Tunnel.Generation
import WarpRust.Tunnel.Lifecycle
import WarpRust.Dns.Cache
import WarpRust.Dns.CacheHistory
import WarpRust.Proxy.Candidates
import WarpRust.Dns.Singleflight
import WarpRust.Library.WeakestPre
import WarpRust.Tunnel.Connect
import WarpRust.Warp.Account
import WarpRust.Supervisor.Recovery
import WarpRust.Warp.Persistence
import WarpRust.Supervisor.Outcome
import WarpRust.Supervisor.Commit
import WarpRust.Supervisor.Loop
import WarpRust.Supervisor.Progress
import WarpRust.Supervisor.Coherence
import WarpRust.Supervisor.Staleness
import WarpRust.Supervisor.Cooldown
import WarpRust.Supervisor.Backoff
import WarpRust.Egress
import WarpRust.ConfigWatch
import WarpRust.Health
import WarpRust.Health.Evidence
import WarpRust.Config.Admission
import WarpRust.Library.Bytes
import WarpRust.Proxy.UdpCodec
import WarpRust.Proxy.UdpRelay
import WarpRust.Proxy.UdpLimits
import WarpRust.Proxy.MemoryBudget
import WarpRust.Tunnel.Failover
import WarpRust.Tunnel.EndpointRace
import WarpRust.Dns.Message
import WarpRust.Dns.Query
import WarpRust.Proxy.PortPool
import WarpRust.Install.Toml
import WarpRust.Install.Retune
import WarpRust.Install.SetToml
import WarpRust.Install.Tune
import WarpRust.Supervisor.Ladder
import WarpRust.Install.Rewriters
import WarpRust.Library.RoundRobin
import WarpRust.Netstack.PortAllocator
import WarpRust.Netstack.Sockets
import WarpRust.Netstack.Packets
import WarpRust.Library.Notify
import WarpRust.Netstack.Waiting
import WarpRust.Netstack.UdpSend
import WarpRust.Dns.Lookup
import WarpRust.Library.RateGate
import WarpRust.Proxy.Serve
import WarpRust.Library.Permit
import WarpRust.Netstack.PollLoop
import WarpRust.Netstack.Stream
import WarpRust.Main
import WarpRust.Warp.Endpoints
import WarpRust.Tunnel.FirewallHint
