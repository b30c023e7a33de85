import Mathlib.Data.List.Basic
import WarpRust.Basic

/-!
# Connecting a candidate tunnel

The endpoints a configuration offers and the race of handshakes over them, at most two at a
time. Which probe ends next, and how, is the choice of a `Network`, round by round.
-/

namespace WarpRust.Tunnel

abbrev Key := BitVec 256

structure WireGuardConfig where
  privateKey : Key
  peerPublicKey : Key
  peerEndpoint : SocketAddr
  peerEndpointCandidates : List SocketAddr
  tunnelIp : BitVec 32
  tunnelIpv6 : Option (BitVec 128)
  presharedKey : Option Key
  keepaliveSeconds : Option ℕ
  mtu : Option ℕ
  tcpBufferSize : Option ℕ
  deriving DecidableEq

/-- A running `ManagedTunnel` remembers nothing but the configuration it connected with. -/
structure ManagedTunnel where
  config : WireGuardConfig
  deriving DecidableEq

structure ConnectedTunnel where
  managed : ManagedTunnel
  config : WireGuardConfig
  deriving DecidableEq

def warpWgFallbackPorts : List (BitVec 16) := [2408, 500, 1701, 4500]

def endpointPorts (originalPort : BitVec 16) : List (BitVec 16) :=
  originalPort :: warpWgFallbackPorts.filter fun port => port ≠ originalPort

/-- `if !attempts.contains(e) { attempts.push(e) }`. -/
def pushNew (attempts : List SocketAddr) (e : SocketAddr) : List SocketAddr :=
  if e ∈ attempts then attempts else attempts ++ [e]

def endpointBases (cfg : WireGuardConfig) : List SocketAddr :=
  cfg.peerEndpointCandidates.foldl pushNew [cfg.peerEndpoint]

def endpointAttempts (cfg : WireGuardConfig) : List SocketAddr :=
  let bases := endpointBases cfg
  let attempts := bases.foldl pushNew []
  bases.foldl (fun attempts base =>
    (endpointPorts base.port).foldl
      (fun attempts port => pushNew attempts (.new base.ip port)) attempts) attempts

def maxParallelEndpointAttempts : ℕ := 2

/-- How a joined probe ended; `panicked` is a `JoinError`. -/
inductive Joined where
  | connected
  | failed (e : NetstackError)
  | panicked (t : Text)

structure Network where
  pick : ℕ → ℕ
  joined : ℕ → Joined
  firewallHint : List (SocketAddr × Text) → Text

def tryEndpoint (cfg : WireGuardConfig) (endpoint : SocketAddr) :
    Joined → Except Text (WireGuardConfig × Except NetstackError ManagedTunnel)
  | .connected =>
    let cfg := { cfg with peerEndpoint := endpoint }
    .ok (cfg, .ok ⟨cfg⟩)
  | .failed e => .ok ({ cfg with peerEndpoint := endpoint }, .error e)
  | .panicked t => .error t

def spawnNext (probes : List SocketAddr) : List SocketAddr → List SocketAddr × List SocketAddr
  | [] => (probes, [])
  | endpoint :: pending => (probes ++ [endpoint], pending)

def failureDetail (failures : List (SocketAddr × Text)) : Text :=
  .join "; " (failures.map fun (endpoint, message) => .addr endpoint :: .lit ": " :: message)

def allFailedError (firewallHint : List (SocketAddr × Text) → Text)
    (failures : List (SocketAddr × Text)) : Error :=
  .other (.lit "all WARP WireGuard endpoint candidates failed: " :: failureDetail failures ++
    firewallHint failures)

/-- `while let Some(joined) = probes.join_next()`, for at most as many rounds as there are
endpoints: every round uses one up. -/
def joinLoop (net : Network) (cfg : WireGuardConfig) : ℕ → List SocketAddr → List SocketAddr →
    List (SocketAddr × Text) → Except Error ConnectedTunnel
  | 0, _, _, failures => .error (allFailedError net.firewallHint failures)
  | _ + 1, [], _, failures => .error (allFailedError net.firewallHint failures)
  | rounds + 1, probe :: probes, pending, failures =>
    let i := net.pick rounds % (probe :: probes).length
    let endpoint := (probe :: probes).getD i probe
    let (running, pending) := spawnNext ((probe :: probes).eraseIdx i) pending
    match tryEndpoint cfg endpoint (net.joined rounds) with
    | .ok (candidate, .ok managed) => .ok ⟨managed, candidate⟩
    | .ok (candidate, .error e) =>
      joinLoop net cfg rounds running pending (failures ++ [(candidate.peerEndpoint, e.text)])
    | .error t =>
      joinLoop net cfg rounds running pending
        (failures ++ [(.new IpAddr.unspecifiedV4 0, .lit "endpoint probe task failed: " :: t)])

def connectCandidate (net : Network) (cfg : WireGuardConfig) : Except Error ConnectedTunnel :=
  let attempts := endpointAttempts cfg
  let (probes, pending) := (List.replicate maxParallelEndpointAttempts ()).foldl
    (fun (probes, pending) _ => spawnNext probes pending) ([], attempts)
  joinLoop net cfg attempts.length probes pending []

structure ConnectedTunnel.For (cfg : WireGuardConfig) (t : ConnectedTunnel) : Prop where
  config_eq : t.config = { cfg with peerEndpoint := t.config.peerEndpoint }
  managed_eq : t.managed.config = t.config

theorem tryEndpoint_for {cfg candidate : WireGuardConfig} {endpoint : SocketAddr} {j : Joined}
    {managed : ManagedTunnel} (h : tryEndpoint cfg endpoint j = .ok (candidate, .ok managed)) :
    ConnectedTunnel.For cfg ⟨managed, candidate⟩ := by
  cases j with
  | connected =>
    cases h
    exact ⟨rfl, rfl⟩
  | failed e => cases h
  | panicked t => cases h

theorem joinLoop_for {net : Network} {cfg : WireGuardConfig} {t : ConnectedTunnel} :
    ∀ {rounds : ℕ} {probes pending : List SocketAddr} {failures : List (SocketAddr × Text)},
      joinLoop net cfg rounds probes pending failures = .ok t → t.For cfg := by
  intro rounds
  induction rounds with
  | zero =>
    intro probes pending failures h
    cases h
  | succ rounds ih =>
    intro probes pending failures h
    cases probes with
    | nil => cases h
    | cons probe probes =>
      simp only [joinLoop] at h
      split at h
      next candidate managed htry =>
        obtain rfl := Except.ok.inj h
        exact tryEndpoint_for htry
      next => exact ih h
      next => exact ih h

theorem spawnNext_length (probes pending : List SocketAddr) :
    (spawnNext probes pending).1.length + (spawnNext probes pending).2.length =
      probes.length + pending.length := by
  cases pending with
  | nil => rfl
  | cons e pending =>
    simp only [spawnNext, List.length_append, List.length_cons, List.length_nil]
    omega

theorem connectCandidate_for {net : Network} {cfg : WireGuardConfig} {t : ConnectedTunnel}
    (h : connectCandidate net cfg = .ok t) : t.For cfg := joinLoop_for h

end WarpRust.Tunnel
