import Mathlib.Data.Fintype.EquivFin
import WarpRust.Library.Lists
import WarpRust.Netstack.PortAllocator

/-!
# Who owns a socket

`TcpConnection::connect` with its guard, the connection it returns, `create_udp_socket_with`
and `UdpHandle`, each up to the end of its `Drop`. Owners take turns between any two sections
under a lock. smoltcp is the environment: it picks the handle of a new socket among the free
ones, answers `connect` and `bind`, and moves the state of a TCP socket as it likes. Looking up
a handle that is not in the set is a panic.
-/

namespace WarpRust.Netstack
open Library
open Proxy.PortPool (ephemeralPortCount)

abbrev SocketHandle := ℕ

inductive TcpState where
  | closed
  | listen
  | synSent
  | synReceived
  | established
  | finWait1
  | finWait2
  | closeWait
  | closing
  | lastAck
  | timeWait
  deriving DecidableEq

/-- A state as `{:?}` prints it. -/
def TcpState.debug : TcpState → String
  | closed => "Closed"
  | listen => "Listen"
  | synSent => "SynSent"
  | synReceived => "SynReceived"
  | established => "Established"
  | finWait1 => "FinWait1"
  | finWait2 => "FinWait2"
  | closeWait => "CloseWait"
  | closing => "Closing"
  | lastAck => "LastAck"
  | timeWait => "TimeWait"

def tcpTimeout : NetstackError := .other [.lit "TCP connection timeout"]
def ipv6NotSupported : NetstackError := .other [.lit "IPv6 not supported"]

def tcpConnectGeneric (message : Text) : NetstackError :=
  .other (.lit "TCP connection failed: " :: message)

def tcpConnect (addr : SocketAddr) (message : Text) : NetstackError :=
  .other ([.lit "TCP connection to ", .addr addr, .lit " failed: "] ++ message)

def tcpPortsExhausted : NetstackError :=
  tcpConnectGeneric [.lit "TCP ephemeral port range exhausted (", .nat ephemeralPortCount,
    .lit " ports); this is the per-instance architectural ceiling — run multiple ",
    .lit "instances behind a load balancer instead of raising limits"]

def udpPortsExhausted : NetstackError :=
  tcpConnectGeneric [.lit "UDP ephemeral port range exhausted"]

def connectTimeout : Duration := Duration.fromSecs 30

inductive Kind where
  | tcp
  | udp
  deriving DecidableEq

/-- A socket of the set; a TCP socket has a local port once smoltcp accepted its `connect`. -/
structure Entry where
  handle : SocketHandle
  kind : Kind
  localPort : Option Port
  deriving DecidableEq

inductive Outcome where
  | failed (e : NetstackError)
  | cancelled
  | dropped

/-- The place an owner has reached; it stands before the section its name says is next, or
`parked` at the one await of `connect`, or held by its user (`connected`, `udp`). -/
inductive Owner where
  | adding (addr : SocketAddr)
  | counting (addr : SocketAddr) (h : SocketHandle)
  | guarding (addr : SocketAddr) (h : SocketHandle)
  | allocating (addr : SocketAddr) (h : SocketHandle)
  | connecting (addr : SocketAddr) (h : SocketHandle) (p : Port)
  | unbinding (h : SocketHandle) (p : Port) (e : NetstackError)
  | checking (addr : SocketAddr) (h : SocketHandle) (p : Port) (deadline : Instant)
  | parked (addr : SocketAddr) (h : SocketHandle) (p : Port) (deadline : Instant)
  | connected (h : SocketHandle) (p : Port)
  | opening (localPort : Port)
  | binding (p : Port) (allocated : Bool)
  | udpAdding (p : Port) (allocated : Bool)
  | udpCounting (h : SocketHandle) (p : Port) (allocated : Bool)
  | udp (h : SocketHandle) (p : Port) (allocated : Bool)
  | removing (h : SocketHandle) (p : Option Port) (out : Outcome)
  | udpRemoving (h : SocketHandle) (p : Port) (allocated : Bool)
  | discounting (k : Kind) (held : Option Port) (out : Outcome)
  | releasing (k : Kind) (held : Option Port) (out : Outcome)
  | done (out : Outcome)

structure State where
  now : Instant
  hasIpv6 : Bool
  tcpPorts : EphemeralPortAllocator
  udpPorts : EphemeralPortAllocator
  sockets : List Entry
  signals : List SocketHandle
  socketsActive : ℤ
  portsExhausted : ℕ
  panicked : Bool
  owners : List Owner

namespace State

def init (now : Instant) (hasIpv6 : Bool) (tcpRandom udpRandom : BitVec 16) : State :=
  ⟨now, hasIpv6, .new tcpRandom, .new udpRandom, [], [], 0, 0, false, []⟩

def portsOf (s : State) : Kind → EphemeralPortAllocator
  | .tcp => s.tcpPorts
  | .udp => s.udpPorts

def setPorts (s : State) (a : EphemeralPortAllocator) : Kind → State
  | .tcp => { s with tcpPorts := a }
  | .udp => { s with udpPorts := a }

def has (s : State) (h : SocketHandle) (k : Kind) : Bool :=
  s.sockets.any fun e => e.handle == h && e.kind == k

def fresh (s : State) (h : SocketHandle) : Bool := s.sockets.all fun e => e.handle != h

end State

inductive Effect where
  | skip
  | add (e : Entry)
  | bindLocal (h : SocketHandle) (p : Port)
  | lookup (h : SocketHandle) (k : Kind)
  | lookupSignals (h : SocketHandle)
  | remove (h : SocketHandle)
  | gauge (d : ℤ)
  | allocate (k : Kind) (p : Port)
  | exhausted
  | release (k : Kind) (p : Port)

def Effect.apply (s : State) : Effect → State
  | .skip => s
  | .add e => { s with sockets := e :: s.sockets, signals := e.handle :: s.signals }
  | .bindLocal h p =>
    if s.has h .tcp then
      { s with sockets := s.sockets.map fun e =>
          if e.handle = h then { e with localPort := some p } else e }
    else { s with panicked := true }
  | .lookup h k => if s.has h k then s else { s with panicked := true }
  | .lookupSignals h => if h ∈ s.signals then s else { s with panicked := true }
  | .remove h =>
    if s.fresh h then { s with panicked := true }
    else { s with sockets := s.sockets.filter (·.handle ≠ h), signals := s.signals.filter (· ≠ h) }
  | .gauge d => { s with socketsActive := s.socketsActive + d }
  | .allocate k _ => s.setPorts (s.portsOf k).afterAllocate k
  | .exhausted => { s with portsExhausted := s.portsExhausted + 1 }
  | .release k p => s.setPorts ((s.portsOf k).release p) k

inductive Move where
  | run
  | added (h : SocketHandle)
  | answered (r : Except Text Unit)
  | observed (state : TcpState)
  | notified
  | timedOut
  | cancelled
  | dropped

open Owner Effect in
def Owner.next (s : State) : Owner → Move → Option (Effect × Owner)
  | adding addr, .added h =>
    if s.fresh h then some (add ⟨h, .tcp, none⟩, counting addr h) else none
  | counting addr h, .run => some (gauge 1, guarding addr h)
  | guarding addr h, .run => some (lookupSignals h, allocating addr h)
  | allocating addr h, .run =>
    match s.tcpPorts.allocate with
    | some (p, _) => some (allocate .tcp p, connecting addr h p)
    | none =>
      some (exhausted, removing h none (.failed tcpPortsExhausted))
  | connecting addr h p, .answered r =>
    if addr.isIpv6 && !s.hasIpv6 then some (skip, unbinding h p ipv6NotSupported)
    else
      match r with
      | .ok () => some (bindLocal h p, checking addr h p (s.now + connectTimeout))
      | .error e =>
        some (lookup h .tcp, unbinding h p (tcpConnectGeneric (.lit "TCP connect failed: " :: e)))
  | unbinding h p e, .run =>
    some (release .tcp p, removing h none (.failed e))
  | checking addr h p deadline, .observed state =>
    if state = .established then some (lookup h .tcp, connected h p)
    else if state = .closed ∨ state = .timeWait then
      some (lookup h .tcp, removing h (some p)
        (.failed (tcpConnect addr [.lit "Connection failed (state: ", .lit state.debug, .lit ")"])))
    else if deadline ≤ s.now then
      some (lookup h .tcp, removing h (some p) (.failed tcpTimeout))
    else some (lookup h .tcp, parked addr h p deadline)
  | parked addr h p deadline, .notified => some (skip, checking addr h p deadline)
  | parked _ h p deadline, .timedOut =>
    if deadline ≤ s.now then
      some (skip, removing h (some p) (.failed tcpTimeout))
    else none
  | parked _ h p _, .cancelled =>
    some (skip, removing h (some p) .cancelled)
  | connected h p, .dropped => some (lookup h .tcp, removing h (some p) .dropped)
  | opening localPort, .run =>
    if localPort = 0 then
      match s.udpPorts.allocate with
      | some (p, _) => some (allocate .udp p, binding p true)
      | none => some (skip, done (.failed udpPortsExhausted))
    else some (skip, binding localPort false)
  | binding p allocated, .answered r =>
    match r with
    | .ok () => some (skip, udpAdding p allocated)
    | .error e => some (skip, releasing .udp (if allocated then some p else none)
        (.failed (tcpConnectGeneric (.lit "UDP bind failed: " :: e))))
  | udpAdding p allocated, .added h =>
    if s.fresh h then some (add ⟨h, .udp, some p⟩, udpCounting h p allocated) else none
  | udpCounting h p allocated, .run => some (gauge 1, udp h p allocated)
  | udp h p allocated, .dropped => some (skip, udpRemoving h p allocated)
  | removing h p out, .run => some (remove h, discounting .tcp p out)
  | udpRemoving h p allocated, .run =>
    some (remove h, discounting .udp (if allocated then some p else none) .dropped)
  | discounting k held out, .run => some (gauge (-1), releasing k held out)
  | releasing k (some p) out, .run => some (release k p, done out)
  | releasing _ none out, .run => some (skip, done out)
  | _, _ => none

inductive Action where
  | connect (addr : SocketAddr)
  | createUdpSocket (localPort : Port)
  | move (i : ℕ) (m : Move)
  | tick (d : Duration)

namespace State

def step (s : State) : Action → Option State
  | .connect addr => some { s with owners := s.owners ++ [.adding addr] }
  | .createUdpSocket localPort => some { s with owners := s.owners ++ [.opening localPort] }
  | .move i m =>
    s.owners[i]?.bind fun o => (o.next s m).map fun r =>
      { r.1.apply s with owners := s.owners.set i r.2 }
  | .tick d => some { s with now := s.now + d }

end State

def machine : Machine State Action := ⟨State.step⟩

/-! ### What an owner has -/

namespace Owner

def socket : Owner → Option Entry
  | counting _ h | guarding _ h | allocating _ h | connecting _ h _ | unbinding h _ _ =>
    some ⟨h, .tcp, none⟩
  | checking _ h p _ | parked _ h p _ | connected h p => some ⟨h, .tcp, some p⟩
  | removing h p _ => some ⟨h, .tcp, p⟩
  | udpCounting h p _ | udp h p _ | udpRemoving h p _ => some ⟨h, .udp, some p⟩
  | _ => none

def tcpPort : Owner → Option Port
  | connecting _ _ p | unbinding _ p _ | checking _ _ p _ | parked _ _ p _ | connected _ p => some p
  | removing _ held _ | discounting .tcp held _ | releasing .tcp held _ => held
  | _ => none

def udpPort : Owner → Option Port
  | binding p true | udpAdding p true | udpCounting _ p true | udp _ p true
  | udpRemoving _ p true => some p
  | discounting .udp held _ | releasing .udp held _ => held
  | _ => none

def port : Kind → Owner → Option Port
  | .tcp => tcpPort
  | .udp => udpPort

/-- The gauge has been raised for it and not yet lowered. -/
def counted : Owner → Bool
  | adding _ | counting _ _ | opening _ | binding _ _ | udpAdding _ _ | udpCounting _ _ _
  | releasing _ _ _ | done _ => false
  | _ => true

end Owner

def Effect.onSocket (s : Option Entry) : Effect → Option Entry
  | .add e => some e
  | .bindLocal _ p => s.map fun e => { e with localPort := some p }
  | .remove _ => none
  | _ => s

def Effect.Names (s : State) (o : Option Entry) : Effect → Prop
  | .add e => o = none ∧ s.fresh e.handle = true
  | .bindLocal h _ => ∃ p, o = some ⟨h, .tcp, p⟩
  | .lookup h k => ∃ p, o = some ⟨h, k, p⟩
  | .lookupSignals h | .remove h => ∃ k p, o = some ⟨h, k, p⟩
  | _ => True

def Effect.onPort (k : Kind) (p : Option Port) : Effect → Option Port
  | .allocate k' q => if k' = k then some q else p
  | .release k' _ => if k' = k then none else p
  | _ => p

def Effect.Moves (s : State) (port : Kind → Option Port) : Effect → Prop
  | .allocate k p => port k = none ∧ ∃ a, (s.portsOf k).allocate = some (p, a)
  | .release k p => port k = some p
  | _ => True

def Effect.onGauge : Effect → ℤ
  | .gauge d => d
  | _ => 0

/-- What a section does to the shared state it does to what its owner has. -/
structure Accounts (s : State) (o : Owner) (e : Effect) (o' : Owner) : Prop where
  socket : o'.socket = e.onSocket o.socket
  names : e.Names s o.socket
  port : ∀ k, o'.port k = e.onPort k (o.port k)
  moves : e.Moves s fun k => o.port k
  counted : (o'.counted.toNat : ℤ) = o.counted.toNat + e.onGauge

section
variable {s : State} {o o' : Owner} {m : Move} {e : Effect}

theorem Owner.next_accounts (h : o.next s m = some (e, o')) : Accounts s o e o' := by
  unfold Owner.next at h
  split at h
  case h_1 addr h' =>
    obtain ⟨hfresh, hr⟩ := of_guarded h
    cases hr
    exact ⟨rfl, ⟨rfl, hfresh⟩, fun k => by cases k <;> rfl, trivial, rfl⟩
  case h_2 =>
    cases h
    exact ⟨rfl, trivial, fun k => by cases k <;> rfl, trivial, rfl⟩
  case h_3 =>
    cases h
    exact ⟨rfl, ⟨_, _, rfl⟩, fun k => by cases k <;> rfl, trivial, rfl⟩
  case h_4 =>
    split at h
    · cases h
      rename_i p a hal
      exact ⟨rfl, trivial, fun k => by cases k <;> rfl, ⟨rfl, a, hal⟩, rfl⟩
    · cases h
      exact ⟨rfl, trivial, fun k => by cases k <;> rfl, trivial, rfl⟩
  case h_5 addr h' p r =>
    split at h
    · cases h
      exact ⟨rfl, trivial, fun k => by cases k <;> rfl, trivial, rfl⟩
    · split at h
      · cases h
        exact ⟨rfl, ⟨_, rfl⟩, fun k => by cases k <;> rfl, trivial, rfl⟩
      · cases h
        exact ⟨rfl, ⟨_, rfl⟩, fun k => by cases k <;> rfl, trivial, rfl⟩
  case h_6 =>
    cases h
    exact ⟨rfl, trivial, fun k => by cases k <;> rfl, rfl, rfl⟩
  case h_7 =>
    -- every way out of the check has looked the socket up and keeps what the guard has
    split at h
    · cases h
      exact ⟨rfl, ⟨_, rfl⟩, fun k => by cases k <;> rfl, trivial, rfl⟩
    split at h
    · cases h
      exact ⟨rfl, ⟨_, rfl⟩, fun k => by cases k <;> rfl, trivial, rfl⟩
    split at h <;> cases h
    · exact ⟨rfl, ⟨_, rfl⟩, fun k => by cases k <;> rfl, trivial, rfl⟩
    · exact ⟨rfl, ⟨_, rfl⟩, fun k => by cases k <;> rfl, trivial, rfl⟩
  case h_8 =>
    cases h
    exact ⟨rfl, trivial, fun k => by cases k <;> rfl, trivial, rfl⟩
  case h_9 =>
    obtain ⟨_, hr⟩ := of_guarded h
    cases hr
    exact ⟨rfl, trivial, fun k => by cases k <;> rfl, trivial, rfl⟩
  case h_10 =>
    cases h
    exact ⟨rfl, trivial, fun k => by cases k <;> rfl, trivial, rfl⟩
  case h_11 =>
    cases h
    exact ⟨rfl, ⟨_, rfl⟩, fun k => by cases k <;> rfl, trivial, rfl⟩
  case h_12 =>
    split at h
    · split at h
      · cases h
        rename_i p a hal
        exact ⟨rfl, trivial, fun k => by cases k <;> rfl, ⟨rfl, a, hal⟩, rfl⟩
      · cases h
        exact ⟨rfl, trivial, fun k => by cases k <;> rfl, trivial, rfl⟩
    · cases h
      exact ⟨rfl, trivial, fun k => by cases k <;> rfl, trivial, rfl⟩
  case h_13 p allocated r =>
    split at h <;> cases h
    · exact ⟨rfl, trivial, fun k => by cases k <;> cases allocated <;> rfl, trivial, rfl⟩
    · exact ⟨rfl, trivial, fun k => by cases k <;> cases allocated <;> rfl, trivial, rfl⟩
  case h_14 p allocated h' =>
    obtain ⟨hfresh, hr⟩ := of_guarded h
    cases hr
    exact ⟨rfl, ⟨rfl, hfresh⟩, fun k => by cases k <;> cases allocated <;> rfl, trivial, rfl⟩
  case h_15 h' p allocated =>
    cases h
    exact ⟨rfl, trivial, fun k => by cases k <;> cases allocated <;> rfl, trivial, rfl⟩
  case h_16 h' p allocated =>
    cases h
    exact ⟨rfl, trivial, fun k => by cases k <;> cases allocated <;> rfl, trivial, rfl⟩
  case h_17 h' p out =>
    cases h
    exact ⟨rfl, ⟨_, _, rfl⟩, fun k => by cases k <;> rfl, trivial, rfl⟩
  case h_18 h' p allocated =>
    cases h
    exact ⟨rfl, ⟨_, _, rfl⟩, fun k => by cases k <;> cases allocated <;> rfl, trivial, rfl⟩
  case h_19 k held out =>
    cases h
    exact ⟨rfl, trivial, fun k' => by cases k' <;> cases k <;> rfl, trivial, rfl⟩
  case h_20 k p out =>
    cases h
    exact ⟨rfl, trivial, fun k' => by cases k' <;> cases k <;> rfl, by cases k <;> rfl, rfl⟩
  case h_21 k out =>
    cases h
    exact ⟨rfl, trivial, fun k' => by cases k' <;> cases k <;> rfl, trivial, rfl⟩
  case h_22 => cases h

end

/-! ### Nothing leaks -/

/-- The sockets, signals, ports and gauge of the stack are those of its owners, and no lookup
has failed. -/
structure Owned (s : State) : Prop where
  sockets : (s.owners.filterMap Owner.socket).Perm s.sockets
  handles : (s.sockets.map Entry.handle).Nodup
  signals : s.signals = s.sockets.map Entry.handle
  ports : ∀ k, (s.portsOf k).ports.val = (s.owners.filterMap (Owner.port k) : Multiset Port)
  gauge : s.socketsActive = s.owners.countP Owner.counted
  calm : s.panicked = false

section
variable {s t : State} {o o' : Owner} {e : Effect} {x : Entry} {h : SocketHandle} {k : Kind}
  {i : ℕ} {m : Move}

theorem fresh_iff : s.fresh h = true ↔ h ∉ s.sockets.map Entry.handle := by
  simp only [State.fresh, List.all_eq_true, bne_iff_ne, List.mem_map, not_exists, not_and]

theorem has_of_mem (hx : x ∈ s.sockets) : s.has x.handle x.kind = true :=
  List.any_eq_true.mpr ⟨x, hx, by simp⟩

@[simp] theorem setPorts_sockets (s : State) (a : EphemeralPortAllocator) (k : Kind) :
    (s.setPorts a k).sockets = s.sockets := by cases k <;> rfl

@[simp] theorem setPorts_signals (s : State) (a : EphemeralPortAllocator) (k : Kind) :
    (s.setPorts a k).signals = s.signals := by cases k <;> rfl

@[simp] theorem setPorts_socketsActive (s : State) (a : EphemeralPortAllocator) (k : Kind) :
    (s.setPorts a k).socketsActive = s.socketsActive := by cases k <;> rfl

@[simp] theorem setPorts_panicked (s : State) (a : EphemeralPortAllocator) (k : Kind) :
    (s.setPorts a k).panicked = s.panicked := by cases k <;> rfl

theorem portsOf_setPorts (s : State) (a : EphemeralPortAllocator) (k k' : Kind) :
    (s.setPorts a k).portsOf k' = if k = k' then a else s.portsOf k' := by
  cases k <;> cases k' <;> rfl

theorem Effect.Names.apply_calm (hn : e.Names s o.socket) (hmem : ∀ x, o.socket = some x →
    x ∈ s.sockets) (hsig : s.signals = s.sockets.map Entry.handle) (hc : s.panicked = false) :
    (e.apply s).panicked = false := by
  cases e with
  | skip | add _ | gauge _ | exhausted => exact hc
  | allocate _ _ | release _ _ => simpa [Effect.apply] using hc
  | bindLocal h p =>
    obtain ⟨q, hq⟩ := hn
    rw [Effect.apply, if_pos (has_of_mem (hmem _ hq))]
    exact hc
  | lookup h k =>
    obtain ⟨q, hq⟩ := hn
    rw [Effect.apply, if_pos (has_of_mem (hmem _ hq))]
    exact hc
  | lookupSignals h =>
    obtain ⟨k, q, hq⟩ := hn
    have hmem' : h ∈ s.signals := hsig ▸ List.mem_map_of_mem (hmem _ hq)
    rw [Effect.apply, if_pos hmem']
    exact hc
  | remove h =>
    obtain ⟨k, q, hq⟩ := hn
    have hmem' : h ∈ s.sockets.map Entry.handle := List.mem_map_of_mem (hmem _ hq)
    rw [Effect.apply, if_neg fun hf => fresh_iff.mp hf hmem']
    exact hc

/-- The set with the share of one owner and that of the others: an effect changes the one. -/
theorem Effect.Names.apply_sockets {rest : List Entry} (hn : e.Names s o.socket)
    (hperm : s.sockets.Perm (o.socket.toList ++ rest)) (hnd : (s.sockets.map Entry.handle).Nodup) :
    (e.apply s).sockets.Perm ((e.onSocket o.socket).toList ++ rest) := by
  have hapart : ∀ x, o.socket = some x → ∀ y ∈ rest, y.handle ≠ x.handle := by
    intro x hx y hy he
    rw [(hperm.map Entry.handle).nodup_iff, hx] at hnd
    exact (List.nodup_cons.mp hnd).1 (he ▸ List.mem_map_of_mem hy)
  cases e with
  | skip | gauge _ | exhausted => exact hperm
  | allocate _ _ | release _ _ => simpa [Effect.apply, Effect.onSocket] using hperm
  | lookup _ _ =>
    rw [Effect.apply]
    split <;> exact hperm
  | lookupSignals _ =>
    rw [Effect.apply]
    split <;> exact hperm
  | add x =>
    rw [hn.1] at hperm
    exact hperm.cons x
  | bindLocal h p =>
    obtain ⟨q, hq⟩ := hn
    have hrest := hapart _ hq
    rw [hq] at hperm ⊢
    have hmem : (⟨h, .tcp, q⟩ : Entry) ∈ s.sockets := hperm.mem_iff.mpr List.mem_cons_self
    rw [Effect.apply, if_pos (has_of_mem hmem)]
    have hmap : rest.map (fun e => if e.handle = h then { e with localPort := some p } else e) =
        rest := (List.map_congr_left fun y hy => if_neg (hrest y hy)).trans (List.map_id' rest)
    simpa [hmap, Effect.onSocket] using
      hperm.map fun e => if e.handle = h then { e with localPort := some p } else e
  | remove h =>
    obtain ⟨k, q, hq⟩ := hn
    have hrest := hapart _ hq
    rw [hq] at hperm
    have hmem : (⟨h, k, q⟩ : Entry) ∈ s.sockets := hperm.mem_iff.mpr List.mem_cons_self
    rw [Effect.apply, if_neg fun hf => fresh_iff.mp hf (List.mem_map_of_mem hmem)]
    have hfilter : rest.filter (·.handle ≠ h) = rest :=
      List.filter_eq_self.mpr fun y hy => by simpa using hrest y hy
    have hkeep := hperm.filter (·.handle ≠ h)
    rw [List.filter_append, hfilter] at hkeep
    simpa [Effect.onSocket] using hkeep

theorem Effect.apply_signals (hsig : s.signals = s.sockets.map Entry.handle) :
    (e.apply s).signals = (e.apply s).sockets.map Entry.handle := by
  cases e with
  | skip | gauge _ | exhausted => exact hsig
  | allocate _ _ | release _ _ => simpa [Effect.apply] using hsig
  | add x => exact congrArg (x.handle :: ·) hsig
  | lookup _ _ | lookupSignals _ =>
    rw [Effect.apply]
    split <;> exact hsig
  | bindLocal h p =>
    rw [Effect.apply]
    split
    · rw [List.map_map, hsig]
      refine List.map_congr_left fun y _ => ?_
      dsimp only [Function.comp_apply]
      split <;> rfl
    · exact hsig
  | remove h =>
    rw [Effect.apply]
    split
    · exact hsig
    · dsimp only
      rw [hsig, List.filter_map]
      rfl

theorem Effect.Names.apply_handles (hn : e.Names s o.socket)
    (hsig : s.signals = s.sockets.map Entry.handle) (hnd : (s.sockets.map Entry.handle).Nodup) :
    ((e.apply s).sockets.map Entry.handle).Nodup := by
  rw [← Effect.apply_signals hsig]
  rw [← hsig] at hnd
  cases e with
  | skip | gauge _ | exhausted => exact hnd
  | allocate _ _ | release _ _ => simpa [Effect.apply] using hnd
  | add x => exact List.nodup_cons.mpr ⟨hsig ▸ fresh_iff.mp hn.2, hnd⟩
  | lookup _ _ | lookupSignals _ | bindLocal _ _ =>
    rw [Effect.apply]
    split <;> exact hnd
  | remove h =>
    rw [Effect.apply]
    split
    · exact hnd
    · exact hnd.filter _

theorem Effect.Moves.apply_ports {rest : List Port} (hm : e.Moves s fun k => o.port k)
    (hval : (s.portsOf k).ports.val = ((o.port k).toList ++ rest : List Port)) :
    ((e.apply s).portsOf k).ports.val = ((e.onPort k (o.port k)).toList ++ rest : List Port) := by
  cases e with
  | skip | gauge _ | exhausted | add _ => exact hval
  | lookup _ _ | lookupSignals _ | bindLocal _ _ | remove _ =>
    rw [Effect.apply]
    split <;> exact hval
  | allocate k' p =>
    obtain ⟨hnone, a, hal⟩ := hm
    rw [Effect.apply, portsOf_setPorts, Effect.onPort]
    by_cases hk : k' = k
    · subst hk
      have hb : (s.portsOf k').afterAllocate = a := by
        rw [EphemeralPortAllocator.afterAllocate, hal]
        rfl
      rw [if_pos rfl, if_pos rfl, hb, EphemeralPortAllocator.ports_allocate hal,
        Finset.insert_val_of_notMem (EphemeralPortAllocator.allocate_not_mem hal).2, hval,
        show o.port k' = none from hnone]
      rfl
    · rw [if_neg hk, if_neg hk]
      exact hval
  | release k' p =>
    rw [Effect.apply, portsOf_setPorts, Effect.onPort]
    by_cases hk : k' = k
    · subst hk
      rw [if_pos rfl, if_pos rfl, EphemeralPortAllocator.ports_release, Finset.erase_val, hval,
        show o.port k' = some p from hm]
      simp
    · rw [if_neg hk, if_neg hk]
      exact hval

theorem Effect.apply_socketsActive : (e.apply s).socketsActive = s.socketsActive + e.onGauge := by
  cases e with
  | gauge d => rfl
  | allocate _ _ | release _ _ => simp [Effect.apply, Effect.onGauge]
  | skip | exhausted | add _ => exact (add_zero _).symm
  | lookup _ _ | lookupSignals _ | bindLocal _ _ | remove _ =>
    rw [Effect.apply]
    split <;> exact (add_zero _).symm

theorem owners_portsOf (s : State) (l : List Owner) (k : Kind) :
    ({ s with owners := l }).portsOf k = s.portsOf k := by cases k <;> rfl

theorem Owned.move (hs : Owned s) (hi : s.owners[i]? = some o) (hn : o.next s m = some (e, o')) :
    Owned { e.apply s with owners := s.owners.set i o' } := by
  have ha := Owner.next_accounts hn
  have hold := (perm_cons_eraseIdx hi).symm
  have hnew := perm_cons_set (y := o') hi
  have hsplit := hs.sockets.symm.trans (filterMap_perm_append Owner.socket hold)
  have hmem : ∀ x, o.socket = some x → x ∈ s.sockets := by
    intro x hx
    exact hsplit.mem_iff.mpr (List.mem_append_left _ (by simp [hx]))
  refine ⟨?_, ha.names.apply_handles hs.signals hs.handles, Effect.apply_signals hs.signals, ?_, ?_,
    ha.names.apply_calm hmem hs.signals hs.calm⟩
  · have happly := ha.names.apply_sockets hsplit hs.handles
    rw [← ha.socket] at happly
    exact (filterMap_perm_append Owner.socket hnew).trans happly.symm
  · intro k
    have hval : (s.portsOf k).ports.val =
        ((o.port k).toList ++ (s.owners.eraseIdx i).filterMap (Owner.port k) : List Port) :=
      (hs.ports k).trans (Multiset.coe_eq_coe.mpr (filterMap_perm_append (Owner.port k) hold))
    have happly := ha.moves.apply_ports hval
    rw [← ha.port] at happly
    rw [owners_portsOf]
    exact happly.trans
      (Multiset.coe_eq_coe.mpr (filterMap_perm_append (Owner.port k) hnew).symm)
  · have hgauge := hs.gauge
    have hcount := ha.counted
    rw [countP_perm_cons Owner.counted hold] at hgauge
    change (e.apply s).socketsActive = _
    rw [Effect.apply_socketsActive, countP_perm_cons Owner.counted hnew, hgauge]
    push_cast
    omega

theorem Owned.spawn (hs : Owned s) (hsock : o.socket = none) (hport : ∀ k, o.port k = none)
    (hc : o.counted = false) : Owned { s with owners := s.owners ++ [o] } := by
  refine ⟨?_, hs.handles, hs.signals, fun k => ?_, ?_, hs.calm⟩
  · simpa [List.filterMap_append, hsock] using hs.sockets
  · rw [owners_portsOf, hs.ports k]
    simp [List.filterMap_append, hport k]
  · simpa [List.countP_append, hc] using hs.gauge

theorem Owned.init (now : Instant) (hasIpv6 : Bool) (tcpRandom udpRandom : BitVec 16) :
    Owned (State.init now hasIpv6 tcpRandom udpRandom) := by
  refine ⟨.nil, .nil, rfl, fun k => ?_, rfl, rfl⟩
  cases k <;> exact congrArg Finset.val (EphemeralPortAllocator.ports_new _)

theorem Owned.step {a : Action} (hs : Owned s) (ha : machine.step s a = some t) : Owned t := by
  cases a with
  | connect addr =>
    obtain rfl := Option.some.inj ha
    exact hs.spawn rfl (fun k => by cases k <;> rfl) rfl
  | createUdpSocket localPort =>
    obtain rfl := Option.some.inj ha
    exact hs.spawn rfl (fun k => by cases k <;> rfl) rfl
  | move i m =>
    obtain ⟨o, hi, ho⟩ := Option.bind_eq_some_iff.mp ha
    obtain ⟨⟨e, o'⟩, hn, rfl⟩ := Option.map_eq_some_iff.mp ho
    exact hs.move hi hn
  | tick d =>
    obtain rfl := Option.some.inj ha
    exact ⟨hs.sockets, hs.handles, hs.signals, hs.ports, hs.gauge, hs.calm⟩

variable {now : Instant} {hasIpv6 : Bool} {tcpRandom udpRandom : BitVec 16}

theorem owned_of_reachable
    (h : machine.Reachable (.init now hasIpv6 tcpRandom udpRandom) s) : Owned s :=
  h.invariant (.init now hasIpv6 tcpRandom udpRandom) fun _ _ _ hs ha => hs.step ha

theorem owned_of_reachable_counting :
    Owned { State.init 0 true 5#16 5#16 with
      sockets := [⟨7, .tcp, none⟩]
      signals := [7]
      owners := [.counting (.v4 1#32 443#16) 7] } :=
  owned_of_reachable (Machine.reachable_of_run
    [.connect (.v4 1#32 443#16), .move 0 (.added 7)] rfl)

/-! ### Local ports -/

def Entry.tcpLocal (e : Entry) : Option Port :=
  match e.kind with
  | .tcp => e.localPort
  | .udp => none

theorem Owner.tcpPort_of_local {p : Port} (h : o.socket.bind Entry.tcpLocal = some p) :
    o.tcpPort = some p := by
  cases o <;> first | exact h | cases h

theorem filterMap_sublist {α β : Type*} {f g : α → Option β} (l : List α)
    (h : ∀ x ∈ l, ∀ y, f x = some y → g x = some y) : (l.filterMap f).Sublist (l.filterMap g) := by
  induction l with
  | nil => exact .slnil
  | cons x l ih =>
    have htail := ih fun z hz => h z (List.mem_cons_of_mem x hz)
    cases hf : f x with
    | some y =>
      rw [List.filterMap_cons_some hf, List.filterMap_cons_some (h x List.mem_cons_self y hf)]
      exact htail.cons_cons y
    | none =>
      rw [List.filterMap_cons_none hf]
      cases hg : g x with
      | some y =>
        rw [List.filterMap_cons_some hg]
        exact htail.cons y
      | none =>
        rw [List.filterMap_cons_none hg]
        exact htail

theorem Owned.local_ports (hs : Owned s) : (s.sockets.filterMap Entry.tcpLocal).Nodup ∧
    ∀ p ∈ s.sockets.filterMap Entry.tcpLocal, p ∈ s.tcpPorts.ports := by
  have hperm := hs.sockets.filterMap Entry.tcpLocal
  rw [List.filterMap_filterMap] at hperm
  have hsub : (s.owners.filterMap fun o => o.socket.bind Entry.tcpLocal).Sublist
      (s.owners.filterMap Owner.tcpPort) :=
    filterMap_sublist s.owners fun o _ p hp => Owner.tcpPort_of_local hp
  have hports : s.tcpPorts.ports.val = (s.owners.filterMap Owner.tcpPort : Multiset Port) :=
    hs.ports .tcp
  have hnodup : (s.owners.filterMap Owner.tcpPort).Nodup := by
    rw [← Multiset.coe_nodup, ← hports]
    exact s.tcpPorts.ports.nodup
  refine ⟨hperm.nodup_iff.mp (hnodup.sublist hsub), fun p hp => ?_⟩
  rw [← Finset.mem_val, hports]
  exact hsub.subset (hperm.mem_iff.mpr hp)

/-! ### Taking everything down -/

def Owner.isDone : Owner → Bool
  | .done _ => true
  | _ => false

/-- How many sections an owner is at most away from its end, if it is cancelled or dropped as
soon as it can be. -/
def Owner.rank : Owner → ℕ
  | .adding _ => 11
  | .counting _ _ => 10
  | .guarding _ _ => 9
  | .allocating _ _ => 8
  | .connecting _ _ _ => 7
  | .checking _ _ _ _ => 6
  | .unbinding _ _ _ | .parked _ _ _ _ | .connected _ _ => 5
  | .opening _ => 8
  | .binding _ _ => 7
  | .udpAdding _ _ => 6
  | .udpCounting _ _ _ => 5
  | .udp _ _ _ => 4
  | .removing _ _ _ => 4
  | .udpRemoving _ _ _ => 3
  | .discounting _ _ _ => 2
  | .releasing _ _ _ => 1
  | .done _ => 0

theorem exists_fresh (s : State) : ∃ h, s.fresh h = true := by
  obtain ⟨h, hh⟩ := Infinite.exists_notMem_finset (s.sockets.map Entry.handle).toFinset
  exact ⟨h, fresh_iff.mpr fun hmem => hh (List.mem_toFinset.mpr hmem)⟩

theorem Owner.next_allocating_none {addr : SocketAddr} (hal : s.tcpPorts.allocate = none) :
    (allocating addr h).next s .run =
      some (.exhausted, removing h none (.failed tcpPortsExhausted)) := by
  unfold Owner.next
  simp only [hal]

theorem Owner.next_allocating_some {addr : SocketAddr} {r : Port × EphemeralPortAllocator}
    (hal : s.tcpPorts.allocate = some r) :
    (allocating addr h).next s .run = some (.allocate .tcp r.1, connecting addr h r.1) := by
  unfold Owner.next
  simp only [hal]

theorem Owner.next_opening_none {p : Port} (hp : p = 0) (hal : s.udpPorts.allocate = none) :
    (opening p).next s .run = some (.skip, done (.failed udpPortsExhausted)) := by
  unfold Owner.next
  simp only [hp, if_true, hal]

theorem Owner.next_opening_some {p : Port} {r : Port × EphemeralPortAllocator} (hp : p = 0)
    (hal : s.udpPorts.allocate = some r) :
    (opening p).next s .run = some (.allocate .udp r.1, binding r.1 true) := by
  unfold Owner.next
  simp only [hp, if_true, hal]

theorem Owner.next_opening_given {p : Port} (hp : p ≠ 0) :
    (opening p).next s .run = some (.skip, binding p false) := by
  unfold Owner.next
  simp only [hp, if_false]

theorem Owner.exists_next (s : State) (hd : o.isDone = false) :
    ∃ m e o', o.next s m = some (e, o') ∧ o'.rank < o.rank := by
  obtain ⟨h', hfresh⟩ := exists_fresh s
  cases o with
  | adding addr => exact ⟨.added h', _, _, if_pos hfresh, by simp [Owner.rank]⟩
  | counting addr h => exact ⟨.run, _, _, rfl, by simp [Owner.rank]⟩
  | guarding addr h => exact ⟨.run, _, _, rfl, by simp [Owner.rank]⟩
  | allocating addr h =>
    cases hal : s.tcpPorts.allocate with
    | none => exact ⟨.run, _, _, next_allocating_none hal, by simp [Owner.rank]⟩
    | some r => exact ⟨.run, _, _, next_allocating_some hal, by simp [Owner.rank]⟩
  | connecting addr h p =>
    by_cases hv : (addr.isIpv6 && !s.hasIpv6) = true
    · exact ⟨.answered (.ok ()), _, _, if_pos hv, by simp [Owner.rank]⟩
    · exact ⟨.answered (.ok ()), _, _, if_neg hv, by simp [Owner.rank]⟩
  | unbinding h p e => exact ⟨.run, _, _, rfl, by simp [Owner.rank]⟩
  | checking addr h p deadline =>
    exact ⟨.observed .closed, _, _, rfl, by simp [Owner.rank]⟩
  | parked addr h p deadline => exact ⟨.cancelled, _, _, rfl, by simp [Owner.rank]⟩
  | connected h p => exact ⟨.dropped, _, _, rfl, by simp [Owner.rank]⟩
  | opening localPort =>
    by_cases hzero : localPort = 0
    · cases hal : s.udpPorts.allocate with
      | none => exact ⟨.run, _, _, next_opening_none hzero hal, by simp [Owner.rank]⟩
      | some r => exact ⟨.run, _, _, next_opening_some hzero hal, by simp [Owner.rank]⟩
    · exact ⟨.run, _, _, next_opening_given hzero, by simp [Owner.rank]⟩
  | binding p allocated => exact ⟨.answered (.ok ()), _, _, rfl, by simp [Owner.rank]⟩
  | udpAdding p allocated => exact ⟨.added h', _, _, if_pos hfresh, by simp [Owner.rank]⟩
  | udpCounting h p allocated => exact ⟨.run, _, _, rfl, by simp [Owner.rank]⟩
  | udp h p allocated => exact ⟨.dropped, _, _, rfl, by simp [Owner.rank]⟩
  | removing h p out => exact ⟨.run, _, _, rfl, by simp [Owner.rank]⟩
  | udpRemoving h p allocated => exact ⟨.run, _, _, rfl, by simp [Owner.rank]⟩
  | discounting k held out => exact ⟨.run, _, _, rfl, by simp [Owner.rank]⟩
  | releasing k held out =>
    cases held with
    | none => exact ⟨.run, _, _, rfl, by simp [Owner.rank]⟩
    | some p => exact ⟨.run, _, _, rfl, by simp [Owner.rank]⟩
  | done out => cases hd

def State.rank (s : State) : ℕ := (s.owners.map Owner.rank).sum

theorem rank_move (hi : s.owners[i]? = some o) (hlt : o'.rank < o.rank) :
    State.rank { e.apply s with owners := s.owners.set i o' } < s.rank := by
  have hold := ((perm_cons_eraseIdx hi).map Owner.rank).sum_eq
  have hnew := ((perm_cons_set (y := o') hi).map Owner.rank).sum_eq
  rw [List.map_cons, List.sum_cons] at hold hnew
  simp only [State.rank]
  omega

theorem step_move (hi : s.owners[i]? = some o) (hn : o.next s m = some (e, o')) :
    machine.step s (.move i m) = some { e.apply s with owners := s.owners.set i o' } := by
  change (s.owners[i]?.bind fun o => (o.next s m).map _) = _
  rw [hi, Option.bind_some, hn, Option.map_some]

def Action.isMove : Action → Prop
  | .move _ _ => True
  | _ => False

def State.AllDone (s : State) : Prop := ∀ o ∈ s.owners, o.isDone = true

theorem exists_move (hs : Owned s) (hd : ¬ s.AllDone) :
    ∃ a t, a.isMove ∧ machine.step s a = some t ∧ Owned t ∧ t.rank < s.rank := by
  simp only [State.AllDone, not_forall] at hd
  obtain ⟨o, ho, hnot⟩ := hd
  obtain ⟨i, hi⟩ := List.getElem?_of_mem ho
  obtain ⟨m, e, o', hn, hlt⟩ := o.exists_next s (Bool.eq_false_iff.mpr hnot)
  have hstep := step_move hi hn
  exact ⟨.move i m, _, trivial, hstep, hs.step hstep, rank_move hi hlt⟩

theorem Owner.of_isDone (h : o.isDone = true) :
    o.socket = none ∧ (∀ k, o.port k = none) ∧ o.counted = false := by
  cases o with
  | done out => exact ⟨rfl, fun k => by cases k <;> rfl, rfl⟩
  | _ => cases h

structure Empty (s : State) : Prop where
  sockets : s.sockets = []
  signals : s.signals = []
  ports : ∀ k, (s.portsOf k).ports = ∅
  gauge : s.socketsActive = 0

theorem Owned.empty (hs : Owned s) (hd : s.AllDone) : Empty s := by
  have hsockets : s.sockets = [] := by
    have hnil : s.owners.filterMap Owner.socket = [] :=
      List.filterMap_eq_nil_iff.mpr fun o ho => (Owner.of_isDone (hd o ho)).1
    exact List.Perm.nil_eq (hnil ▸ hs.sockets) |>.symm
  refine ⟨hsockets, by rw [hs.signals, hsockets]; rfl, fun k => ?_, ?_⟩
  · have hnil : s.owners.filterMap (Owner.port k) = [] :=
      List.filterMap_eq_nil_iff.mpr fun o ho => (Owner.of_isDone (hd o ho)).2.1 k
    rw [← Finset.val_eq_zero, hs.ports k, hnil]
    rfl
  · have hzero : s.owners.countP Owner.counted = 0 :=
      List.countP_eq_zero.mpr fun o ho => by rw [(Owner.of_isDone (hd o ho)).2.2]; decide
    rw [hs.gauge, hzero]
    rfl

/-- Whatever is under way can be cancelled and dropped; nothing is left once all owners are
done. -/
theorem everything_comes_down (h : machine.Reachable (.init now hasIpv6 tcpRandom udpRandom) s) :
    (∃ t, machine.Path Action.isMove s t ∧ t.AllDone ∧ Empty t) ∧ (s.AllDone → Empty s) := by
  have hs : Owned s := h.invariant (.init _ _ _ _) fun _ _ _ hs ha => hs.step ha
  obtain ⟨t, hpath, ht, hd⟩ := Machine.exists_path_of_rank (G := State.AllDone) State.rank
    (fun s hs hd => exists_move hs hd) hs
  exact ⟨⟨t, hpath, hd, ht.empty hd⟩, hs.empty⟩

theorem everything_comes_down_connecting :
    let s := { State.init 0 true 5#16 5#16 with
      sockets := [⟨8, .udp, some 53#16⟩, ⟨7, .tcp, none⟩]
      signals := [8, 7]
      socketsActive := 1
      owners := [.counting (.v4 1#32 443#16) 7, .udp 8 53#16 false] }
    (∃ t, machine.Path Action.isMove s t ∧ t.AllDone ∧ Empty t) ∧ (s.AllDone → Empty s) :=
  everything_comes_down (Machine.reachable_of_run
    [.connect (.v4 1#32 443#16), .createUdpSocket 53#16, .move 0 (.added 7), .move 1 .run,
      .move 1 (.answered (.ok ())), .move 1 (.added 8), .move 1 .run] rfl)

theorem local_ports_distinct (h : machine.Reachable (.init now hasIpv6 tcpRandom udpRandom) s) :
    (s.sockets.filterMap Entry.tcpLocal).Nodup ∧
      ∀ p ∈ s.sockets.filterMap Entry.tcpLocal, p ∈ s.tcpPorts.ports :=
  Owned.local_ports (h.invariant (.init _ _ _ _) fun _ _ _ hs ha => hs.step ha)

theorem exists_checking (addr : SocketAddr) (hasIpv6 : Bool)
    (hv : (addr.isIpv6 && !hasIpv6) = false) :
    ∃ s p, machine.Reachable (.init 0 hasIpv6 5#16 5#16) s ∧ s.sockets = [⟨7, .tcp, some p⟩] := by
  have hguarded : machine.Reachable (.init 0 hasIpv6 5#16 5#16)
      { State.init 0 hasIpv6 5#16 5#16 with
        sockets := [⟨7, .tcp, none⟩]
        signals := [7]
        socketsActive := 1
        owners := [.allocating addr 7] } :=
    Machine.reachable_of_run [.connect addr, .move 0 (.added 7), .move 0 .run, .move 0 .run] rfl
  have hallocated := hguarded.next (step_move (i := 0) rfl
    (Owner.next_allocating_some (EphemeralPortAllocator.allocate_new 5#16)))
  have hconnected := hallocated.next (step_move (i := 0) (m := .answered (.ok ())) rfl
    (if_neg (by rw [Bool.not_eq_true]; exact hv)))
  exact ⟨_, _, hconnected, rfl⟩

theorem local_ports_distinct_checking :
    ∃ (s : State) (p : Port), s.sockets = [⟨7, .tcp, some p⟩] ∧
    (s.sockets.filterMap Entry.tcpLocal).Nodup ∧
      ∀ p ∈ s.sockets.filterMap Entry.tcpLocal, p ∈ s.tcpPorts.ports := by
  obtain ⟨s, p, hs, hsockets⟩ := exists_checking (.v4 1#32 443#16) true rfl
  exact ⟨s, p, hsockets, local_ports_distinct hs⟩

end

end WarpRust.Netstack
