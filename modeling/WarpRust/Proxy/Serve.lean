import WarpRust.Library.RateGate
import WarpRust.Proxy.Handle
import WarpRust.Proxy.MemoryBudget

/-!
# The listener

`serve` with all its connections at once. A connection is a task that holds a permit until it
ends; it moves between two awaits of `handle`, its dial is a `StaggeredDial` state and its
association a `UdpRelay` state. The shutdown of the listener may end a task at any await.
-/

namespace WarpRust.Proxy.Serve
open Library

variable {C : Type}

def rejectionLogInterval : Duration := .fromSecs 1
def dialLogInterval : Duration := .fromSecs 2
def acceptBackoff : Duration := .fromMillis 100
def relayDrainGrace : Duration := .fromSecs 2

def fetchAdd (n : ℕ) : ℕ := (n + 1) % 2 ^ 64

inductive Stage (C : Type) where
  | handshaking (deadline : Instant)
  -- an error reply is being written: without a dial permit, or with one
  | refusing (reply : ReplyError)
  | resolving (target : TargetAddr)
  | dialing (q : StaggeredDial.Params) (started : Instant) (d : StaggeredDial.State C)
  | failing (reply : ReplyError)
  | replying (addr : SocketAddr) (c : C)
  | relaying (c : C)
  | udpOpening
  | udpRelaying (r : UdpRelay.State)
  | udpDraining (r : UdpRelay.State) (deadline : Instant)
  | ended

structure Conn (C : Type) where
  peer : SocketAddr
  stage : Stage C

namespace Conn

def live (x : Conn C) : Bool :=
  match x.stage with
  | .ended => false
  | _ => true

def holdsDialPermit (x : Conn C) : Bool :=
  match x.stage with
  | .resolving _ | .dialing _ _ _ | .failing _ => true
  | _ => false

def activeUdp (x : Conn C) : Bool :=
  match x.stage with
  | .udpRelaying _ | .udpDraining _ _ => true
  | _ => false

def tick (d : Duration) (x : Conn C) : Conn C :=
  match x.stage with
  | .dialing q started s => { x with stage := .dialing q started { s with now := s.now + d } }
  | _ => x

end Conn

inductive Loop where
  | listening
  | backingOff (deadline : Instant)
  | stopping
  | stopped
  deriving DecidableEq

structure State (C : Type) where
  now : Instant
  cancelled : Bool
  healthy : Bool
  loop : Loop
  permits : ℕ
  dialPermits : ℕ
  conns : List (Conn C)
  metrics : Metric → ℕ
  logSuppressed : ℕ
  udpAssociatesActive : ℤ
  rejectLog : Ledger
  dialLog : Ledger
  egress : List Bool

inductive Move (C : Type) where
  | handshakeTimeout
  | handshakeFailed
  | command (c : Socks5Command) (target : TargetAddr)
  | resolved (candidates : Except Error (List SocketAddr)) (hasIpv6 : Bool)
  | dial (a : StaggeredDial.Action C)
  | dialed
  | replied (ok : Bool)
  | relayed (r : Except Error (ℕ × ℕ))
  | udpOpened
  | udpBindFailed
  | udpFailed
  | udp (a : UdpRelay.Action)
  | udpEnded
  | udpClosing (controlClosed : Bool)
  | udpGraceOver
  | abort

inductive Action (C : Type) where
  | tick (d : Duration)
  | health (healthy : Bool)
  | cancel
  | accept (peer : SocketAddr)
  | acceptFailed
  | backoffOver
  | stop
  | stopped
  | move (i : ℕ) (m : Move C)

namespace State

def init (l : LimitsConfig) (now : Instant) : State C where
  now := now
  cancelled := false
  healthy := false
  loop := .listening
  permits := l.maxConcurrentConnections
  dialPermits := l.maxPendingDials
  conns := []
  metrics := fun _ => 0
  logSuppressed := 0
  udpAssociatesActive := 0
  rejectLog := .new
  dialLog := .new
  egress := []

def count (s : State C) (m : Metric) (n : ℕ) : State C :=
  { s with metrics := Function.update s.metrics m (s.metrics m + n) }

def put (s : State C) (i : ℕ) (x : Conn C) (stage : Stage C) : State C :=
  { s with conns := s.conns.set i { x with stage := stage } }

def finish (s : State C) (i : ℕ) (x : Conn C) : State C :=
  { s.put i x .ended with
    permits := s.permits + 1
    dialPermits := s.dialPermits + x.holdsDialPermit.toNat
    udpAssociatesActive := s.udpAssociatesActive - x.activeUdp.toNat }

def reject (s : State C) : State C :=
  let passed := (s.rejectLog.toRateGate.call rejectionLogInterval fetchAdd s.now s.now).1.isSome
  { s.count .connsRejected 1 with
    rejectLog := s.rejectLog.call rejectionLogInterval fetchAdd s.now s.now
    logSuppressed := if passed then s.logSuppressed else s.logSuppressed + 1 }

def accept (l : LimitsConfig) (s : State C) (peer : SocketAddr) : State C :=
  if s.permits = 0 then s.reject
  else
    { s with
      permits := s.permits - 1
      conns := s.conns ++ [⟨peer, .handshaking (s.now + l.handshakeTimeout)⟩] }

def refuse (s : State C) (i : ℕ) (x : Conn C) (m : Metric) : State C :=
  ((s.count .connsRejected 1).count m 1).put i x (.refusing .generalFailure)

def command (s : State C) (i : ℕ) (x : Conn C) (target : TargetAddr) : Socks5Command → State C
  | .tcpConnect =>
    if !s.healthy then s.refuse i x .connsRejectedUnhealthy
    else if s.dialPermits = 0 then s.refuse i x .connsRejectedDialPressure
    else { s.put i x (.resolving target) with dialPermits := s.dialPermits - 1 }
  | .udpAssociate =>
    if !s.healthy then s.refuse i x .connsRejectedUnhealthy else s.put i x .udpOpening
  | .tcpBind => s.put i x (.refusing .commandNotSupported)

/-- `happy_eyeballs_dial` has failed. The static gate of `log_dial_failure` is made at its first
call, with a last line two seconds before. -/
def failDial (s : State C) (i : ℕ) (x : Conn C) (e : Error) : State C :=
  { s.put i x (.failing (dialReply e)) with
    egress := s.egress ++ records (dialEffects (.error e : StaggeredDial.Answer C))
    dialLog := s.dialLog.call dialLogInterval (saturatingAdd 1) s.now s.now }

def resolved (l : LimitsConfig) (s : State C) (i : ℕ) (x : Conn C) (hasIpv6 : Bool) :
    Except Error (List SocketAddr) → State C
  | .error _ => s.put i x (.failing .hostUnreachable)
  | .ok candidates =>
    match dialParams hasIpv6 l candidates with
    | .error e => s.failDial i x e
    | .ok q => s.put i x (.dialing q s.now (.init q s.now))

def dialed (s : State C) (i : ℕ) (x : Conn C) : StaggeredDial.Answer C → State C
  | .error e => s.failDial i x e
  | .ok (addr, c) =>
    { s.put i x (.replying addr c) with
      egress := s.egress ++ records (dialEffects (.ok (addr, c) : StaggeredDial.Answer C))
      dialPermits := s.dialPermits + 1 }

def relayed (s : State C) (i : ℕ) (x : Conn C) : Except Error (ℕ × ℕ) → State C
  | .error _ => s.finish i x
  | .ok (up, down) =>
    (((s.count .bytesUp up).count .bytesDown down).count .connsClosed 1).finish i x

def move (l : LimitsConfig) (s : State C) (i : ℕ) (x : Conn C) : Move C → Option (State C)
  | .handshakeTimeout =>
    match x.stage with
    | .handshaking deadline =>
      if deadline ≤ s.now then some ((s.count .handshakeTimeout 1).finish i x) else none
    | _ => none
  | .handshakeFailed =>
    match x.stage with
    | .handshaking _ => some (s.finish i x)
    | _ => none
  | .command c target =>
    match x.stage with
    | .handshaking _ => some (s.command i x target c)
    | _ => none
  | .resolved candidates hasIpv6 =>
    match x.stage with
    | .resolving _ => some (s.resolved l i x hasIpv6 candidates)
    | _ => none
  -- time passes for all dials at once
  | .dial (.tick _) => none
  | .dial a =>
    match x.stage with
    | .dialing q started d =>
      (StaggeredDial.step q d a).map fun d' => s.put i x (.dialing q started d')
    | _ => none
  | .dialed =>
    match x.stage with
    | .dialing _ _ d =>
      match d.phase with
      | .returned r => some (s.dialed i x r)
      | _ => none
    | _ => none
  | .replied ok =>
    match x.stage with
    | .refusing _ | .failing _ => some (s.finish i x)
    | .replying _ c =>
      if ok then some ((s.count .connsOpened 1).put i x (.relaying c)) else some (s.finish i x)
    | _ => none
  | .relayed r =>
    match x.stage with
    | .relaying _ => some (s.relayed i x r)
    | _ => none
  | .udpOpened =>
    match x.stage with
    | .udpOpening =>
      some { s.put i x (.udpRelaying .init) with udpAssociatesActive := s.udpAssociatesActive + 1 }
    | _ => none
  | .udpBindFailed =>
    match x.stage with
    | .udpOpening => some (s.put i x (.refusing .generalFailure))
    | _ => none
  | .udpFailed =>
    match x.stage with
    | .udpOpening => some (s.finish i x)
    | _ => none
  | .udp a =>
    match x.stage with
    | .udpRelaying r =>
      (UdpRelay.step x.peer.ip r a).map fun r' => s.put i x (.udpRelaying r')
    | .udpDraining r deadline =>
      (UdpRelay.step x.peer.ip r a).map fun r' => s.put i x (.udpDraining r' deadline)
    | _ => none
  | .udpEnded =>
    match x.stage with
    | .udpRelaying _ | .udpDraining _ _ => some (s.finish i x)
    | _ => none
  | .udpClosing controlClosed =>
    match x.stage with
    | .udpRelaying r =>
      if controlClosed ∨ s.cancelled then
        some (s.put i x (.udpDraining r (s.now + relayDrainGrace)))
      else none
    | _ => none
  | .udpGraceOver =>
    match x.stage with
    | .udpDraining _ deadline => if deadline ≤ s.now then some (s.finish i x) else none
    | _ => none
  -- `connections.shutdown()`
  | .abort =>
    match s.loop, x.stage with
    | .stopping, .ended => none
    | .stopping, _ => some (s.finish i x)
    | _, _ => none

def step (l : LimitsConfig) (s : State C) : Action C → Option (State C)
  | .tick d => some { s with now := s.now + d, conns := s.conns.map (Conn.tick d) }
  | .health healthy => some { s with healthy := healthy }
  | .cancel => some { s with cancelled := true }
  -- the select is biased: a cancelled listener does not accept
  | .accept peer =>
    match s.loop with
    | .listening => if s.cancelled then none else some (s.accept l peer)
    | _ => none
  | .acceptFailed =>
    match s.loop with
    | .listening =>
      if s.cancelled then none else some { s with loop := .backingOff (s.now + acceptBackoff) }
    | _ => none
  | .backoffOver =>
    match s.loop with
    | .backingOff deadline => if deadline ≤ s.now then some { s with loop := .listening } else none
    | _ => none
  | .stop =>
    match s.loop with
    | .listening | .backingOff _ => if s.cancelled then some { s with loop := .stopping } else none
    | _ => none
  | .stopped =>
    match s.loop with
    | .stopping =>
      if ∀ x ∈ s.conns, x.live = false then some { s with loop := .stopped } else none
    | _ => none
  | .move i m => s.conns[i]?.bind fun x => s.move l i x m

end State

def machine (C : Type) (l : LimitsConfig) : Machine (State C) (Action C) := ⟨State.step l⟩

/-! ### What a move does -/

def Conn.Sound (l : LimitsConfig) (x : Conn C) : Prop :=
  match x.stage with
  | .dialing q started d =>
    q.maxParallel = l.maxParallelDials ∧ (StaggeredDial.machine C q).Reachable (.init q started) d
  | .udpRelaying r | .udpDraining r _ => (UdpRelay.machine x.peer.ip).Reachable .init r
  | _ => True

def Balanced (f g : Metric → ℕ) : Prop :=
  g .connsRejected + f .connsRejectedUnhealthy + f .connsRejectedDialPressure =
    f .connsRejected + g .connsRejectedUnhealthy + g .connsRejectedDialPressure

/-- The connection `x` at `i` becomes `x'`, and every resource goes with it. -/
structure Moved (l : LimitsConfig) (s : State C) (i : ℕ) (x x' : Conn C) (t : State C) : Prop where
  now : t.now = s.now
  cancelled : t.cancelled = s.cancelled
  loop : t.loop = s.loop
  conns : t.conns = s.conns.set i x'
  permits : t.permits + x'.live.toNat = s.permits + x.live.toNat
  dialPermits : t.dialPermits + x'.holdsDialPermit.toNat = s.dialPermits + x.holdsDialPermit.toNat
  active : t.udpAssociatesActive + x.activeUdp.toNat = s.udpAssociatesActive + x'.activeUdp.toNat
  balanced : Balanced s.metrics t.metrics
  rejectLog : t.rejectLog = s.rejectLog
  logSuppressed : t.logSuppressed = s.logSuppressed
  dialLog : t.dialLog = s.dialLog ∨
    t.dialLog = s.dialLog.call dialLogInterval (saturatingAdd 1) s.now s.now
  sound : x.Sound l → x'.Sound l

variable {l : LimitsConfig} {s t : State C} {i : ℕ} {x : Conn C} {m : Move C} {f : Metric → ℕ}

theorem Balanced.refl (f : Metric → ℕ) : Balanced f f := rfl

theorem balanced_count (s : State C) {m : Metric} (n : ℕ) (h : m ≠ .connsRejected)
    (hu : m ≠ .connsRejectedUnhealthy) (hd : m ≠ .connsRejectedDialPressure) :
    Balanced s.metrics (s.count m n).metrics := by
  simp [Balanced, State.count, h.symm, hu.symm, hd.symm]

theorem finish_moved (hf : Balanced s.metrics f) (hlive : x.live = true) :
    Moved l s i x { x with stage := .ended } ({ s with metrics := f }.finish i x) where
  now := rfl
  cancelled := rfl
  loop := rfl
  conns := rfl
  permits := by rw [hlive]; rfl
  dialPermits := rfl
  active := by simp [State.finish, Conn.activeUdp]
  balanced := hf
  rejectLog := rfl
  logSuppressed := rfl
  dialLog := .inl rfl
  sound _ := trivial

theorem put_moved {stage : Stage C} (hf : Balanced s.metrics f)
    (hlive : ({ x with stage := stage } : Conn C).live = x.live)
    (hdial : ({ x with stage := stage } : Conn C).holdsDialPermit = x.holdsDialPermit)
    (hactive : ({ x with stage := stage } : Conn C).activeUdp = x.activeUdp)
    (hsound : x.Sound l → ({ x with stage := stage } : Conn C).Sound l) :
    Moved l s i x { x with stage := stage } ({ s with metrics := f }.put i x stage) where
  now := rfl
  cancelled := rfl
  loop := rfl
  conns := rfl
  permits := by rw [hlive]; rfl
  dialPermits := by rw [hdial]; rfl
  active := by rw [hactive]; rfl
  balanced := hf
  rejectLog := rfl
  logSuppressed := rfl
  dialLog := .inl rfl
  sound := hsound

section
attribute [local simp] Conn.live Conn.holdsDialPermit Conn.activeUdp State.move

theorem refuse_moved {m : Metric} {deadline : Instant} (hp : x.stage = .handshaking deadline)
    (hm : m = .connsRejectedUnhealthy ∨ m = .connsRejectedDialPressure) :
    Moved l s i x { x with stage := .refusing .generalFailure } (s.refuse i x m) := by
  refine put_moved ?_ ?_ ?_ ?_ fun _ => trivial
  · rcases hm with rfl | rfl <;> simp [Balanced, State.count] <;> omega
  all_goals simp [hp]

theorem command_moved {deadline : Instant} (hp : x.stage = .handshaking deadline)
    (target : TargetAddr)
    (c : Socks5Command) : ∃ x', Moved l s i x x' (s.command i x target c) := by
  cases c with
  | tcpBind =>
    refine ⟨_, put_moved (.refl _) ?_ ?_ ?_ fun _ => trivial⟩
    all_goals simp [hp]
  | udpAssociate =>
    rw [State.command]
    split
    · exact ⟨_, refuse_moved hp (.inl rfl)⟩
    · refine ⟨_, put_moved (.refl _) ?_ ?_ ?_ fun _ => trivial⟩
      all_goals simp [hp]
  | tcpConnect =>
    rw [State.command]
    split
    · exact ⟨_, refuse_moved hp (.inl rfl)⟩
    · split
      · exact ⟨_, refuse_moved hp (.inr rfl)⟩
      · next hpermits =>
        refine ⟨{ x with stage := .resolving target }, ?_⟩
        have hdial : s.dialPermits - 1 + 1 = s.dialPermits := Nat.succ_pred hpermits
        constructor
        case dialPermits => simpa [hp] using hdial
        case dialLog => exact .inl rfl
        case sound => exact fun _ => trivial
        all_goals simp [State.put, hp, Balanced]

theorem failDial_moved (hlive : x.live = true) (hdial : x.holdsDialPermit = true)
    (hactive : x.activeUdp = false) (e : Error) :
    Moved l s i x { x with stage := .failing (dialReply e) } (s.failDial i x e) := by
  constructor
  case dialLog => exact .inr rfl
  case sound => exact fun _ => trivial
  case permits => rw [hlive]; rfl
  case dialPermits => rw [hdial]; rfl
  case active => rw [hactive]; rfl
  all_goals rfl

theorem dialParams_maxParallel {hasIpv6 : Bool} {candidates : List SocketAddr}
    {q : StaggeredDial.Params}
    (h : dialParams hasIpv6 l candidates = .ok q) : q.maxParallel = l.maxParallelDials := by
  unfold dialParams at h
  dsimp only at h
  split_ifs at h <;> cases h
  all_goals rfl

theorem resolved_moved {target : TargetAddr} (hp : x.stage = .resolving target) (hasIpv6 : Bool)
    (r : Except Error (List SocketAddr)) : ∃ x', Moved l s i x x' (s.resolved l i x hasIpv6 r) := by
  cases r with
  | error e =>
    refine ⟨_, put_moved (.refl _) ?_ ?_ ?_ fun _ => trivial⟩
    all_goals simp [hp]
  | ok candidates =>
    rw [State.resolved]
    split
    · refine ⟨_, failDial_moved ?_ ?_ ?_ _⟩
      all_goals simp [hp]
    · next q hq =>
      refine ⟨_, put_moved (.refl _) ?_ ?_ ?_ fun _ => ⟨?_, .refl _⟩⟩
      case refine_4 => exact dialParams_maxParallel hq
      all_goals simp [hp]

theorem dialed_moved {q : StaggeredDial.Params} {started : Instant} {d : StaggeredDial.State C}
    (hp : x.stage = .dialing q started d) (r : StaggeredDial.Answer C) :
    ∃ x', Moved l s i x x' (s.dialed i x r) := by
  cases r with
  | error e =>
    refine ⟨_, failDial_moved ?_ ?_ ?_ e⟩
    all_goals simp [hp]
  | ok won =>
    obtain ⟨addr, c⟩ := won
    refine ⟨{ x with stage := .replying addr c }, ?_⟩
    constructor
    case dialLog => exact .inl rfl
    case sound => exact fun _ => trivial
    all_goals simp [State.dialed, State.put, hp, Balanced]

theorem relayed_moved (hlive : x.live = true) (r : Except Error (ℕ × ℕ)) :
    ∃ x', Moved l s i x x' (s.relayed i x r) := by
  cases r with
  | error e => exact ⟨_, finish_moved (.refl _) hlive⟩
  | ok bytes =>
    refine ⟨_, finish_moved ?_ hlive⟩
    simp [Balanced, State.count]

theorem dial_moved {q : StaggeredDial.Params} {started : Instant} {d d' : StaggeredDial.State C}
    {a : StaggeredDial.Action C} (hp : x.stage = .dialing q started d)
    (ha : StaggeredDial.step q d a = some d') :
    Moved l s i x { x with stage := .dialing q started d' }
      (s.put i x (.dialing q started d')) := by
  refine put_moved (.refl _) ?_ ?_ ?_ fun h => ?_
  case refine_4 =>
    rw [Conn.Sound, hp] at h
    exact ⟨h.1, h.2.next ha⟩
  all_goals simp [hp]

theorem udp_moved {stage : UdpRelay.State → Stage C} {r r' : UdpRelay.State} {a : UdpRelay.Action}
    (hstage : stage = .udpRelaying ∨ ∃ deadline, stage = fun r => .udpDraining r deadline)
    (hp : x.stage = stage r) (ha : UdpRelay.step x.peer.ip r a = some r') :
    Moved l s i x { x with stage := stage r' } (s.put i x (stage r')) := by
  rcases hstage with rfl | ⟨deadline, rfl⟩
  · refine put_moved (.refl _) ?_ ?_ ?_ fun h => ?_
    case refine_4 =>
      rw [Conn.Sound, hp] at h
      exact h.next ha
    all_goals simp [hp]
  · refine put_moved (.refl _) ?_ ?_ ?_ fun h => ?_
    case refine_4 =>
      rw [Conn.Sound, hp] at h
      exact h.next ha
    all_goals simp [hp]

theorem live_of_stage {stage : Stage C} (hp : x.stage = stage) (h : stage ≠ .ended) :
    x.live = true := by
  unfold Conn.live
  rw [hp]
  cases stage with
  | ended => exact absurd rfl h
  | _ => rfl

theorem move_dial {a : StaggeredDial.Action C} (h : s.move l i x (.dial a) = some t) :
    ∃ q started d d', x.stage = .dialing q started d ∧ StaggeredDial.step q d a = some d' ∧
      s.put i x (.dialing q started d') = t := by
  cases a with
  | tick d => cases h
  | _ =>
    simp only [State.move] at h
    split at h
    · next q started d hp =>
      obtain ⟨d', ha, ht⟩ := Option.map_eq_some_iff.mp h
      exact ⟨q, started, d, d', hp, ha, ht⟩
    · cases h

theorem ended_moved {stage : Stage C} (hp : x.stage = stage) (h : stage ≠ .ended) :
    x.live = true ∧ ∃ x', Moved l s i x x' (s.finish i x) := by
  have hlive := live_of_stage hp h
  exact ⟨hlive, _, finish_moved (.refl _) hlive⟩

theorem move_handshakeTimeout (h : s.move l i x .handshakeTimeout = some t) :
    x.live = true ∧ ∃ x', Moved l s i x x' t := by
  simp only [State.move] at h
  split at h
  · next deadline hp =>
    obtain ⟨_, rfl⟩ := of_guarded h
    have hlive := live_of_stage hp nofun
    exact ⟨hlive, _, finish_moved (balanced_count s 1 nofun nofun nofun) hlive⟩
  · cases h

theorem move_handshakeFailed (h : s.move l i x .handshakeFailed = some t) :
    x.live = true ∧ ∃ x', Moved l s i x x' t := by
  simp only [State.move] at h
  split at h <;> cases h
  next deadline hp => exact ended_moved hp nofun

theorem move_command {c : Socks5Command} {target : TargetAddr}
    (h : s.move l i x (.command c target) = some t) :
    x.live = true ∧ ∃ x', Moved l s i x x' t := by
  simp only [State.move] at h
  split at h <;> cases h
  next deadline hp => exact ⟨live_of_stage hp nofun, command_moved hp target c⟩

theorem move_resolved {candidates : Except Error (List SocketAddr)} {hasIpv6 : Bool}
    (h : s.move l i x (.resolved candidates hasIpv6) = some t) :
    x.live = true ∧ ∃ x', Moved l s i x x' t := by
  simp only [State.move] at h
  split at h <;> cases h
  next target hp => exact ⟨live_of_stage hp nofun, resolved_moved hp hasIpv6 candidates⟩

theorem move_dialed (h : s.move l i x .dialed = some t) :
    x.live = true ∧ ∃ x', Moved l s i x x' t := by
  simp only [State.move] at h
  split at h
  · next q started d hp =>
    split at h <;> cases h
    exact ⟨live_of_stage hp nofun, dialed_moved hp _⟩
  · cases h

theorem move_replied {ok : Bool} (h : s.move l i x (.replied ok) = some t) :
    x.live = true ∧ ∃ x', Moved l s i x x' t := by
  simp only [State.move] at h
  split at h
  · next hp =>
    cases h
    exact ended_moved hp nofun
  · next hp =>
    cases h
    exact ended_moved hp nofun
  · next hp =>
    have hlive := live_of_stage hp nofun
    split at h <;> cases h
    · refine ⟨hlive, _, put_moved
        (balanced_count s 1 nofun nofun nofun) ?_ ?_ ?_ fun _ => trivial⟩
      all_goals simp [hp]
    · exact ⟨hlive, _, finish_moved (.refl _) hlive⟩
  · cases h

theorem move_relayed {r : Except Error (ℕ × ℕ)} (h : s.move l i x (.relayed r) = some t) :
    x.live = true ∧ ∃ x', Moved l s i x x' t := by
  simp only [State.move] at h
  split at h <;> cases h
  next c hp => exact ⟨live_of_stage hp nofun, relayed_moved (live_of_stage hp nofun) r⟩

theorem move_udpOpened (h : s.move l i x .udpOpened = some t) :
    x.live = true ∧ ∃ x', Moved l s i x x' t := by
  simp only [State.move] at h
  split at h <;> cases h
  next hp =>
    refine ⟨live_of_stage hp nofun, { x with stage := .udpRelaying .init }, ?_⟩
    constructor
    case dialLog => exact .inl rfl
    case sound => exact fun _ => .refl _
    all_goals simp [State.put, hp, Balanced]

theorem move_udpBindFailed (h : s.move l i x .udpBindFailed = some t) :
    x.live = true ∧ ∃ x', Moved l s i x x' t := by
  simp only [State.move] at h
  split at h <;> cases h
  next hp =>
    refine ⟨live_of_stage hp nofun, _, put_moved (.refl _) ?_ ?_ ?_ fun _ => trivial⟩
    all_goals simp [hp]

theorem move_udpFailed (h : s.move l i x .udpFailed = some t) :
    x.live = true ∧ ∃ x', Moved l s i x x' t := by
  simp only [State.move] at h
  split at h <;> cases h
  next hp => exact ended_moved hp nofun

theorem move_udp {a : UdpRelay.Action} (h : s.move l i x (.udp a) = some t) :
    x.live = true ∧ ∃ x', Moved l s i x x' t := by
  simp only [State.move] at h
  split at h
  · next r hp =>
    obtain ⟨r', ha, rfl⟩ := Option.map_eq_some_iff.mp h
    exact ⟨live_of_stage hp nofun, _, udp_moved (.inl rfl) hp ha⟩
  · next r deadline hp =>
    obtain ⟨r', ha, rfl⟩ := Option.map_eq_some_iff.mp h
    exact ⟨live_of_stage hp nofun, _, udp_moved (.inr ⟨deadline, rfl⟩) hp ha⟩
  · cases h

theorem move_udpEnded (h : s.move l i x .udpEnded = some t) :
    x.live = true ∧ ∃ x', Moved l s i x x' t := by
  simp only [State.move] at h
  split at h <;> cases h
  all_goals
    next hp => exact ended_moved hp nofun

theorem move_udpClosing {controlClosed : Bool}
    (h : s.move l i x (.udpClosing controlClosed) = some t) :
    x.live = true ∧ ∃ x', Moved l s i x x' t := by
  simp only [State.move] at h
  split at h
  · next r hp =>
    obtain ⟨_, rfl⟩ := of_guarded h
    refine ⟨live_of_stage hp nofun, _, put_moved (.refl _) ?_ ?_ ?_ fun hs => ?_⟩
    case refine_4 =>
      rw [Conn.Sound, hp] at hs
      exact hs
    all_goals simp [hp]
  · cases h

theorem move_udpGraceOver (h : s.move l i x .udpGraceOver = some t) :
    x.live = true ∧ ∃ x', Moved l s i x x' t := by
  simp only [State.move] at h
  split at h
  · next r deadline hp =>
    obtain ⟨_, rfl⟩ := of_guarded h
    exact ended_moved hp nofun
  · cases h

theorem move_abort (h : s.move l i x .abort = some t) :
    x.live = true ∧ ∃ x', Moved l s i x x' t := by
  simp only [State.move] at h
  split at h
  · cases h
  · next hp =>
    cases h
    exact ended_moved rfl hp
  · cases h

theorem move_moved (h : s.move l i x m = some t) : x.live = true ∧ ∃ x', Moved l s i x x' t := by
  cases m with
  | handshakeTimeout => exact move_handshakeTimeout h
  | handshakeFailed => exact move_handshakeFailed h
  | command c target => exact move_command h
  | resolved candidates hasIpv6 => exact move_resolved h
  | dial a =>
    obtain ⟨q, started, d, d', hp, ha, rfl⟩ := move_dial h
    exact ⟨live_of_stage hp nofun, _, dial_moved hp ha⟩
  | dialed => exact move_dialed h
  | replied ok => exact move_replied h
  | relayed r => exact move_relayed h
  | udpOpened => exact move_udpOpened h
  | udpBindFailed => exact move_udpBindFailed h
  | udpFailed => exact move_udpFailed h
  | udp a => exact move_udp h
  | udpEnded => exact move_udpEnded h
  | udpClosing controlClosed => exact move_udpClosing h
  | udpGraceOver => exact move_udpGraceOver h
  | abort => exact move_abort h

end

/-! ### Books -/

/-- Nothing is lost and nothing is held twice. -/
structure Books (l : LimitsConfig) (s : State C) : Prop where
  permits : s.permits + s.conns.countP Conn.live = l.maxConcurrentConnections
  dialPermits : s.dialPermits + s.conns.countP Conn.holdsDialPermit = l.maxPendingDials
  active : s.udpAssociatesActive = s.conns.countP Conn.activeUdp
  rejected : s.metrics .connsRejected =
    s.metrics .connsRejectedUnhealthy + s.metrics .connsRejectedDialPressure + s.rejectLog.calls
  suppressed : s.rejectLog.calls = s.rejectLog.lines.length + s.logSuppressed
  rejectLog : s.rejectLog.Kept rejectionLogInterval (2 ^ 64)
  dialLog : s.dialLog.Kept dialLogInterval (2 ^ 64)
  sound : ∀ x ∈ s.conns, x.Sound l
  stopped : s.loop = .stopped → ∀ x ∈ s.conns, x.live = false
  stopping : s.loop = .stopping ∨ s.loop = .stopped → s.cancelled = true

theorem Books.init (now : Instant) : Books l (.init l now : State C) where
  permits := rfl
  dialPermits := rfl
  active := rfl
  rejected := rfl
  suppressed := rfl
  rejectLog := .new
  dialLog := .new
  sound _ hx := by cases hx
  stopped h := by cases h
  stopping h := by rcases h with h | h <;> cases h

theorem saturatingAdd_one (n : ℕ) (h : n + 1 < 2 ^ 64) : saturatingAdd 1 n = n + 1 := by
  rw [saturatingAdd, u64Max, Nat.add_comm 1 n]
  exact min_eq_left (Nat.le_sub_one_of_lt h)

theorem Moved.books {x' : Conn C} (hm : Moved l s i x x' t) (hs : Books l s)
    (hi : s.conns[i]? = some x) (hlive : x.live = true) : Books l t := by
  have hmem := List.mem_of_getElem? hi
  constructor
  · have hcount := countP_set (y := x') Conn.live hi
    have hp := hm.permits
    have hold := hs.permits
    rw [hm.conns]
    omega
  · have hcount := countP_set (y := x') Conn.holdsDialPermit hi
    have hp := hm.dialPermits
    have hold := hs.dialPermits
    rw [hm.conns]
    omega
  · have hcount := countP_set (y := x') Conn.activeUdp hi
    have hp := hm.active
    have hold := hs.active
    rw [hm.conns]
    omega
  · have hb := hm.balanced
    have hold := hs.rejected
    unfold Balanced at hb
    rw [hm.rejectLog]
    omega
  · rw [hm.rejectLog, hm.logSuppressed]
    exact hs.suppressed
  · rw [hm.rejectLog]
    exact hs.rejectLog
  · rcases hm.dialLog with h | h <;> rw [h]
    · exact hs.dialLog
    · exact hs.dialLog.call (by decide) saturatingAdd_one le_rfl
  · intro y hy
    rw [hm.conns] at hy
    rcases List.mem_or_eq_of_mem_set hy with hy | rfl
    · exact hs.sound y hy
    · exact hm.sound (hs.sound x hmem)
  · intro hloop
    rw [hm.loop] at hloop
    exact absurd ((hs.stopped hloop x hmem).symm.trans hlive) Bool.false_ne_true
  · rw [hm.loop, hm.cancelled]
    exact hs.stopping

theorem Conn.tick_eq (d : Duration) (x : Conn C) :
    (x.tick d).live = x.live ∧ (x.tick d).holdsDialPermit = x.holdsDialPermit ∧
      (x.tick d).activeUdp = x.activeUdp ∧ (x.Sound l → (x.tick d).Sound l) := by
  unfold Conn.tick
  split
  · next q started s hp =>
    refine ⟨?_, ?_, ?_, fun h => ?_⟩
    case refine_4 =>
      rw [Conn.Sound, hp] at h
      exact ⟨h.1, h.2.next (a := .tick d) rfl⟩
    all_goals simp [Conn.live, Conn.holdsDialPermit, Conn.activeUdp, hp]
  · exact ⟨rfl, rfl, rfl, id⟩

theorem Books.tick (hs : Books l s) (d : Duration) :
    Books l { s with now := s.now + d, conns := s.conns.map (Conn.tick d) } where
  permits := by
    rw [List.countP_map]
    exact (congrArg (s.permits + List.countP · s.conns)
      (funext fun x => (x.tick_eq (l := l) d).1)).trans
      hs.permits
  dialPermits := by
    rw [List.countP_map]
    exact (congrArg (s.dialPermits + List.countP · s.conns)
      (funext fun x => (x.tick_eq (l := l) d).2.1)).trans hs.dialPermits
  active := by
    rw [List.countP_map]
    exact hs.active.trans (congrArg (fun p => ((List.countP p s.conns : ℕ) : ℤ))
      (funext fun x => (x.tick_eq (l := l) d).2.2.1).symm)
  rejected := hs.rejected
  suppressed := hs.suppressed
  rejectLog := hs.rejectLog
  dialLog := hs.dialLog
  sound := List.forall_mem_map.mpr fun x hx => (x.tick_eq d).2.2.2 (hs.sound x hx)
  stopped h := List.forall_mem_map.mpr fun x hx => (x.tick_eq (l := l) d).1.trans
    (hs.stopped h x hx)
  stopping := hs.stopping

theorem reject_ledger (s : State C) :
    s.reject.rejectLog.lines.length + s.reject.logSuppressed =
      s.rejectLog.lines.length + s.logSuppressed + 1 := by
  simp only [State.reject, Ledger.call]
  rcases s.rejectLog.toRateGate.call rejectionLogInterval fetchAdd s.now s.now with ⟨passed, g⟩
  cases passed with
  | none => rfl
  | some report =>
    simp only [List.length_append, List.length_singleton, Option.isSome_some, if_true]
    omega

theorem Books.reject (hs : Books l s) (hloop : s.loop = .listening) : Books l s.reject where
  permits := hs.permits
  dialPermits := hs.dialPermits
  active := hs.active
  rejected := by
    have hold := hs.rejected
    have hcalls : s.reject.rejectLog.calls = s.rejectLog.calls + 1 := Ledger.call_calls
    rw [hcalls]
    simp only [State.reject, State.count]
    simp
    omega
  suppressed := by
    have hcalls : s.reject.rejectLog.calls = s.rejectLog.calls + 1 := Ledger.call_calls
    rw [hcalls, reject_ledger, hs.suppressed]
  rejectLog := hs.rejectLog.call (by decide) (fun _ => Nat.mod_eq_of_lt) le_rfl
  dialLog := hs.dialLog
  sound := hs.sound
  stopped h := absurd (hloop.symm.trans h) nofun
  stopping := hs.stopping

theorem Books.accept (hs : Books l s) (hloop : s.loop = .listening) (peer : SocketAddr) :
    Books l (s.accept l peer) := by
  rw [State.accept]
  split
  · exact hs.reject hloop
  · next hpermits =>
    have hp := hs.permits
    constructor
    case permits =>
      rw [List.countP_append]
      simp only [Conn.live, List.countP_singleton, if_true]
      omega
    case dialPermits =>
      rw [List.countP_append]
      exact hs.dialPermits
    case active =>
      rw [List.countP_append]
      exact hs.active
    case sound => exact List.forall_mem_append.mpr ⟨hs.sound, List.forall_mem_singleton.mpr trivial⟩
    case stopped => exact fun h => absurd (hloop.symm.trans h) nofun
    case rejected => exact hs.rejected
    case suppressed => exact hs.suppressed
    case rejectLog => exact hs.rejectLog
    case dialLog => exact hs.dialLog
    case stopping => exact hs.stopping

theorem Books.turn (hs : Books l s) {loop : Loop}
    (hstopped : loop = .stopped → ∀ x ∈ s.conns, x.live = false)
    (hstopping : loop = .stopping ∨ loop = .stopped → s.cancelled = true) :
    Books l { s with loop := loop } where
  permits := hs.permits
  dialPermits := hs.dialPermits
  active := hs.active
  rejected := hs.rejected
  suppressed := hs.suppressed
  rejectLog := hs.rejectLog
  dialLog := hs.dialLog
  sound := hs.sound
  stopped := hstopped
  stopping := hstopping

theorem Books.step {a : Action C} (hs : Books l s) (ha : (machine C l).step s a = some t) :
    Books l t := by
  simp only [machine] at ha
  cases a with
  | tick d =>
    cases ha
    exact hs.tick d
  | health healthy =>
    cases ha
    exact ⟨hs.permits, hs.dialPermits, hs.active, hs.rejected, hs.suppressed, hs.rejectLog,
      hs.dialLog, hs.sound, hs.stopped, hs.stopping⟩
  | cancel =>
    cases ha
    exact ⟨hs.permits, hs.dialPermits, hs.active, hs.rejected, hs.suppressed, hs.rejectLog,
      hs.dialLog, hs.sound, hs.stopped, fun _ => rfl⟩
  | accept peer =>
    simp only [State.step] at ha
    split at ha
    · next hloop =>
      obtain ⟨_, rfl⟩ := of_guarded_not ha
      exact hs.accept hloop peer
    · cases ha
  | acceptFailed =>
    simp only [State.step] at ha
    split at ha
    · obtain ⟨_, rfl⟩ := of_guarded_not ha
      exact hs.turn nofun fun h => by rcases h with h | h <;> cases h
    · cases ha
  | backoffOver =>
    simp only [State.step] at ha
    split at ha
    · obtain ⟨_, rfl⟩ := of_guarded ha
      exact hs.turn nofun fun h => by rcases h with h | h <;> cases h
    · cases ha
  | stop =>
    simp only [State.step] at ha
    split at ha
    · obtain ⟨hcancelled, rfl⟩ := of_guarded ha
      exact hs.turn nofun fun _ => hcancelled
    · obtain ⟨hcancelled, rfl⟩ := of_guarded ha
      exact hs.turn nofun fun _ => hcancelled
    · cases ha
  | stopped =>
    simp only [State.step] at ha
    split at ha
    · next hloop =>
      obtain ⟨hall, rfl⟩ := of_guarded ha
      exact hs.turn (fun _ => hall) fun _ => hs.stopping (.inl hloop)
    · cases ha
  | move i m =>
    obtain ⟨x, hi, hm⟩ := Option.bind_eq_some_iff.mp ha
    obtain ⟨hlive, x', hmoved⟩ := move_moved hm
    exact hmoved.books hs hi hlive

theorem books_of_reachable {now : Instant} (h : (machine C l).Reachable (.init l now) s) :
    Books l s :=
  h.invariant (.init now) fun _ _ _ hs ha => hs.step ha

/-- Permits, dial permits and the gauge of associations are what the live connections hold. -/
theorem permits_follow_connections {now : Instant} (h : (machine C l).Reachable (.init l now) s) :
    s.permits + s.conns.countP Conn.live = l.maxConcurrentConnections ∧
      s.dialPermits + s.conns.countP Conn.holdsDialPermit = l.maxPendingDials ∧
      s.udpAssociatesActive = s.conns.countP Conn.activeUdp := by
  have hs := books_of_reachable h
  exact ⟨hs.permits, hs.dialPermits, hs.active⟩

theorem permits_follow_connections_busy :
    ∃ s : State ℕ, s.permits = 2046 ∧ s.conns.length = 2 ∧
      s.permits + s.conns.countP Conn.live = (LimitsConfig.default none).maxConcurrentConnections ∧
      s.dialPermits + s.conns.countP Conn.holdsDialPermit =
        (LimitsConfig.default none).maxPendingDials ∧
      s.udpAssociatesActive = s.conns.countP Conn.activeUdp := by
  have hrun : (machine ℕ (LimitsConfig.default none)).Reachable (.init (.default none) 0) _ :=
    Machine.reachable_of_run [.accept (.v4 1#32 5000#16), .health true, .accept (.v4 1#32 5001#16),
      .move 0 (.command .tcpConnect (.domain "a" 443#16)),
      .move 1 (.command .udpAssociate (.ip (.v4 0#32 0#16))), .move 1 .udpOpened] rfl
  exact ⟨_, rfl, rfl, permits_follow_connections hrun⟩

/-- Every refused connection is counted under its reason; of those over the limit each one has a
line of its own, is reported by a later line or waits for the next, and lines are a second apart. -/
theorem rejections_reported {now : Instant} (h : (machine C l).Reachable (.init l now) s) :
    s.metrics .connsRejected = s.metrics .connsRejectedUnhealthy +
        s.metrics .connsRejectedDialPressure + (s.rejectLog.lines.length + s.logSuppressed) ∧
      (s.rejectLog.calls < 2 ^ 64 → s.logSuppressed = s.rejectLog.reported + s.rejectLog.held) ∧
      (s.rejectLog.lines.Pairwise fun x y => x.1 + rejectionLogInterval ≤ y.1) ∧
      (s.dialLog.calls < 2 ^ 64 →
        s.dialLog.calls = s.dialLog.lines.length + s.dialLog.reported + s.dialLog.held) ∧
      s.dialLog.lines.Pairwise fun x y => x.1 + dialLogInterval ≤ y.1 := by
  have hs := books_of_reachable h
  refine ⟨?_, fun hlt => ?_, hs.rejectLog.spaced, hs.dialLog.conserved, hs.dialLog.spaced⟩
  · rw [hs.rejected, hs.suppressed]
  · have hconserved := hs.rejectLog.conserved hlt
    have hsuppressed := hs.suppressed
    omega

/-- A listener whose one slot is taken turns three connections away within a second. -/
theorem rejections_reported_full :
    ∃ s : State ℕ, s.metrics .connsRejected = 3 ∧ s.rejectLog.lines = [(0, 0)] ∧
      s.metrics .connsRejected = s.metrics .connsRejectedUnhealthy +
        s.metrics .connsRejectedDialPressure + (s.rejectLog.lines.length + s.logSuppressed) ∧
      (s.rejectLog.calls < 2 ^ 64 → s.logSuppressed = s.rejectLog.reported + s.rejectLog.held) ∧
      (s.rejectLog.lines.Pairwise fun x y => x.1 + rejectionLogInterval ≤ y.1) ∧
      (s.dialLog.calls < 2 ^ 64 →
        s.dialLog.calls = s.dialLog.lines.length + s.dialLog.reported + s.dialLog.held) ∧
      s.dialLog.lines.Pairwise fun x y => x.1 + dialLogInterval ≤ y.1 := by
  let l : LimitsConfig :=
    { LimitsConfig.default none with maxConcurrentConnections := 1, maxPendingDials := 1 }
  have hrun : (machine ℕ l).Reachable (.init l 0) _ :=
    Machine.reachable_of_run [.accept (.v4 1#32 5000#16), .accept (.v4 1#32 5001#16),
      .accept (.v4 1#32 5002#16), .tick 5, .accept (.v4 1#32 5003#16)] rfl
  exact ⟨_, rfl, rfl, rejections_reported hrun⟩

/-! ### Buffers -/

section
variable {q : StaggeredDial.Params} {d d' : StaggeredDial.State C}

def winner (d : StaggeredDial.State C) : ℕ :=
  match d.phase with
  | .shuttingDown (.ok _) | .returned (.ok _) => 1
  | _ => 0

def Room (q : StaggeredDial.Params) (d : StaggeredDial.State C) : Prop :=
  d.attempts.len + winner d ≤ max q.maxParallel 1

theorem Room.refill (hs : d.phase = .selecting) (h : d.attempts.len ≤ max q.maxParallel 1) :
    Room q (d.refill q) := by
  rw [StaggeredDial.State.refill]
  split
  · next hempty =>
    have hlen := (StaggeredDial.isEmpty_iff d.attempts).mp hempty
    split
    · simp [Room, winner, StaggeredDial.State.startNext, StaggeredDial.State.start, hs, hlen]
    · simp [Room, winner, hlen]
  · simpa [Room, winner, hs] using h

theorem Room.step {a : StaggeredDial.Action C} (h : Room q d)
    (ha : StaggeredDial.step q d a = some d') :
    Room q d' := by
  cases StaggeredDial.step_cases ha with
  | tick e => exact h
  | finish hi _ =>
    simpa [Room, winner, StaggeredDial.len_complete hi] using h
  | @join i x hs hi =>
    have htake := StaggeredDial.len_take hi
    have hlen : d.attempts.len ≤ max q.maxParallel 1 := le_of_add_le_left h
    rw [StaggeredDial.State.joinNext]
    split
    · simp only [Room, winner]
      omega
    · exact Room.refill hs (by simp only; omega)
    · exact Room.refill hs (by simp only; omega)
    · exact Room.refill hs (by simp only; omega)
  | @launch addr _ hs _ _ hlt _ =>
    have hlen : (d.attempts.spawn addr).len + 0 ≤ max q.maxParallel 1 := by
      rw [StaggeredDial.len_spawn]
      exact hlt
    simpa only [Room, winner, StaggeredDial.State.startNext, StaggeredDial.State.start, hs] using
      hlen
  | deadline _ _ _ => exact le_of_add_le_left h
  | @reap r i x hs hi =>
    have htake := StaggeredDial.len_take hi
    unfold Room winner at h ⊢
    dsimp only
    omega
  | @ret r hs hempty =>
    unfold Room winner at h ⊢
    rw [hs] at h
    cases r <;> exact h

end

/-- The buffers that a connection holds: those of its dial attempts or of its connection in the
netstack, the two of its relay, or those of its association and of the sockets of that in the
netstack. -/
def Conn.bytes (w : WarpConfig) (l : LimitsConfig) (hasIpv6 : Bool) (x : Conn C) : ℕ :=
  match x.stage with
  | .dialing _ _ d => (d.attempts.len + winner d) * (2 * w.tcpBufferSize)
  | .replying _ _ => 2 * w.tcpBufferSize
  | .relaying _ => 2 * w.tcpBufferSize + 2 * l.relayBufferSize
  | .udpRelaying r | .udpDraining r _ =>
    UdpRelay.recvBufferBytes + UdpRelay.recvBufferBytes +
      (if hasIpv6 then UdpRelay.recvBufferBytes else 0) +
        (r.queue.map fun d => d.bytes.length).sum +
      udpSocketBytes + if hasIpv6 then udpSocketBytes else 0
  | _ => 0

def State.bytes (w : WarpConfig) (l : LimitsConfig) (hasIpv6 : Bool) (s : State C) : ℕ :=
  (s.conns.map (Conn.bytes w l hasIpv6)).sum

structure Fits (w : WarpConfig) (l : LimitsConfig) (hasIpv6 : Bool) (x : Conn C) (u : SlotUse) :
    Prop where
  bytes : x.bytes w l hasIpv6 ≤ u.held w l
  dialing : u.isDialing = true → x.holdsDialPermit = true
  parallel : ∀ n, u = .dialing n → n ≤ l.maxParallelDials

def Action.stops : Action C → Prop
  | .stop | .stopped | .move _ .abort => True
  | _ => False

def State.rank (s : State C) : ℕ :=
  (match s.loop with
    | .listening | .backingOff _ => 2
    | .stopping => 1
    | .stopped => 0) + s.conns.countP Conn.live

theorem exists_stop (hcancelled : s.cancelled = true) (hloop : s.loop ≠ .stopped) :
    ∃ a t, Action.stops a ∧ (machine C l).step s a = some t ∧ t.cancelled = true ∧
    t.rank < s.rank := by
  cases hp : s.loop with
  | stopped => exact absurd hp hloop
  | listening =>
    refine ⟨.stop, { s with loop := .stopping }, trivial, ?_, hcancelled, ?_⟩
    · simp [machine, State.step, hp, hcancelled]
    · simp [State.rank, hp]
  | backingOff deadline =>
    refine ⟨.stop, { s with loop := .stopping }, trivial, ?_, hcancelled, ?_⟩
    · simp [machine, State.step, hp, hcancelled]
    · simp [State.rank, hp]
  | stopping =>
    by_cases hall : ∀ x ∈ s.conns, x.live = false
    · refine ⟨.stopped, { s with loop := .stopped }, trivial, ?_, hcancelled, ?_⟩
      · simp only [machine, State.step, hp]
        exact if_pos hall
      · simp [State.rank, hp]
    · obtain ⟨x, hx, hlive⟩ : ∃ x ∈ s.conns, x.live = true := by
        simpa using hall
      obtain ⟨i, hi⟩ := List.getElem?_of_mem hx
      have hmove : s.move l i x .abort = some (s.finish i x) := by
        unfold Conn.live at hlive
        cases hst : x.stage with
        | ended =>
          rw [hst] at hlive
          cases hlive
        | _ => simp only [State.move, hp, hst]
      have hcount := countP_set (y := { x with stage := .ended }) Conn.live hi
      have hended : ({ x with stage := .ended } : Conn C).live = false := rfl
      rw [hlive, hended] at hcount
      refine ⟨.move i .abort, s.finish i x, trivial, ?_, hcancelled, ?_⟩
      · exact Option.bind_eq_some_iff.mpr ⟨x, hi, hmove⟩
      · simp only [State.rank, State.finish, State.put, hp, Bool.toNat_true,
          Bool.toNat_false] at hcount ⊢
        omega

theorem all_back {now : Instant} (h : (machine C l).Reachable (.init l now) s)
    (hloop : s.loop = .stopped) :
    s.permits = l.maxConcurrentConnections ∧ s.dialPermits = l.maxPendingDials ∧
      s.udpAssociatesActive = 0 ∧ ∀ x ∈ s.conns, x.live = false := by
  have hs := books_of_reachable h
  have hall := hs.stopped hloop
  have hnone {p : Conn C → Bool} (hp : ∀ x, x.live = false → p x = false) : s.conns.countP p = 0 :=
    List.countP_eq_zero.mpr fun x hx => by rw [hp x (hall x hx)]; exact Bool.false_ne_true
  have hended (x : Conn C) (hx : x.live = false) : x.stage = .ended := by
    unfold Conn.live at hx
    split at hx
    · assumption
    · cases hx
  have hlive := hnone (p := Conn.live) fun x hx => hx
  have hdial := hnone (p := Conn.holdsDialPermit) fun x hx => by simp [Conn.holdsDialPermit,
    hended x hx]
  have hactive := hnone (p := Conn.activeUdp) fun x hx => by simp [Conn.activeUdp, hended x hx]
  have h1 := hs.permits
  have h2 := hs.dialPermits
  have h3 := hs.active
  rw [hlive] at h1
  rw [hdial] at h2
  rw [hactive] at h3
  exact ⟨h1, h2, h3, hall⟩

/-- A stopped listener has every permit back and no association left, and a cancelled one can
always get there, whatever its connections are waiting for. -/
theorem shutdown_returns_everything {now : Instant} (h : (machine C l).Reachable (.init l now) s) :
    (s.loop = .stopped → s.permits = l.maxConcurrentConnections ∧
      s.dialPermits = l.maxPendingDials ∧
      s.udpAssociatesActive = 0 ∧ ∀ x ∈ s.conns, x.live = false) ∧
    (s.cancelled = true → ∃ t, (machine C l).Path Action.stops s t ∧ t.loop = .stopped) := by
  refine ⟨all_back h, fun hcancelled => ?_⟩
  obtain ⟨t, hpath, _, hloop⟩ :=
    Machine.exists_path_of_rank (I := fun s => Books l s ∧ s.cancelled = true)
    (G := fun s => s.loop = .stopped) State.rank (fun t ht hloop => by
      obtain ⟨a, u, ha, hstep, hc, hlt⟩ := exists_stop ht.2 hloop
      exact ⟨a, u, ha, hstep, ⟨ht.1.step hstep, hc⟩, hlt⟩) ⟨books_of_reachable h, hcancelled⟩
  exact ⟨t, hpath, hloop⟩

theorem shutdown_returns_everything_busy :
    ∃ s : State ℕ, s.conns.length = 1 ∧ s.cancelled = true ∧
      (s.loop = .stopped → s.permits = (LimitsConfig.default none).maxConcurrentConnections ∧
        s.dialPermits = (LimitsConfig.default none).maxPendingDials ∧
        s.udpAssociatesActive = 0 ∧ ∀ x ∈ s.conns, x.live = false) ∧
      (s.cancelled = true → ∃ t, (machine ℕ (LimitsConfig.default none)).Path Action.stops s t ∧
        t.loop = .stopped) := by
  have hrun : (machine ℕ (LimitsConfig.default none)).Reachable (.init (.default none) 0) _ :=
    Machine.reachable_of_run [.accept (.v4 1#32 5000#16), .health true,
      .move 0 (.command .udpAssociate (.ip (.v4 0#32 0#16))), .move 0 .udpOpened, .cancel] rfl
  exact ⟨_, rfl, rfl, shutdown_returns_everything hrun⟩

end WarpRust.Proxy.Serve
