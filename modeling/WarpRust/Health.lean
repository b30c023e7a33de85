import WarpRust.Egress
import WarpRust.Supervisor.Loop

/-!
# The health probe next to the supervisor

`probe_loop`, the dial outcomes recorded while it runs, and the event loop it reports to. A
round starts at a tick of the interval, waits for its targets, takes the egress window in two
swaps, judges, and sends. `Window` and the fields after `phase` are history: the outcomes that
were counted, by their numbers in the order they were recorded, which windows an egress verdict
goes back to, and how many outcomes there were when the last recovery completed.
-/

namespace WarpRust.Health
open Library Egress Warp
open Supervisor (SupervisorEvent World Record)

def handshakeStaleAfter : Duration := .fromSecs 180
def egressDegradedRounds : ℕ := 2

inductive TargetResult where
  | ok (target : SocketAddr)
  | failed (target : SocketAddr) (e : Error)
  | panicked (t : Text)

namespace TargetResult

def isOk : TargetResult → Bool
  | .ok _ => true
  | _ => false

def failure? : TargetResult → Option Text
  | .ok _ => none
  | .failed target e => some (.addr target :: .lit ": " :: e.text)
  | .panicked t => some (.lit "probe task: " :: t)

end TargetResult

def probeTargets (minSuccesses : ℕ) (results : List TargetResult) : Except Error Unit :=
  let successes := results.countP TargetResult.isOk
  if minSuccesses ≤ successes then .ok ()
  else
    .error (.other ([.lit "egress quorum failed (", .nat successes, .lit "/", .nat minSuccesses,
      .lit " required): "] ++ Text.join "; " (results.filterMap TargetResult.failure?)))

structure Window where
  counts : EgressWindow
  okDials : List ℕ
  failedDials : List ℕ

def Window.dials (W : Window) : List ℕ := W.okDials ++ W.failedDials

inductive Phase where
  | waiting
  | probing (observedAt : Instant) (staleHandshake : Option Duration)
  | swapping (observedAt : Instant) (staleHandshake : Option Duration) (probe : Except Error Unit)
      (ok : ℕ) (okDials : List ℕ)
  | sending (event : SupervisorEvent) (evidence : Option (List Window))

structure State where
  supervisor : Supervisor.State
  egress : EgressStats
  nextTick : Instant
  degradedRounds : ℕ
  phase : Phase
  dials : ℕ
  okDials : List ℕ
  failedDials : List ℕ
  recovered : ℕ
  windows : List Window
  queued : List (Option (List Window))
  handling : Option (List Window)

inductive Action where
  | supervisor (a : Supervisor.Action)
  | record (success : Bool)
  | round (sinceHandshake : Option Duration)
  | probed (results : List TargetResult)
  | judge
  | send

def State.start (w : World) : State where
  supervisor := .start w
  egress := .new
  nextTick := w.host.now
  degradedRounds := 0
  phase := .waiting
  dials := 0
  okDials := []
  failedDials := []
  recovered := 0
  windows := []
  queued := []
  handling := none

/-- The tick after the one due at `timeout`, with `MissedTickBehavior::Skip`. -/
def nextTimeout (timeout now period : Instant) : Instant :=
  if timeout + Duration.fromMillis 5 < now then now + period - (now - timeout) % period
  else timeout + period

def egressReason (w : EgressWindow) : Text :=
  [.lit "egress degraded: ", .nat w.failed, .lit "/", .nat w.total,
    .lit " business dials failed (", .fixed 0 (w.failRatio.mul (.ofNat 100)),
    .lit "%) while probes passed"]

def nextRounds (degradedRounds : ℕ) (w : EgressWindow) : ℕ :=
  if w.isDegraded then min (degradedRounds + 1) (2 ^ 32 - 1) else 0

/-- The three signals of a round in their order, with the rounds counted so far; the flag
tells an egress verdict. -/
def verdict (observedAt : Instant) (staleHandshake : Option Duration) (probe : Except Error Unit)
    (w : EgressWindow) (degradedRounds : ℕ) : SupervisorEvent × ℕ × Bool :=
  match staleHandshake, probe with
  | some since, _ =>
    (.probeFailed [.lit "WireGuard handshake stale for ", .duration since] observedAt,
      degradedRounds, false)
  | none, .error e => (.probeFailed e.text observedAt, degradedRounds, false)
  | none, .ok _ =>
    if egressDegradedRounds ≤ degradedRounds then
      (.probeFailed (egressReason w) observedAt, 0, true)
    else (.probeOk observedAt, degradedRounds, false)

def State.record (s : State) (success : Bool) : State :=
  { s with
    egress := s.egress.record success
    dials := s.dials + 1
    okDials := if success then s.okDials ++ [s.dials] else s.okDials
    failedDials := if success then s.failedDials else s.failedDials ++ [s.dials] }

def State.judge (s : State) (observedAt : Instant) (staleHandshake : Option Duration)
    (probe : Except Error Unit) (w : Window) : State :=
  let windows := w :: s.windows
  let v := verdict observedAt staleHandshake probe w.counts (nextRounds s.degradedRounds w.counts)
  { s with
    egress := { s.egress with failed := 0 }
    failedDials := []
    windows := windows
    degradedRounds := v.2.1
    phase := .sending v.1 (if v.2.2 then some (windows.take egressDegradedRounds) else none) }

def recoveries (w : World) : ℕ :=
  w.log.countP fun
    | .ended (.recovery _) (.ok _) => true
    | _ => false

def State.finish (s : State) (t : Supervisor.State) : State :=
  { s with
    supervisor := t
    handling := none
    recovered :=
      if recoveries s.supervisor.world < recoveries t.world then s.dials else s.recovered }

section
variable (cfg : Config)

/-- The supervisor moves; tags follow the events through its queue. Probe events come from the
loop below, so the only other sender is the refresh timer. -/
def stepSupervisor (s : State) (a : Supervisor.Action) : Option State :=
  match a with
  | .tick _ => (Supervisor.step cfg s.supervisor a).map fun t => { s with supervisor := t }
  | .send .refreshTimerFired =>
    (Supervisor.step cfg s.supervisor a).map fun t =>
      { s with supervisor := t, queued := s.queued ++ [none] }
  | .send _ => none
  | .recv =>
    (Supervisor.step cfg s.supervisor a).map fun t =>
      { s with supervisor := t, queued := s.queued.tail, handling := s.queued.head?.join }
  | .finish _ => (Supervisor.step cfg s.supervisor a).map s.finish

def step (s : State) : Action → Option State
  | .supervisor a => stepSupervisor cfg s a
  | .record success => some (s.record success)
  | .round since =>
    match s.phase with
    | .waiting =>
      if s.nextTick ≤ s.supervisor.now then
        some { s with
          nextTick := nextTimeout s.nextTick s.supervisor.now cfg.health.interval
          phase := .probing s.supervisor.now
            (since.filter fun since => decide (handshakeStaleAfter < since)) }
      else none
    | _ => none
  | .probed results =>
    match s.phase with
    | .probing observedAt stale =>
      if results.length = cfg.health.targets.length then
        some { s with
          egress := { s.egress with ok := 0 }
          okDials := []
          phase := .swapping observedAt stale (probeTargets cfg.health.minSuccesses results)
            s.egress.ok s.okDials }
      else none
    | _ => none
  | .judge =>
    match s.phase with
    | .swapping observedAt stale probe ok okDials =>
      some (s.judge observedAt stale probe ⟨⟨ok, s.egress.failed⟩, okDials, s.failedDials⟩)
    | _ => none
  | .send =>
    match s.phase with
    | .sending event evidence =>
      (Supervisor.step cfg s.supervisor (.send event)).map fun t =>
        { s with supervisor := t, queued := s.queued ++ [evidence], phase := .waiting }
    | _ => none

def machine : Machine State Action := ⟨step cfg⟩

inductive Step (s : State) : Action → State → Prop
  | tick {d : Duration} :
      Step s (.supervisor (.tick d))
        { s with supervisor := { s.supervisor with now := s.supervisor.now + d } }
  | refresh {t : Supervisor.State}
      (ht : Supervisor.step cfg s.supervisor (.send .refreshTimerFired) = some t) :
      Step s (.supervisor (.send .refreshTimerFired))
        { s with supervisor := t, queued := s.queued ++ [none] }
  | recv {t : Supervisor.State} (ht : Supervisor.step cfg s.supervisor .recv = some t) :
      Step s (.supervisor .recv)
        { s with supervisor := t, queued := s.queued.tail, handling := s.queued.head?.join }
  | finish {env : Env} {t : Supervisor.State}
      (ht : Supervisor.step cfg s.supervisor (.finish env) = some t) :
      Step s (.supervisor (.finish env)) (s.finish t)
  | record {success : Bool} : Step s (.record success) (s.record success)
  | round {since : Option Duration} (hphase : s.phase = .waiting)
      (hdue : s.nextTick ≤ s.supervisor.now) :
      Step s (.round since)
        { s with
          nextTick := nextTimeout s.nextTick s.supervisor.now cfg.health.interval
          phase := .probing s.supervisor.now
            (since.filter fun since => decide (handshakeStaleAfter < since)) }
  | probed {results : List TargetResult} {observedAt : Instant} {stale : Option Duration}
      (hphase : s.phase = .probing observedAt stale) :
      Step s (.probed results)
        { s with
          egress := { s.egress with ok := 0 }
          okDials := []
          phase := .swapping observedAt stale (probeTargets cfg.health.minSuccesses results)
            s.egress.ok s.okDials }
  | judge {observedAt : Instant} {stale : Option Duration} {probe : Except Error Unit} {ok : ℕ}
      {okDials : List ℕ} (hphase : s.phase = .swapping observedAt stale probe ok okDials) :
      Step s .judge (s.judge observedAt stale probe
        ⟨⟨ok, s.egress.failed⟩, okDials, s.failedDials⟩)
  | send {event : SupervisorEvent} {evidence : Option (List Window)} {t : Supervisor.State}
      (hphase : s.phase = .sending event evidence)
      (ht : Supervisor.step cfg s.supervisor (.send event) = some t) :
      Step s .send
        { s with supervisor := t, queued := s.queued ++ [evidence], phase := .waiting }

end

theorem step_cases {cfg : Config} {s s' : State} {a : Action} (ha : step cfg s a = some s') :
    Step cfg s a s' := by
  cases a with
  | supervisor a =>
    simp only [step, stepSupervisor] at ha
    split at ha
    next d =>
      obtain rfl := Option.some.inj ha
      exact .tick
    next =>
      obtain ⟨t, ht, rfl⟩ := Option.map_eq_some_iff.mp ha
      exact .refresh ht
    next => cases ha
    next =>
      obtain ⟨t, ht, rfl⟩ := Option.map_eq_some_iff.mp ha
      exact .recv ht
    next =>
      obtain ⟨t, ht, rfl⟩ := Option.map_eq_some_iff.mp ha
      exact .finish ht
  | record success =>
    obtain rfl := Option.some.inj ha
    exact .record
  | round since =>
    simp only [step] at ha
    split at ha
    next hphase =>
      obtain ⟨hdue, rfl⟩ := of_guarded ha
      exact .round hphase hdue
    next => cases ha
  | probed results =>
    simp only [step] at ha
    split at ha
    next hphase =>
      obtain ⟨_, rfl⟩ := of_guarded ha
      exact .probed hphase
    next => cases ha
  | judge =>
    simp only [step] at ha
    split at ha
    next hphase =>
      obtain rfl := Option.some.inj ha
      exact .judge hphase
    next => cases ha
  | send =>
    simp only [step] at ha
    split at ha
    next hphase =>
      obtain ⟨t, ht, rfl⟩ := Option.map_eq_some_iff.mp ha
      exact .send hphase ht
    next => cases ha

end WarpRust.Health
