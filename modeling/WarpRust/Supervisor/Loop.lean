import WarpRust.Library.Machine
import WarpRust.Supervisor.Outcome

/-!
# The supervisor's event loop

Events queue up to the capacity of the channel while one of them is handled. `recv` takes
the next event and `finish` ends its handling, at the time its waits add up to; anything may
happen in between. The world in between is the one of `recv`: only the supervisor writes it.
-/

namespace WarpRust.Supervisor
open Library Tunnel Warp

def eventCapacity : ℕ := 64

structure State where
  now : Instant
  queue : List SupervisorEvent
  handling : Option SupervisorEvent
  running : Bool
  world : World

inductive Action where
  | tick (d : Duration)
  | send (e : SupervisorEvent)
  | recv
  | finish (env : Env)

/-- The start of one process: its configuration file has been read, nothing else. -/
structure Process where
  env : Env
  files : List String
  startedAt : Instant
  accountJson : Option AccountFile

def Process.boot (p : Process) (cfg : Config) : Except Fault World :=
  (outcome (startUp cfg p.env p.files) (Host.start p.startedAt p.accountJson)).1

def State.start (w : World) : State := ⟨w.host.now, [], none, true, w⟩

def World.wake (w : World) (t : Instant) : World := { w with host := { w.host with now := t } }

def panicked : Except Fault Unit → Bool
  | .error .panic => true
  | _ => false

def SupervisorEvent.observedBy (e : SupervisorEvent) (t : Instant) : Bool :=
  e.observedAt?.all fun observedAt => decide (observedAt ≤ t)

def step (cfg : Config) (s : State) : Action → Option State
  | .tick d => some { s with now := s.now + d }
  | .send e =>
    if s.queue.length < eventCapacity ∧ e.observedBy s.now = true then
      some { s with queue := s.queue ++ [e] }
    else none
  | .recv =>
    match s.queue with
    | [] => none
    | e :: queue =>
      if s.running = true ∧ s.handling.isNone = true then
        some { s with queue := queue, handling := some e, world := s.world.wake s.now }
      else none
  | .finish env =>
    match s.handling with
    | none => none
    | some e =>
      let o := outcome (handleEvent cfg env e) s.world
      -- a panic ends the task, and with it the process
      if o.2.host.now = s.now then
        some { s with handling := none, running := !panicked o.1, world := o.2 }
      else none

def machine (cfg : Config) : Machine State Action := ⟨step cfg⟩

inductive Step (cfg : Config) (s : State) : Action → State → Prop
  | tick {d : Duration} : Step cfg s (.tick d) { s with now := s.now + d }
  | send {e : SupervisorEvent} (hlen : s.queue.length < eventCapacity)
      (ho : e.observedBy s.now = true) : Step cfg s (.send e) { s with queue := s.queue ++ [e] }
  | recv {e : SupervisorEvent} {queue : List SupervisorEvent} (hq : s.queue = e :: queue)
      (hrun : s.running = true) (hidle : s.handling = none) :
      Step cfg s .recv
        { s with queue := queue, handling := some e, world := s.world.wake s.now }
  | finish {env : Env} {e : SupervisorEvent} {r : Except Fault Unit} {w : World}
      (he : s.handling = some e) (hw : Handled cfg env s.world e r w) (hnow : w.host.now = s.now) :
      Step cfg s (.finish env) { s with handling := none, running := !panicked r, world := w }

theorem step_cases {cfg : Config} {s s' : State} {a : Action} (ha : step cfg s a = some s') :
    Step cfg s a s' := by
  cases a with
  | tick d =>
    obtain rfl := Option.some.inj ha
    exact .tick
  | send e =>
    obtain ⟨⟨hlen, ho⟩, rfl⟩ := of_guarded ha
    exact .send hlen ho
  | recv =>
    simp only [step] at ha
    split at ha
    next => cases ha
    next e queue hq =>
      obtain ⟨⟨hrun, hidle⟩, rfl⟩ := of_guarded ha
      exact .recv hq hrun (Option.isNone_iff_eq_none.mp hidle)
  | finish env =>
    simp only [step] at ha
    split at ha
    next => cases ha
    next e he =>
      obtain ⟨hnow, rfl⟩ := of_guarded ha
      exact .finish he (wp_iff_outcome.mp (handleEvent_handled e)) hnow

def World.fresh (host : Host) (files : List String) (creds : WarpCredentials)
    (t : ConnectedTunnel) : World where
  host := host
  identityPool := .load files
  creds := creds
  wgConfig := t.config
  consecutiveFailures := 0
  lastRecoveryCompleted := none
  healthy := false
  live := ⟨t.managed, none⟩
  log := []

/-- The two ways to start: with the account on disk, or with one registered just now. -/
inductive Booted (cfg : Config) (p : Process) : World → Prop
  | loaded {file : AccountFile} {wg : WireGuardConfig} {t : ConnectedTunnel} {now : Instant}
      (hfile : p.accountJson = some file) (hwg : Fetched cfg.warp p.env file.credentials wg)
      (ht : t.For wg) :
      Booted cfg p (.fresh ⟨now, some file, none, [], [wg]⟩ p.files file.credentials t)
  | registered {c : AccountCandidate} {t : ConnectedTunnel} {now : Instant}
      (hfile : p.accountJson = none) (hc : Prepared cfg.warp p.env c)
      (hat : c.accountFile.registeredAt =
        Duration.asSecs (p.startedAt + p.env.elapse .load + p.env.elapse .register))
      (hnow : p.startedAt + p.env.elapse .load + p.env.elapse .register ≤ now)
      (ht : t.For c.wgConfig) :
      Booted cfg p (.fresh ⟨now, some c.accountFile, none, [p.startedAt + p.env.elapse .load],
        [c.wgConfig]⟩ p.files c.accountFile.credentials t)

theorem boot_booted {cfg : Config} {p : Process} {w : World} (h : p.boot cfg = .ok w) :
    Booted cfg p w := by
  have hwp : wp (startUp cfg p.env p.files) (fun r _ => ∀ w, r = .ok w → Booted cfg p w)
      (Host.start p.startedAt p.accountJson) := by
    simp only [startUp, loadOrRegister, wp_bind, wp_pass, andThen_ok, wp_lift, wp_get, load]
    cases hread : p.env.readError with
    | some e => exact fun w hw => by cases hw
    | none =>
      cases hfile : p.accountJson with
      | some file =>
        simp only [Host.start, Host.pass, Except.mapError, andThen_ok, wp_bind, wp_getConfig]
        cases hget : p.env.getConfig file.credentials with
        | error e => exact fun w hw => by cases hw
        | ok raw =>
          simp only [Except.mapError, andThen_ok, wp_pure, wp_bind, wp_connectCandidate]
          cases ht : Tunnel.connectCandidate p.env.network
              (applyTransportTuning cfg.warp raw) with
          | error e => exact fun w hw => by cases hw
          | ok t =>
            simp only [andThen_ok, wp_bind, wp_get, wp_pure]
            intro w hw
            obtain rfl := Except.ok.inj hw
            exact .loaded hfile ⟨raw, hget, rfl⟩ (connectCandidate_for ht)
      | none =>
        simp only [Host.start, Host.pass, Except.mapError, andThen_ok, wp_bind,
          wp_registerCandidate, Env.candidate]
        cases hraw : p.env.register ⟨cfg.warp.deviceModel, cfg.warp.licenseKey⟩ with
        | error e => exact fun w hw => by cases hw
        | ok raw =>
          simp only [Except.map, andThen_ok, wp_bind, wp_save]
          cases p.env.saved with
          | keptOld e => exact fun w hw => by cases hw
          | installedNew e => exact fun w hw => by cases hw
          | ok =>
            simp only [andThen_ok, wp_pure, wp_bind, wp_connectCandidate]
            cases ht : Tunnel.connectCandidate p.env.network
                (applyTransportTuning cfg.warp raw.1) with
            | error e => exact fun w hw => by cases hw
            | ok t =>
              simp only [Except.mapError, andThen_ok, wp_bind, wp_get, wp_pure]
              intro w hw
              obtain rfl := Except.ok.inj hw
              have ht := connectCandidate_for ht
              exact .registered (c := ⟨applyTransportTuning cfg.warp raw.1, raw.2, _⟩) hfile
                (.registered raw.1 hraw rfl) rfl
                (Nat.le_trans (Nat.le_add_right _ _) (Nat.le_add_right _ _)) ht
  exact wp_iff_outcome.mp hwp w h

section
variable {cfg : Config} {env : Env} {w w' : World} {reason : ReplaceReason} {c g : Prop}
  {r : Except Fault Unit} {e : SupervisorEvent}

theorem Attempted.log_eq (h : Attempted cfg.warp env w reason c g r w') : w'.log = w.log := by
  cases h <;> rfl

theorem Attempted.now_le (h : Attempted cfg.warp env w reason c g r w') :
    w.host.now ≤ w'.host.now ∧ (g → w.host.now + env.elapse .load ≤ w'.host.now) := by
  have hlift {h : Host} {t : Instant} (hh : Prelude env w g h) (ht : h.now ≤ t) :
      w.host.now ≤ t ∧ (g → w.host.now + env.elapse .load ≤ t) :=
    ⟨Nat.le_trans hh.now_le ht, fun hg => Nat.le_trans (hh.attempted_le hg) ht⟩
  cases h with
  | stopped hh => exact hlift hh le_rfl
  | refused hh => exact hlift hh (Nat.le_add_right _ _)
  | rebuilt hh => exact hlift hh (Nat.le_add_right _ _)
  | unsaved _ hh => exact hlift hh (Nat.le_trans (Nat.le_add_right _ _) (Nat.le_add_right _ _))
  | switched _ hh => exact hlift hh (Nat.le_trans (Nat.le_add_right _ _) (Nat.le_add_right _ _))

theorem World.failed_now_le : w.host.now ≤ (w.failed cfg env).host.now := by
  rw [World.failed_host, Host.pass_now, Host.pass_now]
  exact Nat.le_trans (Nat.le_add_right _ _) (Nat.le_add_right _ _)

theorem World.settled_now_le {a : RecoveryAction} : w.host.now ≤ (w.settled env a r).host.now := by
  match r with
  | .ok () => exact Nat.le_add_right _ _
  | .error (.err e) => exact le_rfl
  | .error .panic => exact le_rfl

theorem World.settled_log (w : World) (env : Env) (a : RecoveryAction) (r : Except Fault Unit) :
    ∃ k, (w.settled env a r).log = w.log ++ k := by
  match r with
  | .ok () => exact ⟨_, rfl⟩
  | .error (.err e) => exact ⟨_, rfl⟩
  | .error .panic => exact ⟨[], (List.append_nil _).symm⟩

theorem Handled.now_le (h : Handled cfg env w e r w') : w.host.now ≤ w'.host.now := by
  cases h with
  | stale => exact le_rfl
  | probeOk => exact le_rfl
  | waited => exact World.failed_now_le
  | recovery _ _ hw =>
    exact Nat.le_trans World.failed_now_le (Nat.le_trans hw.now_le.1 World.settled_now_le)
  | refresh hw =>
    rw [World.ended_host]
    exact hw.now_le.1

theorem step_clocked {s s' : State} {a : Action} (h : Step cfg s a s')
    (hs : s.world.host.now ≤ s.now) : s'.world.host.now ≤ s'.now := by
  cases h with
  | tick => exact Nat.le_trans hs (Nat.le_add_right _ _)
  | send => exact hs
  | recv => exact le_rfl
  | finish _ _ hnow => exact le_of_eq hnow

end

section samples

def sampleCreds : WarpCredentials := ⟨"device", "token", 7, "license", none, false⟩

def sampleWg (key : Key) : WireGuardConfig where
  privateKey := key
  peerPublicKey := 1
  peerEndpoint := .v4 (v4 162 159 192 1) 2408
  peerEndpointCandidates := [.v4 (v4 162 159 192 1) 2408]
  tunnelIp := v4 172 16 0 2
  tunnelIpv6 := none
  presharedKey := none
  keepaliveSeconds := some 25
  mtu := none
  tcpBufferSize := none

/-- All goes well, at once, but no identity file can be found. -/
def Env.sample : Env where
  network := ⟨fun _ => 0, fun _ => .connected, fun _ => []⟩
  readError := none
  identity := fun _ => .ok none
  getConfig := fun creds => .ok (sampleWg creds.privateKey)
  register := fun _ => .ok (sampleWg 8, { sampleCreds with privateKey := 8 })
  saved := .ok
  elapse := fun _ => 0

def Env.stranded : Env :=
  { Env.sample with
    network := { Env.sample.network with joined := fun _ => .failed (.other []) }
    register := fun _ => .error (.warpApi []) }

def Process.sample (files : List String) : Process where
  env := Env.sample
  files := files
  startedAt := 0
  accountJson := some ⟨sampleCreds, 0⟩

def World.sample (files : List String) : World :=
  let wg := applyTransportTuning .default (sampleWg 7)
  { host := ⟨0, some ⟨sampleCreds, 0⟩, none, [], [wg]⟩
    identityPool := .load files
    creds := sampleCreds
    wgConfig := wg
    consecutiveFailures := 0
    lastRecoveryCompleted := none
    healthy := false
    live := ⟨⟨wg⟩, none⟩
    log := [] }

theorem sample_boot (files : List String) :
    (Process.sample files).boot (Config.default none) = .ok (World.sample files) := rfl

def failedProbes (env : Env) (observedAt : Instant) : List U8 → List Action
  | [] => []
  | n :: rest =>
    [.send (.probeFailed [] observedAt), .recv, .tick (backoffDelay .default n), .finish env] ++
      failedProbes env observedAt rest

theorem finish_mem_failedProbes {env env' : Env} {o : Instant} {ns : List U8}
    (h : .finish env' ∈ failedProbes env o ns) : env' = env := by
  induction ns with
  | nil => cases h
  | cons n ns ih =>
    simp only [failedProbes, List.cons_append, List.nil_append, List.mem_cons, reduceCtorEq,
      Action.finish.injEq, false_or] at h
    exact h.elim id ih

end samples
end WarpRust.Supervisor
