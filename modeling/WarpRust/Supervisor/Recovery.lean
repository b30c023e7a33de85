import WarpRust.Tunnel.Generation
import WarpRust.Warp.Account

/-!
# The supervisor's handling of one event

The recovery ladder with its four actions and their fallbacks. `World` is what the
supervisor task owns or alone writes: the account on disk and in memory, the live tunnel
with the configuration kept for it, the failure count and the staleness mark.
-/

namespace WarpRust.Supervisor
open Library Tunnel Warp

inductive SupervisorEvent where
  | probeOk (observedAt : Instant)
  | probeFailed (reason : Text) (observedAt : Instant)
  | refreshTimerFired
  deriving DecidableEq

def SupervisorEvent.observedAt? : SupervisorEvent → Option Instant
  | .probeOk observedAt => some observedAt
  | .probeFailed _ observedAt => some observedAt
  | .refreshTimerFired => none

inductive RecoveryAction where
  | none
  | reconnect
  | rebuildConfig
  | reregister
  | rotateIdentity
  deriving DecidableEq

inductive Task where
  | recovery (action : RecoveryAction)
  | refresh
  deriving DecidableEq

inductive Record where
  | started (task : Task)
  | ended (task : Task) (result : Except Error Unit)

/-- The live generation; `installed` is history: when and why `replace` put it there, `none`
for the one `from_managed` began with. -/
structure Live where
  managed : ManagedTunnel
  installed : Option (Instant × ReplaceReason)

structure World where
  host : Host
  identityPool : IdentityPool
  creds : WarpCredentials
  wgConfig : WireGuardConfig
  consecutiveFailures : U8
  lastRecoveryCompleted : Option Instant
  healthy : Bool
  live : Live
  log : List Record

abbrev WorldM := EStateM Fault World

def hostLens : Lens World Host := ⟨World.host, fun w h => { w with host := h }⟩

def onHost {α : Type} (x : HostM α) : WorldM α := zoom hostLens x

def U8.saturatingSucc (n : U8) : U8 := ⟨min (n + 1) 255, by omega⟩

def replace (managed : ManagedTunnel) (reason : ReplaceReason) : WorldM Unit :=
  modify fun w => { w with live := ⟨managed, some (w.host.now, reason)⟩ }

def rebuild (env : Env) (cfg : WireGuardConfig) (reason : ReplaceReason) :
    WorldM WireGuardConfig := do
  let connected ← onHost (connectCandidate env cfg)
  replace connected.managed reason
  return connected.config

/-- The common end of `action_reregister` and `action_rotate`: handshake, commit, switch. -/
def activate (env : Env) (candidate : AccountCandidate) : WorldM Unit := do
  let connected ← onHost (connectCandidate env candidate.wgConfig)
  onHost (commitCandidate env candidate.accountFile)
  modify fun w => { w with creds := candidate.accountFile.credentials }
  modify fun w => { w with wgConfig := connected.config }
  replace connected.managed .recovery

def logged (task : Task) (x : WorldM Unit) : WorldM (Except Error Unit) := do
  modify fun w => { w with log := w.log ++ [.started task] }
  let result ← attempt Fault.error? x
  modify fun w => { w with log := w.log ++ [.ended task result] }
  return result

def actionReconnect (env : Env) : WorldM Unit := do
  let wg := (← get).wgConfig
  let activeWg ← rebuild env wg .recovery
  modify fun w => { w with wgConfig := activeWg }

def actionFor (r : RecoveryConfig) (n : U8) : RecoveryAction :=
  if r.rotateIdentityAfter ≤ n then .rotateIdentity
  else if r.reregisterAfter ≤ n then .reregister
  else if r.rebuildConfigAfter ≤ n then .rebuildConfig
  else if r.reconnectAfter ≤ n then .reconnect
  else .none

/-- The sleep of `backoff`: milliseconds are truncated to 64 bits and multiplied with
saturation. -/
def backoffDelay (r : RecoveryConfig) (n : U8) : Duration :=
  let minMs := Duration.asMillis r.backoffMin % 2 ^ 64
  let maxMs := Duration.asMillis r.backoffMax % 2 ^ 64
  let exp := min (n.val - 1) 16
  .fromMillis (min (saturatingMul minMs (min (2 ^ exp) u64Max)) maxMs)

def World.probeIsStale (w : World) (observedAt : Instant) : Bool :=
  w.lastRecoveryCompleted.any fun completed => decide (observedAt ≤ completed)

section
variable (cfg : Config) (env : Env)

def actionRebuildConfig (reason : ReplaceReason) : WorldM Unit := do
  let creds := (← get).creds
  let wg ← onHost (refreshConfig cfg.warp env creds)
  let activeWg ← rebuild env wg reason
  modify fun w => { w with wgConfig := activeWg }

def actionReregister : WorldM Unit := do
  match ← attempt Fault.error? (onHost (prepareReregister cfg.warp env)) with
  | .ok candidate => activate env candidate
  | .error _ => actionRebuildConfig cfg env .recovery

def actionRotate : WorldM Unit := do
  let (next, pool) := (← get).identityPool.nextIdentity
  modify fun w => { w with identityPool := pool }
  match next with
  | some file =>
    let candidate ← onHost (prepareIdentity cfg.warp env file)
    activate env candidate
  | none => actionReregister cfg env

def perform : RecoveryAction → WorldM Unit
  | .none => pure ()
  | .reconnect => actionReconnect env
  | .rebuildConfig => actionRebuildConfig cfg env .recovery
  | .reregister => actionReregister cfg env
  | .rotateIdentity => actionRotate cfg env

def backoff : WorldM Unit := do
  let n := (← get).consecutiveFailures
  onHost (modify fun h => h.pass (backoffDelay cfg.recovery n))
  onHost (pass env .backoff)

def escalate (action : RecoveryAction) : WorldM Unit := do
  backoff cfg env
  if action = .none then pure ()
  else
    match ← logged (.recovery action) (perform cfg env action) with
    | .error e => throw (.err e)
    | .ok _ =>
      onHost (pass env .mark)
      modify fun w => { w with lastRecoveryCompleted := some w.host.now }

def handleEvent : SupervisorEvent → WorldM Unit
  | .probeOk observedAt => do
    if (← get).probeIsStale observedAt then pure ()
    else
      modify fun w => { w with healthy := true }
      modify fun w => if 0 < w.consecutiveFailures then { w with consecutiveFailures := 0 } else w
  | .probeFailed _ observedAt => do
    if (← get).probeIsStale observedAt then pure ()
    else
      modify fun w => { w with healthy := false }
      let n := U8.saturatingSucc (← get).consecutiveFailures
      modify fun w => { w with consecutiveFailures := n }
      escalate cfg env (actionFor cfg.recovery n)
  | .refreshTimerFired => do
    let _ ← logged .refresh (actionRebuildConfig cfg env .refresh)

/-- `main::run` up to the construction of the supervisor. -/
def startUp (files : List String) : HostM World := do
  let snapshot ← loadOrRegister cfg.warp env
  let connected ← connectCandidate env snapshot.wgConfig
  return {
    host := ← get
    identityPool := .load files
    creds := snapshot.credentials
    wgConfig := connected.config
    consecutiveFailures := 0
    lastRecoveryCompleted := none
    healthy := false
    live := ⟨connected.managed, none⟩
    log := [] }

end
end WarpRust.Supervisor
