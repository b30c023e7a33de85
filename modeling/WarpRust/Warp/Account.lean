import WarpRust.Config
import WarpRust.Library.WeakestPre
import WarpRust.Tunnel.Connect

/-!
# The account manager

`AccountManager` with the file `account.json` and the two timestamps of the register
cooldown. Everything the outside decides while one event is handled, the answers of the
WARP API, the disk, the handshakes and how long each of them takes, is an `Env`; time
passes at the awaits and at the disk, not in between. `Fault.panic` is an arithmetic overflow.
-/

namespace WarpRust.Warp
open Library Tunnel

structure WarpCredentials where
  deviceId : String
  accessToken : String
  privateKey : Key
  licenseKey : String
  clientId : Option (BitVec 24)
  isTeams : Bool
  deriving DecidableEq

structure AccountFile where
  credentials : WarpCredentials
  registeredAt : ℕ
  deriving DecidableEq

structure AccountSnapshot where
  wgConfig : WireGuardConfig
  credentials : WarpCredentials

structure AccountCandidate where
  wgConfig : WireGuardConfig
  accountFile : AccountFile

structure RegistrationOptions where
  deviceModel : String
  licenseKey : Option String

structure IdentityPool where
  files : List String
  nextIdx : ℕ

namespace IdentityPool

def load (files : List String) : IdentityPool := ⟨files, 0⟩

def nextIdentity (pool : IdentityPool) : Option String × IdentityPool :=
  if pool.files.isEmpty then (none, pool)
  else
    let idx := pool.nextIdx % pool.files.length
    (pool.files[idx]?, { pool with nextIdx := (pool.nextIdx + 1) % 2 ^ 64 })

end IdentityPool

inductive Fault where
  | err (e : Error)
  | panic
  deriving DecidableEq

def Fault.error? : Fault → Option Error
  | .err e => some e
  | .panic => none

/-- How `persistence::save` ends. It may fail before the rename or after it. -/
inductive Saved where
  | ok
  | keptOld (e : Error)
  | installedNew (e : Error)

inductive Stage where
  | backoff
  | load
  | register
  | getConfig
  | connect
  | save
  | mark
  deriving DecidableEq

structure Env where
  network : Network
  readError : Option Error
  identity : String → Except Error (Option AccountFile)
  getConfig : WarpCredentials → Except Error WireGuardConfig
  register : RegistrationOptions → Except Error (WireGuardConfig × WarpCredentials)
  saved : Saved
  elapse : Stage → Duration

/-- What the account manager and the handshakes read and leave behind. `registers` and
`connects` are history: the calls of the register API with their times, and the
configurations that `connect_candidate` was started with. -/
structure Host where
  now : Instant
  accountJson : Option AccountFile
  lastRegisterAttempt : Option Instant
  registers : List Instant
  connects : List WireGuardConfig

def Host.start (now : Instant) (accountJson : Option AccountFile) : Host :=
  ⟨now, accountJson, none, [], []⟩

def Host.pass (h : Host) (d : Duration) : Host := { h with now := h.now + d }

section
variable (h : Host) (d : Duration)

@[simp] theorem Host.pass_now : (h.pass d).now = h.now + d := rfl
@[simp] theorem Host.pass_accountJson : (h.pass d).accountJson = h.accountJson := rfl
@[simp] theorem Host.pass_lastRegisterAttempt :
    (h.pass d).lastRegisterAttempt = h.lastRegisterAttempt := rfl
@[simp] theorem Host.pass_registers : (h.pass d).registers = h.registers := rfl
@[simp] theorem Host.pass_connects : (h.pass d).connects = h.connects := rfl

end

abbrev HostM := EStateM Fault Host

def pass (env : Env) (stage : Stage) : HostM Unit := modify fun h => h.pass (env.elapse stage)

def lift {σ α : Type} (r : Except Error α) : EStateM Fault σ α := ofExcept (r.mapError Fault.err)

def load (env : Env) (h : Host) : Except Error (Option AccountFile) :=
  match env.readError with
  | some e => .error e
  | none => .ok h.accountJson

def save (env : Env) (file : AccountFile) : HostM Unit := do
  pass env .save
  match env.saved with
  | .ok => modify fun h => { h with accountJson := some file }
  | .keptOld e => throw (.err e)
  | .installedNew e =>
    modify fun h => { h with accountJson := some file }
    throw (.err e)

def connectCandidate (env : Env) (cfg : WireGuardConfig) : HostM ConnectedTunnel := do
  modify fun h => { h with connects := h.connects ++ [cfg] }
  pass env .connect
  lift (Tunnel.connectCandidate env.network cfg)

def getConfig (env : Env) (creds : WarpCredentials) : HostM WireGuardConfig := do
  pass env .getConfig
  lift (env.getConfig creds)

section
variable (cfg : WarpConfig)

def applyTransportTuning (wgConfig : WireGuardConfig) : WireGuardConfig :=
  { wgConfig with mtu := some cfg.mtu, tcpBufferSize := some cfg.tcpBufferSize }

def registerCandidate (env : Env) : HostM AccountCandidate := do
  let options : RegistrationOptions := ⟨cfg.deviceModel, cfg.licenseKey⟩
  modify fun h => { h with registers := h.registers ++ [h.now] }
  pass env .register
  let (wgConfig, credentials) ← lift (env.register options)
  let now := Duration.asSecs (← get).now
  return ⟨applyTransportTuning cfg wgConfig, credentials, now⟩

def loadOrRegister (env : Env) : HostM AccountSnapshot := do
  pass env .load
  match ← lift (load env (← get)) with
  | some file =>
    let wgConfig ← getConfig env file.credentials
    return ⟨applyTransportTuning cfg wgConfig, file.credentials⟩
  | none =>
    let candidate ← registerCandidate cfg env
    save env candidate.accountFile
    return ⟨candidate.wgConfig, candidate.accountFile.credentials⟩

def cooldownError (remaining : Duration) : Error :=
  .other [.lit "register cooldown active, ", .nat remaining.asSecs, .lit "s remaining"]

def attemptCooldownError (remaining : Duration) : Error :=
  .other [.lit "register cooldown active after recent attempt, ", .nat remaining.asSecs,
    .lit "s remaining"]

/-- The first check of `prepare_reregister`. The addition to the epoch overflows from `2^63`
seconds on; a time in the future is no reason to wait. -/
def checkRegisteredAt (now : Instant) : Option AccountFile → Except Fault Unit
  | none => .ok ⟨⟩
  | some file =>
    if 2 ^ 63 ≤ file.registeredAt then .error .panic
    else
      let last := Duration.fromSecs file.registeredAt
      if last ≤ now ∧ now - last < cfg.registerCooldown then
        .error (.err (cooldownError (cfg.registerCooldown - (now - last))))
      else .ok ⟨⟩

def checkLastAttempt (now : Instant) : Option Instant → Except Fault Unit
  | none => .ok ⟨⟩
  | some last =>
    if now - last < cfg.registerCooldown then
      .error (.err (attemptCooldownError (cfg.registerCooldown - (now - last))))
    else .ok ⟨⟩

def prepareReregister (env : Env) : HostM AccountCandidate := do
  pass env .load
  let file ← lift (load env (← get))
  ofExcept (checkRegisteredAt cfg (← get).now file)
  ofExcept (checkLastAttempt cfg (← get).now (← get).lastRegisterAttempt)
  modify fun h => { h with lastRegisterAttempt := some h.now }
  registerCandidate cfg env

def refreshConfig (env : Env) (creds : WarpCredentials) : HostM WireGuardConfig := do
  let wgConfig ← getConfig env creds
  return applyTransportTuning cfg wgConfig

def identityGoneError (source : String) : Error :=
  .other [.lit "identity file disappeared: ", .lit source]

def prepareIdentity (env : Env) (source : String) : HostM AccountCandidate := do
  pass env .load
  match ← lift (env.identity source) with
  | none => throw (.err (identityGoneError source))
  | some file =>
    let wgConfig ← getConfig env file.credentials
    return ⟨applyTransportTuning cfg wgConfig, file⟩

end

def commitCandidate (env : Env) (file : AccountFile) : HostM Unit := save env file

def Host.connecting (h : Host) (env : Env) (cfg : WireGuardConfig) : Host :=
  { h.pass (env.elapse .connect) with connects := h.connects ++ [cfg] }

def Host.registering (h : Host) (env : Env) : Host :=
  { h.pass (env.elapse .register) with registers := h.registers ++ [h.now] }

/-- The answer of the register API as a candidate, stamped with the time it came. -/
def Env.candidate (env : Env) (cfg : WarpConfig) (now : Instant) : Except Error AccountCandidate :=
  (env.register ⟨cfg.deviceModel, cfg.licenseKey⟩).map fun (wgConfig, credentials) =>
    ⟨applyTransportTuning cfg wgConfig, credentials, Duration.asSecs now⟩

def checkCooldown (cfg : WarpConfig) (env : Env) (h : Host) : Except Fault Unit :=
  match load env h with
  | .error e => .error (.err e)
  | .ok file =>
    match checkRegisteredAt cfg h.now file with
    | .error f => .error f
    | .ok _ => checkLastAttempt cfg h.now h.lastRegisterAttempt

section rules
variable {cfg : WarpConfig} {env : Env} {h : Host}

@[simp] theorem wp_lift {σ α : Type} {r : Except Error α} {Q : Except Fault α → σ → Prop} {s : σ} :
    wp (lift r : EStateM Fault σ α) Q s = Q (r.mapError Fault.err) s := wp_ofExcept

@[simp] theorem wp_pass {stage : Stage} {Q : Except Fault Unit → Host → Prop} :
    wp (pass env stage) Q h = Q (.ok ⟨⟩) (h.pass (env.elapse stage)) := rfl

theorem wp_connectCandidate {wgConfig : WireGuardConfig}
    {Q : Except Fault ConnectedTunnel → Host → Prop} :
    wp (connectCandidate env wgConfig) Q h =
      Q ((Tunnel.connectCandidate env.network wgConfig).mapError .err)
        (h.connecting env wgConfig) := by
  simp only [connectCandidate, wp_bind, wp_modify, wp_pass, wp_lift, andThen_ok]
  rfl

theorem wp_getConfig {creds : WarpCredentials} {Q : Except Fault WireGuardConfig → Host → Prop} :
    wp (getConfig env creds) Q h =
      Q ((env.getConfig creds).mapError .err) (h.pass (env.elapse .getConfig)) := by
  simp only [getConfig, wp_bind, wp_pass, andThen_ok, wp_lift]

theorem wp_refreshConfig {creds : WarpCredentials}
    {Q : Except Fault WireGuardConfig → Host → Prop} :
    wp (refreshConfig cfg env creds) Q h =
      Q (((env.getConfig creds).map (applyTransportTuning cfg)).mapError .err)
        (h.pass (env.elapse .getConfig)) := by
  simp only [refreshConfig, wp_bind, wp_getConfig]
  cases env.getConfig creds <;> rfl

theorem wp_save {file : AccountFile} {Q : Except Fault Unit → Host → Prop} :
    wp (save env file) Q h =
      match env.saved with
      | .ok => Q (.ok ⟨⟩) { h.pass (env.elapse .save) with accountJson := some file }
      | .keptOld e => Q (.error (.err e)) (h.pass (env.elapse .save))
      | .installedNew e =>
        Q (.error (.err e)) { h.pass (env.elapse .save) with accountJson := some file } := by
  simp only [save, wp_bind, wp_pass, andThen_ok]
  cases env.saved <;> rfl

theorem wp_registerCandidate {Q : Except Fault AccountCandidate → Host → Prop} :
    wp (registerCandidate cfg env) Q h =
      Q ((env.candidate cfg (h.now + env.elapse .register)).mapError .err)
        (h.registering env) := by
  simp only [registerCandidate, wp_bind, wp_modify, wp_pass, andThen_ok, wp_lift, Env.candidate]
  cases env.register ⟨cfg.deviceModel, cfg.licenseKey⟩ <;> rfl

theorem wp_prepareReregister {Q : Except Fault AccountCandidate → Host → Prop} :
    wp (prepareReregister cfg env) Q h =
      match checkCooldown cfg env (h.pass (env.elapse .load)) with
      | .error f => Q (.error f) (h.pass (env.elapse .load))
      | .ok _ =>
        wp (registerCandidate cfg env) Q
          { h.pass (env.elapse .load) with
            lastRegisterAttempt := some (h.pass (env.elapse .load)).now } := by
  simp only [prepareReregister, checkCooldown, wp_bind, wp_pass, wp_get, wp_lift, andThen_ok]
  generalize h.pass (env.elapse .load) = h₁
  cases load env h₁ with
  | error e => rfl
  | ok file =>
    simp only [Except.mapError, andThen_ok, wp_bind, wp_get, wp_ofExcept]
    cases checkRegisteredAt cfg h₁.now file with
    | error f => rfl
    | ok _ =>
      simp only [andThen_ok, wp_bind, wp_get, wp_ofExcept]
      cases checkLastAttempt cfg h₁.now h₁.lastRegisterAttempt <;> rfl

theorem wp_prepareIdentity {source : String} {Q : Except Fault AccountCandidate → Host → Prop} :
    wp (prepareIdentity cfg env source) Q h =
      match env.identity source with
      | .error e => Q (.error (.err e)) (h.pass (env.elapse .load))
      | .ok none => Q (.error (.err (identityGoneError source))) (h.pass (env.elapse .load))
      | .ok (some file) =>
        Q (((env.getConfig file.credentials).map
            fun wgConfig => ⟨applyTransportTuning cfg wgConfig, file⟩).mapError .err)
          ((h.pass (env.elapse .load)).pass (env.elapse .getConfig)) := by
  simp only [prepareIdentity, wp_bind, wp_pass, andThen_ok, wp_lift]
  cases env.identity source with
  | error e => rfl
  | ok file =>
    cases file with
    | none => rfl
    | some file =>
      simp only [Except.mapError, andThen_ok, wp_bind, wp_getConfig]
      cases env.getConfig file.credentials <;> rfl

end rules
end WarpRust.Warp
