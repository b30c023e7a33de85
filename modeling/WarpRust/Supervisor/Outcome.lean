import WarpRust.Supervisor.Recovery

/-!
# What one recovery can do

Every way a recovery action or a scheduled refresh can end, as one relation between the
world before and after: stopped before any handshake, refused by every endpoint, rebuilt for
the same account, switched to another account, or not committed. The results about
the supervisor are read off it by cases.
-/

namespace WarpRust.Supervisor
open Library Tunnel Warp

def Fetches (env : Env) (creds : WarpCredentials) : Prop := ∃ wg, env.getConfig creds = .ok wg

def ReregisterConnects (cfg : WarpConfig) (env : Env) (h : Host) (creds : WarpCredentials) : Prop :=
  match checkCooldown cfg env (h.pass (env.elapse .load)) with
  | .ok _ => (∃ r, env.register ⟨cfg.deviceModel, cfg.licenseKey⟩ = .ok r) ∨ Fetches env creds
  | .error (.err _) => Fetches env creds
  | .error .panic => False

def Connects (cfg : Config) (env : Env) (w : World) : RecoveryAction → Prop
  | .none => False
  | .reconnect => True
  | .rebuildConfig => Fetches env w.creds
  | .reregister => ReregisterConnects cfg.warp env w.host w.creds
  | .rotateIdentity =>
    match w.identityPool.nextIdentity.1 with
    | some source => ∃ file, env.identity source = .ok (some file) ∧ Fetches env file.credentials
    | none => ReregisterConnects cfg.warp env w.host w.creds

def Reregisters (w : World) : RecoveryAction → Prop
  | .reregister => True
  | .rotateIdentity => w.identityPool.nextIdentity.1 = none
  | _ => False

def Registers (cfg : Config) (env : Env) (w : World) (a : RecoveryAction) : Prop :=
  Reregisters w a ∧ checkCooldown cfg.warp env (w.host.pass (env.elapse .load)) = .ok ()

/-- What the steps before a handshake leave of the host: only the register API may have been
called, and the attempt is noted. -/
structure Prelude (env : Env) (w : World) (registers : Prop) (h : Host) : Prop where
  now_le : w.host.now ≤ h.now
  accountJson : h.accountJson = w.host.accountJson
  connects : h.connects = w.host.connects
  attempted : registers →
    h.registers = w.host.registers ++ [w.host.now + env.elapse .load] ∧
      h.lastRegisterAttempt = some (w.host.now + env.elapse .load)
  attempted_le : registers → w.host.now + env.elapse .load ≤ h.now
  quiet : ¬ registers →
    h.registers = w.host.registers ∧ h.lastRegisterAttempt = w.host.lastRegisterAttempt

def Fetched (cfg : WarpConfig) (env : Env) (creds : WarpCredentials) (wg : WireGuardConfig) :
    Prop := ∃ raw, env.getConfig creds = .ok raw ∧ wg = applyTransportTuning cfg raw

inductive Prepared (cfg : WarpConfig) (env : Env) (c : AccountCandidate) : Prop
  | registered (raw : WireGuardConfig)
      (hraw : env.register ⟨cfg.deviceModel, cfg.licenseKey⟩ = .ok (raw, c.accountFile.credentials))
      (hwg : c.wgConfig = applyTransportTuning cfg raw)
  | identity (hwg : Fetched cfg env c.accountFile.credentials c.wgConfig)

def World.connecting (w : World) (env : Env) (wg : WireGuardConfig) : World :=
  { w with host := w.host.connecting env wg }

def World.adopt (w : World) (t : ConnectedTunnel) (reason : ReplaceReason) : World :=
  { w with live := ⟨t.managed, some (w.host.now, reason)⟩, wgConfig := t.config }

def World.saving (w : World) (env : Env) (json : Option AccountFile) : World :=
  { w with host := { w.host.pass (env.elapse .save) with accountJson := json } }

def World.at (w : World) (h : Host) (pool : IdentityPool) : World :=
  { w with host := h, identityPool := pool }

inductive Attempted (cfg : WarpConfig) (env : Env) (w : World) (reason : ReplaceReason)
    (connects registers : Prop) : Except Fault Unit → World → Prop
  | stopped {h : Host} {pool : IdentityPool} {f : Fault} (hh : Prelude env w registers h)
      (hconn : ¬ connects) : Attempted cfg env w reason connects registers (.error f) (w.at h pool)
  | refused {h : Host} {pool : IdentityPool} {wg : WireGuardConfig} {e : Error}
      (hh : Prelude env w registers h) (hconn : connects) :
      Attempted cfg env w reason connects registers (.error (.err e))
        ((w.at h pool).connecting env wg)
  | rebuilt {h : Host} {pool : IdentityPool} {wg : WireGuardConfig} {t : ConnectedTunnel}
      (hh : Prelude env w registers h) (hconn : connects)
      (hwg : wg = w.wgConfig ∨ Fetched cfg env w.creds wg) (ht : t.For wg) :
      Attempted cfg env w reason connects registers (.ok ())
        (((w.at h pool).connecting env wg).adopt t reason)
  | unsaved {h : Host} {pool : IdentityPool} {c : AccountCandidate} {e : Error}
      {json : Option AccountFile} (hreason : reason = .recovery) (hh : Prelude env w registers h)
      (hconn : connects)
      (hsaved : env.saved = .keptOld e ∧ json = w.host.accountJson ∨
        env.saved = .installedNew e ∧ json = some c.accountFile) :
      Attempted cfg env w reason connects registers (.error (.err e))
        (((w.at h pool).connecting env c.wgConfig).saving env json)
  | switched {h : Host} {pool : IdentityPool} {c : AccountCandidate} {t : ConnectedTunnel}
      (hreason : reason = .recovery) (hh : Prelude env w registers h) (hconn : connects)
      (hc : Prepared cfg env c) (ht : t.For c.wgConfig) :
      Attempted cfg env w reason connects registers (.ok ())
        { (((w.at h pool).connecting env c.wgConfig).saving env (some c.accountFile)).adopt t
            .recovery with creds := c.accountFile.credentials }

section
variable {cfg : Config} {env : Env} {w : World} {h : Host} {pool : IdentityPool}
  {reason : ReplaceReason} {connects registers : Prop}

theorem Prelude.pass (env : Env) (w : World) (hreg : ¬ registers) (d : Duration) :
    Prelude env w registers (w.host.pass d) where
  now_le := Nat.le_add_right _ _
  accountJson := rfl
  connects := rfl
  attempted := fun h => absurd h hreg
  attempted_le := fun h => absurd h hreg
  quiet := fun _ => ⟨rfl, rfl⟩

theorem Prelude.then_pass (hh : Prelude env w registers h) (d : Duration) :
    Prelude env w registers (h.pass d) where
  now_le := Nat.le_trans hh.now_le (Nat.le_add_right _ _)
  accountJson := hh.accountJson
  connects := hh.connects
  attempted := hh.attempted
  attempted_le := fun h => Nat.le_trans (hh.attempted_le h) (Nat.le_add_right _ _)
  quiet := hh.quiet

@[simp] theorem wp_onHost {α : Type} {x : HostM α} {Q : Except Fault α → World → Prop} :
    wp (onHost x) Q w = wp x (fun r h => Q r { w with host := h }) w.host := wp_zoom

theorem wp_rebuild {wg : WireGuardConfig} {Q : Except Fault WireGuardConfig → World → Prop} :
    wp (rebuild env wg reason) Q w =
      match Tunnel.connectCandidate env.network wg with
      | .error e => Q (.error (.err e)) (w.connecting env wg)
      | .ok t => Q (.ok t.config)
          { w.connecting env wg with
            live := ⟨t.managed, some ((w.connecting env wg).host.now, reason)⟩ } := by
  simp only [rebuild, wp_bind, wp_onHost, wp_connectCandidate]
  cases Tunnel.connectCandidate env.network wg <;> rfl

theorem rebuild_attempted {wg : WireGuardConfig} (hh : Prelude env w registers h)
    (hconn : connects) (hwg : wg = w.wgConfig ∨ Fetched cfg.warp env w.creds wg) :
    wp (rebuild env wg reason)
      (andThen (fun activeWg => modify fun w => { w with wgConfig := activeWg })
        (Attempted cfg.warp env w reason connects registers)) (w.at h pool) := by
  rw [wp_rebuild]
  cases ht : Tunnel.connectCandidate env.network wg with
  | error e => exact .refused hh hconn
  | ok t => exact .rebuilt hh hconn hwg (connectCandidate_for ht)

theorem reconnect_attempted (hh : Prelude env w registers h) (hconn : connects) :
    wp (actionReconnect env) (Attempted cfg.warp env w .recovery connects registers)
      (w.at h pool) := by
  simp only [actionReconnect, wp_bind, wp_get, andThen_ok]
  exact rebuild_attempted hh hconn (.inl rfl)

theorem rebuildConfig_attempted (hh : Prelude env w registers h)
    (hconn : connects ↔ Fetches env w.creds) :
    wp (actionRebuildConfig cfg env reason) (Attempted cfg.warp env w reason connects registers)
      (w.at h pool) := by
  simp only [actionRebuildConfig, wp_bind, wp_get, andThen_ok, wp_onHost, wp_refreshConfig]
  rw [show (w.at h pool).creds = w.creds from rfl]
  cases hget : env.getConfig w.creds with
  | error e =>
    apply Attempted.stopped (hh.then_pass _)
    intro hc
    obtain ⟨wg, hwg⟩ := hconn.mp hc
    rw [hget] at hwg
    cases hwg
  | ok raw =>
    simp only [Except.map, Except.mapError, andThen_ok, wp_bind]
    exact rebuild_attempted (hh.then_pass _) (hconn.mpr ⟨raw, hget⟩) (.inr ⟨raw, hget, rfl⟩)

theorem activate_attempted {c : AccountCandidate} (hh : Prelude env w registers h)
    (hconn : connects) (hc : Prepared cfg.warp env c) :
    wp (activate env c) (Attempted cfg.warp env w .recovery connects registers) (w.at h pool) := by
  simp only [activate, wp_bind, wp_onHost, wp_connectCandidate]
  cases ht : Tunnel.connectCandidate env.network c.wgConfig with
  | error e => exact .refused hh hconn
  | ok t =>
    simp only [Except.mapError, andThen_ok, wp_bind, wp_onHost, commitCandidate, wp_save]
    cases hsaved : env.saved with
    | ok => exact .switched rfl hh hconn hc (connectCandidate_for ht)
    | keptOld e =>
      exact Attempted.unsaved rfl hh hconn (.inl ⟨hsaved, hh.accountJson⟩)
    | installedNew e => exact .unsaved rfl hh hconn (.inr ⟨hsaved, rfl⟩)

theorem Prelude.registering (env : Env) (w : World) (hreg : registers) :
    Prelude env w registers
      (Host.registering { w.host.pass (env.elapse .load) with
        lastRegisterAttempt := some (w.host.pass (env.elapse .load)).now } env) where
  now_le := Nat.le_trans (Nat.le_add_right _ _) (Nat.le_add_right _ _)
  accountJson := rfl
  connects := rfl
  attempted := fun _ => ⟨rfl, rfl⟩
  attempted_le := fun _ => Nat.le_add_right _ _
  quiet := fun h => absurd hreg h

theorem reregister_attempted
    (hconn : connects ↔ ReregisterConnects cfg.warp env w.host w.creds)
    (hreg : registers ↔
      checkCooldown cfg.warp env (w.host.pass (env.elapse .load)) = .ok ()) :
    wp (actionReregister cfg env) (Attempted cfg.warp env w .recovery connects registers)
      (w.at w.host pool) := by
  simp only [actionReregister, wp_bind, wp_attempt, wp_onHost]
  rw [show (w.at w.host pool).host = w.host from rfl, wp_prepareReregister]
  unfold ReregisterConnects at hconn
  cases hcheck : checkCooldown cfg.warp env (w.host.pass (env.elapse .load)) with
  | error f =>
    rw [hcheck] at hconn hreg
    have hreg' : ¬ registers := fun h => by cases hreg.mp h
    cases f with
    | err e => exact rebuildConfig_attempted (Prelude.pass env w hreg' _) hconn
    | panic => exact .stopped (Prelude.pass env w hreg' _) hconn.mp
  | ok _ =>
    rw [hcheck] at hconn hreg
    have hh := Prelude.registering env w (hreg.mpr rfl)
    simp only [wp_registerCandidate, Env.candidate]
    cases hraw : env.register ⟨cfg.warp.deviceModel, cfg.warp.licenseKey⟩ with
    | error e =>
      apply rebuildConfig_attempted hh
      rw [hconn, hraw, or_iff_right]
      rintro ⟨r, hr⟩
      cases hr
    | ok r => exact activate_attempted hh (hconn.mpr (.inl ⟨r, hraw⟩)) (.registered r.1 hraw rfl)

theorem rotate_attempted (hconn : connects ↔ Connects cfg env w .rotateIdentity)
    (hreg : registers ↔ Registers cfg env w .rotateIdentity) :
    wp (actionRotate cfg env) (Attempted cfg.warp env w .recovery connects registers) w := by
  simp only [actionRotate, wp_bind, wp_get, andThen_ok, wp_modify]
  simp only [Connects, Registers, Reregisters] at hconn hreg
  cases hnext : w.identityPool.nextIdentity.1 with
  | none =>
    rw [hnext] at hconn hreg
    exact reregister_attempted hconn (hreg.trans (and_iff_right rfl))
  | some source =>
    rw [hnext] at hconn hreg
    have hreg' : ¬ registers := fun h => by cases (hreg.mp h).1
    have hh := Prelude.pass env w hreg' (env.elapse .load)
    simp only [wp_bind, wp_onHost, wp_prepareIdentity]
    cases hfile : env.identity source with
    | error e =>
      apply Attempted.stopped hh
      intro hc
      obtain ⟨file, hfile', _⟩ := hconn.mp hc
      rw [hfile] at hfile'
      cases hfile'
    | ok file =>
      cases file with
      | none =>
        apply Attempted.stopped hh
        intro hc
        obtain ⟨file, hfile', _⟩ := hconn.mp hc
        rw [hfile] at hfile'
        cases hfile'
      | some file =>
        cases hget : env.getConfig file.credentials with
        | error e =>
          simp only [hget, Except.map, Except.mapError, andThen_error]
          apply Attempted.stopped (hh.then_pass _)
          intro hc
          obtain ⟨file', hfile', wg, hwg⟩ := hconn.mp hc
          obtain rfl := Option.some.inj (Except.ok.inj (hfile.symm.trans hfile'))
          rw [hget] at hwg
          cases hwg
        | ok raw =>
          simp only [hget, Except.map, Except.mapError, andThen_ok]
          exact activate_attempted (hh.then_pass _) (hconn.mpr ⟨file, hfile, raw, hget⟩)
            (.identity ⟨raw, hget, rfl⟩)

theorem perform_attempted {a : RecoveryAction} (ha : a ≠ .none) :
    wp (perform cfg env a)
      (Attempted cfg.warp env w .recovery (Connects cfg env w a) (Registers cfg env w a)) w := by
  cases a with
  | none => exact absurd rfl ha
  | reconnect =>
    have hreg : ¬ Registers cfg env w .reconnect := fun h => h.1
    exact reconnect_attempted (Prelude.pass env w hreg 0) trivial
  | rebuildConfig =>
    have hreg : ¬ Registers cfg env w .rebuildConfig := fun h => h.1
    exact rebuildConfig_attempted (Prelude.pass env w hreg 0) Iff.rfl
  | reregister => exact reregister_attempted Iff.rfl (and_iff_right trivial)
  | rotateIdentity => exact rotate_attempted Iff.rfl Iff.rfl

theorem refresh_attempted :
    wp (actionRebuildConfig cfg env .refresh)
      (Attempted cfg.warp env w .refresh (Fetches env w.creds) False) w :=
  rebuildConfig_attempted (Prelude.pass env w not_false 0) Iff.rfl

end

def World.noted (w : World) (r : Record) : World := { w with log := w.log ++ [r] }

def World.ended (w : World) (task : Task) : Except Fault Unit → World
  | .ok _ => w.noted (.ended task (.ok ()))
  | .error (.err e) => w.noted (.ended task (.error e))
  | .error .panic => w

def World.settled (w : World) (env : Env) (a : RecoveryAction) : Except Fault Unit → World
  | .ok _ =>
    { w.noted (.ended (.recovery a) (.ok ())) with
      host := w.host.pass (env.elapse .mark)
      lastRecoveryCompleted := some (w.host.pass (env.elapse .mark)).now }
  | .error f => w.ended (.recovery a) (.error f)

def World.slept (w : World) (cfg : Config) (env : Env) : World :=
  { w with
    host := (w.host.pass (backoffDelay cfg.recovery w.consecutiveFailures)).pass
      (env.elapse .backoff) }

def World.failed (w : World) (cfg : Config) (env : Env) : World :=
  { w with
    healthy := false
    consecutiveFailures := U8.saturatingSucc w.consecutiveFailures }.slept cfg env

theorem World.failed_host (w : World) (cfg : Config) (env : Env) :
    (w.failed cfg env).host =
      (w.host.pass (backoffDelay cfg.recovery (U8.saturatingSucc w.consecutiveFailures))).pass
        (env.elapse .backoff) := rfl

-- by rewriting, not by `rfl`: nothing may unfold the arithmetic of the backoff
theorem World.failed_connects (w : World) (cfg : Config) (env : Env) :
    (w.failed cfg env).host.connects = w.host.connects := by
  rw [World.failed_host, Host.pass_connects, Host.pass_connects]

@[simp] theorem World.noted_host (w : World) (r : Record) : (w.noted r).host = w.host := rfl

def World.nextAction (w : World) (cfg : Config) : RecoveryAction :=
  actionFor cfg.recovery (U8.saturatingSucc w.consecutiveFailures)

def refreshResult : Except Fault Unit → Except Fault Unit
  | .error .panic => .error .panic
  | _ => .ok ()

inductive Handled (cfg : Config) (env : Env) (w : World) :
    SupervisorEvent → Except Fault Unit → World → Prop
  | stale {e : SupervisorEvent} {o : Instant} (ho : e.observedAt? = some o)
      (hstale : w.probeIsStale o = true) : Handled cfg env w e (.ok ()) w
  | probeOk {o : Instant} (hstale : w.probeIsStale o = false) :
      Handled cfg env w (.probeOk o) (.ok ()) { w with healthy := true, consecutiveFailures := 0 }
  | waited {reason : Text} {o : Instant} (hstale : w.probeIsStale o = false)
      (ha : w.nextAction cfg = .none) :
      Handled cfg env w (.probeFailed reason o) (.ok ()) (w.failed cfg env)
  | recovery {reason : Text} {o : Instant} {r : Except Fault Unit} {w' : World}
      (hstale : w.probeIsStale o = false) (ha : w.nextAction cfg ≠ .none)
      (hw : Attempted cfg.warp env
        ((w.failed cfg env).noted (.started (.recovery (w.nextAction cfg)))) .recovery
        (Connects cfg env (w.failed cfg env) (w.nextAction cfg))
        (Registers cfg env (w.failed cfg env) (w.nextAction cfg)) r w') :
      Handled cfg env w (.probeFailed reason o) r (w'.settled env (w.nextAction cfg) r)
  | refresh {r : Except Fault Unit} {w' : World}
      (hw : Attempted cfg.warp env (w.noted (.started .refresh)) .refresh (Fetches env w.creds)
        False r w') :
      Handled cfg env w .refreshTimerFired (refreshResult r) (w'.ended .refresh r)

section
variable {cfg : Config} {env : Env} {w : World}

@[simp] theorem World.ended_host {r : Except Fault Unit} {task : Task} :
    (w.ended task r).host = w.host := by
  match r with
  | .ok () => rfl
  | .error (.err e) => rfl
  | .error .panic => rfl

theorem wp_logged {task : Task} {x : WorldM Unit}
    {Q : Except Fault (Except Error Unit) → World → Prop} :
    wp (logged task x) Q w =
      wp x (fun r w' =>
        match r with
        | .ok _ => Q (.ok (.ok ())) (w'.ended task r)
        | .error (.err e) => Q (.ok (.error e)) (w'.ended task r)
        | .error .panic => Q (.error .panic) (w'.ended task r)) (w.noted (.started task)) := by
  simp only [logged, wp_bind, wp_modify, andThen_ok, wp_attempt]
  apply congrArg (fun P => wp x P (w.noted (.started task)))
  funext r w'
  match r with
  | .ok () => rfl
  | .error (.err e) => rfl
  | .error .panic => rfl

theorem wp_backoff {Q : Except Fault Unit → World → Prop} :
    wp (backoff cfg env) Q w = Q (.ok ()) (w.slept cfg env) := by
  simp only [backoff, wp_bind, wp_get, andThen_ok, wp_onHost, wp_modify, wp_pass]
  rfl

theorem wp_escalate {a : RecoveryAction} (ha : a ≠ .none) {Q : Except Fault Unit → World → Prop} :
    wp (escalate cfg env a) Q w =
      wp (perform cfg env a) (fun r w' => Q r (w'.settled env a r))
        ((w.slept cfg env).noted (.started (.recovery a))) := by
  simp only [escalate, wp_bind, wp_backoff, andThen_ok, if_neg ha, wp_logged]
  apply congrArg (fun P => wp (perform cfg env a) P _)
  funext r w'
  match r with
  | .ok () => rfl
  | .error (.err e) => rfl
  | .error .panic => rfl

theorem escalate_handled {reason : Text} {o : Instant} (hstale : w.probeIsStale o = false) :
    wp (escalate cfg env (w.nextAction cfg))
      (Handled cfg env w (.probeFailed reason o))
      { w with
        healthy := false
        consecutiveFailures := U8.saturatingSucc w.consecutiveFailures } := by
  by_cases ha : w.nextAction cfg = .none
  · simp only [ha, escalate, wp_bind, wp_backoff, andThen_ok, if_true, wp_pure]
    exact .waited hstale ha
  · rw [wp_escalate ha]
    apply wp_mono (perform_attempted ha)
    intro r w' hw
    exact .recovery hstale ha hw

theorem handleEvent_handled (e : SupervisorEvent) :
    wp (handleEvent cfg env e) (Handled cfg env w e) w := by
  cases e with
  | probeOk o =>
    simp only [handleEvent, wp_bind, wp_get, andThen_ok]
    cases hstale : w.probeIsStale o with
    | true => exact .stale rfl hstale
    | false =>
      simp only [Bool.false_eq_true, if_false, wp_bind, wp_modify, andThen_ok]
      have hfails : (if 0 < w.consecutiveFailures
          then { w with healthy := true, consecutiveFailures := 0 }
          else { w with healthy := true }) =
          { w with healthy := true, consecutiveFailures := 0 } := by
        split
        next => rfl
        next h => rw [Fin.le_zero_iff.mp (not_lt.mp h)]
      rw [hfails]
      exact .probeOk hstale
  | probeFailed reason o =>
    simp only [handleEvent, wp_bind, wp_get, andThen_ok]
    cases hstale : w.probeIsStale o with
    | true => exact .stale rfl hstale
    | false =>
      simp only [Bool.false_eq_true, if_false, wp_bind, wp_modify, wp_get, andThen_ok]
      exact escalate_handled hstale
  | refreshTimerFired =>
    simp only [handleEvent, wp_bind, wp_logged]
    apply wp_mono refresh_attempted
    intro r w' hw
    match r with
    | .ok () => exact .refresh hw
    | .error (.err e) => exact .refresh hw
    | .error .panic => exact .refresh hw

end
end WarpRust.Supervisor
