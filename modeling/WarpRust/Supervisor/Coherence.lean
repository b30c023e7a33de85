import WarpRust.Supervisor.Loop

/-!
# The account and the tunnel stay coherent

Between two events the live tunnel, the configuration kept for it, the credentials in memory
and `account.json` belong to one account, and a recovery that fails leaves all four alone.
-/

namespace WarpRust.Supervisor
open Library Tunnel Warp

/-- What is assumed of the outside: the API answers with the key of the credentials, and a
save that fails has not touched the old file. -/
structure Faithful (env : Env) : Prop where
  getConfig_key : ∀ creds wg, env.getConfig creds = .ok wg → wg.privateKey = creds.privateKey
  register_key : ∀ options wg creds, env.register options = .ok (wg, creds) →
    wg.privateKey = creds.privateKey
  saved_ne : ∀ e, env.saved ≠ .installedNew e

/-- `wg` has the key of `creds` and the configured transport parameters. -/
structure Fits (cfg : WarpConfig) (creds : WarpCredentials) (wg : WireGuardConfig) : Prop where
  key_eq : wg.privateKey = creds.privateKey
  mtu_eq : wg.mtu = some cfg.mtu
  tcpBufferSize_eq : wg.tcpBufferSize = some cfg.tcpBufferSize

structure Coherent (cfg : WarpConfig) (w : World) : Prop where
  config_eq : w.wgConfig = w.live.managed.config
  fits : Fits cfg w.creds w.wgConfig
  accountJson_eq : ∃ registeredAt, w.host.accountJson = some ⟨w.creds, registeredAt⟩

structure Kept (w w' : World) : Prop where
  creds_eq : w'.creds = w.creds
  wgConfig_eq : w'.wgConfig = w.wgConfig
  accountJson_eq : w'.host.accountJson = w.host.accountJson
  live_eq : w'.live = w.live

section
variable {cfg : Config} {env : Env} {w w' : World} {r : Except Fault Unit}
  {e : SupervisorEvent} {reason : ReplaceReason} {c g : Prop} {creds : WarpCredentials}
  {wg : WireGuardConfig}

theorem Fits.connected {t : ConnectedTunnel} (h : Fits cfg.warp creds wg) (ht : t.For wg) :
    Fits cfg.warp creds t.config := by
  rw [ht.config_eq]
  exact ⟨h.key_eq, h.mtu_eq, h.tcpBufferSize_eq⟩

theorem Fetched.fits (h : Fetched cfg.warp env creds wg) (henv : Faithful env) :
    Fits cfg.warp creds wg := by
  obtain ⟨raw, hraw, rfl⟩ := h
  exact ⟨henv.getConfig_key creds raw hraw, rfl, rfl⟩

theorem Prepared.fits {candidate : AccountCandidate} (h : Prepared cfg.warp env candidate)
    (henv : Faithful env) :
    Fits cfg.warp candidate.accountFile.credentials candidate.wgConfig := by
  cases h with
  | registered raw hraw hwg =>
    rw [hwg]
    exact ⟨henv.register_key _ raw _ hraw, rfl, rfl⟩
  | identity hwg => exact hwg.fits henv

theorem Kept.coherent (h : Kept w w') (hc : Coherent cfg.warp w) : Coherent cfg.warp w' := by
  obtain ⟨hcreds, hwg, hjson, hlive⟩ := h
  refine ⟨?_, ?_, ?_⟩
  · rw [hwg, hlive]
    exact hc.config_eq
  · rw [hcreds, hwg]
    exact hc.fits
  · rw [hcreds, hjson]
    exact hc.accountJson_eq

theorem Kept.trans {w₁ w₂ w₃ : World} (h : Kept w₁ w₂) (h' : Kept w₂ w₃) : Kept w₁ w₃ where
  creds_eq := h'.creds_eq.trans h.creds_eq
  wgConfig_eq := h'.wgConfig_eq.trans h.wgConfig_eq
  accountJson_eq := h'.accountJson_eq.trans h.accountJson_eq
  live_eq := h'.live_eq.trans h.live_eq

theorem World.kept_noted (x : Record) : Kept w (w.noted x) := ⟨rfl, rfl, rfl, rfl⟩

theorem World.kept_failed : Kept w (w.failed cfg env) where
  creds_eq := rfl
  wgConfig_eq := rfl
  accountJson_eq := by rw [World.failed_host, Host.pass_accountJson, Host.pass_accountJson]
  live_eq := rfl

theorem World.kept_settled (a : RecoveryAction) (r : Except Fault Unit) :
    Kept w (w.settled env a r) := by
  match r with
  | .ok () => exact ⟨rfl, rfl, rfl, rfl⟩
  | .error (.err e) => exact ⟨rfl, rfl, rfl, rfl⟩
  | .error .panic => exact ⟨rfl, rfl, rfl, rfl⟩

theorem World.kept_ended (task : Task) (r : Except Fault Unit) : Kept w (w.ended task r) := by
  match r with
  | .ok () => exact ⟨rfl, rfl, rfl, rfl⟩
  | .error (.err e) => exact ⟨rfl, rfl, rfl, rfl⟩
  | .error .panic => exact ⟨rfl, rfl, rfl, rfl⟩

theorem Attempted.kept {f : Fault} (h : Attempted cfg.warp env w reason c g (.error f) w')
    (henv : Faithful env) : Kept w w' := by
  cases h with
  | stopped hh => exact ⟨rfl, rfl, hh.accountJson, rfl⟩
  | refused hh => exact ⟨rfl, rfl, hh.accountJson, rfl⟩
  | unsaved _ hh _ hsaved =>
    rcases hsaved with ⟨_, hjson⟩ | ⟨hnew, _⟩
    · exact ⟨rfl, rfl, hjson, rfl⟩
    · exact absurd hnew (henv.saved_ne _)

theorem Attempted.coherent (h : Attempted cfg.warp env w reason c g r w')
    (hc : Coherent cfg.warp w) (henv : Faithful env) : Coherent cfg.warp w' := by
  match r with
  | .error f => exact (h.kept henv).coherent hc
  | .ok () =>
    cases h with
    | @rebuilt _ _ wg _ hh _ hwg ht =>
      have hfits : Fits cfg.warp w.creds wg := by
        rcases hwg with rfl | hwg
        · exact hc.fits
        · exact hwg.fits henv
      obtain ⟨registeredAt, hjson⟩ := hc.accountJson_eq
      exact ⟨ht.managed_eq.symm, hfits.connected ht, registeredAt, hh.accountJson.trans hjson⟩
    | switched _ hh _ hcandidate ht =>
      exact ⟨ht.managed_eq.symm, (hcandidate.fits henv).connected ht, _, rfl⟩

theorem Handled.coherent (h : Handled cfg env w e r w') (hc : Coherent cfg.warp w)
    (henv : Faithful env) : Coherent cfg.warp w' := by
  cases h with
  | stale => exact hc
  | probeOk => exact ⟨hc.config_eq, hc.fits, hc.accountJson_eq⟩
  | waited => exact World.kept_failed.coherent hc
  | recovery _ _ hw =>
    apply (World.kept_settled _ _).coherent
    exact hw.coherent ((World.kept_noted _).coherent (World.kept_failed.coherent hc)) henv
  | refresh hw =>
    apply (World.kept_ended _ _).coherent
    exact hw.coherent ((World.kept_noted _).coherent hc) henv

theorem Handled.kept {task : Task} {x : Error} (h : Handled cfg env w e r w')
    (henv : Faithful env) (hlog : w'.log = w.log ++ [.started task, .ended task (.error x)]) :
    Kept w w' := by
  cases h with
  | stale => exact ⟨rfl, rfl, rfl, rfl⟩
  | probeOk => exact ⟨rfl, rfl, rfl, rfl⟩
  | waited => exact World.kept_failed
  | @recovery _ _ _ w₁ _ _ hw =>
    match r with
    | .ok () =>
      have hw₁ : w₁.log = w.log ++ [_] := hw.log_eq
      change w₁.log ++ [_] = _ at hlog
      rw [hw₁, List.append_assoc, List.append_cancel_left_eq] at hlog
      cases hlog
    | .error f =>
      have hstart := World.kept_failed.trans ((World.kept_noted _).trans (hw.kept henv))
      exact hstart.trans (World.kept_settled _ _)
  | @refresh r w₁ hw =>
    match r with
    | .ok () =>
      have hw₁ : w₁.log = w.log ++ [_] := hw.log_eq
      change w₁.log ++ [_] = _ at hlog
      rw [hw₁, List.append_assoc, List.append_cancel_left_eq] at hlog
      cases hlog
    | .error f =>
      exact ((World.kept_noted _).trans (hw.kept henv)).trans (World.kept_ended _ _)

theorem Booted.coherent {p : Process} (h : Booted cfg p w) (henv : Faithful p.env) :
    Coherent cfg.warp w := by
  cases h with
  | loaded _ hwg ht => exact ⟨ht.managed_eq.symm, (hwg.fits henv).connected ht, _, rfl⟩
  | registered _ hc _ _ ht => exact ⟨ht.managed_eq.symm, (hc.fits henv).connected ht, _, rfl⟩

end

def FaithfulStep (x : Taken State Action) : Prop := ∀ env, x.action = .finish env → Faithful env

def KeptOnError (x : Taken State Action) : Prop :=
  ∀ task e, x.after.world.log =
      x.before.world.log ++ [.started task, .ended task (.error e)] →
    Kept x.before.world x.after.world

theorem step_coherent {cfg : Config} {s s' : State} {a : Action} (h : Step cfg s a s')
    (hx : FaithfulStep ⟨s, a, s'⟩) (hc : Coherent cfg.warp s.world) :
    Coherent cfg.warp s'.world := by
  cases h with
  | tick => exact hc
  | send => exact hc
  | recv => exact ⟨hc.config_eq, hc.fits, hc.accountJson_eq⟩
  | finish _ hw => exact hw.coherent hc (hx _ rfl)

theorem step_kept {cfg : Config} {s s' : State} {a : Action} (h : Step cfg s a s')
    (hx : FaithfulStep ⟨s, a, s'⟩) : KeptOnError ⟨s, a, s'⟩ := by
  intro task e hlog
  cases h with
  | tick => exact ⟨rfl, rfl, rfl, rfl⟩
  | send => exact ⟨rfl, rfl, rfl, rfl⟩
  | recv => exact ⟨rfl, rfl, rfl, rfl⟩
  | finish _ hw => exact hw.kept (hx _ rfl) hlog

theorem account_coherent {cfg : Config} {p : Process} {w : World} {l : List (Taken State Action)}
    {s : State} (hb : p.boot cfg = .ok w) (henv : Faithful p.env)
    (h : (machine cfg).Exec (State.start w) l s) (hl : ∀ x ∈ l, FaithfulStep x) :
    Coherent cfg.warp s.world ∧ ∀ x ∈ l, KeptOnError x := by
  constructor
  · apply h.invariant (I := fun s => Coherent cfg.warp s.world)
      ((boot_booted hb).coherent henv) hl
    intro x hc hx hstep
    exact step_coherent (step_cases hstep) hx hc
  · intro x hx
    exact step_kept (step_cases (h.taken hx).2) (hl x hx)

theorem sample_faithful : Faithful Env.sample where
  getConfig_key creds wg h := by
    obtain rfl := Except.ok.inj h
    rfl
  register_key options wg creds h := by
    obtain ⟨rfl, rfl⟩ := Prod.mk.inj (Except.ok.inj h)
    rfl
  saved_ne e h := by cases h

theorem stranded_faithful : Faithful Env.stranded where
  getConfig_key := sample_faithful.getConfig_key
  register_key options wg creds h := by cases h
  saved_ne := sample_faithful.saved_ne

/-- Four handshakes fail, then a re-registration goes through. -/
theorem account_coherent_reregistered :
    ∃ l s, (machine (Config.default none)).Exec (State.start (World.sample [])) l s ∧
      s.world.creds.privateKey = 8 ∧ Coherent (Config.default none).warp s.world ∧
      ∀ x ∈ l, KeptOnError x := by
  obtain ⟨l, hl, hm⟩ := Machine.exec_of_run (M := machine (Config.default none))
    (s := State.start (World.sample []))
    (failedProbes Env.stranded 0 [1, 2, 3, 4] ++ ([.tick (.fromSecs 600)] ++
      failedProbes Env.sample 0 [5])) rfl
  have hfaithful : ∀ x ∈ l, FaithfulStep x := by
    intro x hx env ha
    have hmem : x.action ∈ l.map Taken.action := List.mem_map_of_mem hx
    rw [hm, ha] at hmem
    rcases List.mem_append.mp hmem with hmem | hmem
    · rw [finish_mem_failedProbes hmem]
      exact stranded_faithful
    · rw [finish_mem_failedProbes (List.mem_of_ne_of_mem (by simp) hmem)]
      exact sample_faithful
  exact ⟨l, _, hl, rfl, account_coherent (sample_boot []) sample_faithful hl hfaithful⟩

end WarpRust.Supervisor
