import WarpRust.Supervisor.Loop

/-!
# The register cooldown

Re-registrations keep their distance from one another: the time of the last attempt is in
memory. The registration at start-up is remembered in `account.json` alone, and a rotation
puts another identity's time there.
-/

namespace WarpRust.Supervisor
open Library Tunnel Warp

/-- `account.json` keeps a re-registration prepared at `t` from going on: it cannot be read,
its time overflows, or it lies less than a cooldown back. -/
def Blocks (cfg : WarpConfig) (env : Env) (json : Option AccountFile) (t : Instant) : Prop :=
  env.readError.isSome = true ∨ ∃ file, json = some file ∧
    (2 ^ 63 ≤ file.registeredAt ∨
      Duration.fromSecs file.registeredAt ≤ t ∧
        t - Duration.fromSecs file.registeredAt < cfg.registerCooldown)

/-- When `prepare_reregister` compares the times, if the event is handled in `env`. -/
def World.preparedAt (w : World) (cfg : Config) (env : Env) : Instant :=
  (w.failed cfg env).host.now + env.elapse .load

section
variable {cfg : Config} {env : Env} {w w' : World} {h : Host} {r : Except Fault Unit}
  {e : SupervisorEvent} {reason : ReplaceReason} {c g : Prop}

theorem checkRegisteredAt_ok_iff {cfg : WarpConfig} {t : Instant} {json : Option AccountFile}
    (hread : env.readError = none) :
    checkRegisteredAt cfg t json = .ok () ↔ ¬ Blocks cfg env json t := by
  cases json with
  | none => exact iff_of_true rfl (by simp [Blocks, hread])
  | some file =>
    simp only [checkRegisteredAt, Blocks, hread, Option.isSome_none, Bool.false_eq_true, false_or,
      Option.some.injEq, exists_eq_left']
    by_cases hover : 2 ^ 63 ≤ file.registeredAt
    · rw [if_pos hover]
      exact iff_of_false (by simp) (not_not_intro (.inl hover))
    · rw [if_neg hover, or_iff_right hover]
      by_cases hrecent : Duration.fromSecs file.registeredAt ≤ t ∧
          t - Duration.fromSecs file.registeredAt < cfg.registerCooldown
      · rw [if_pos hrecent]
        exact iff_of_false (by simp) (not_not_intro hrecent)
      · rw [if_neg hrecent]
        exact iff_of_true rfl hrecent

theorem checkCooldown_ok_iff {cfg : WarpConfig} (hnone : h.lastRegisterAttempt = none) :
    checkCooldown cfg env h = .ok () ↔ ¬ Blocks cfg env h.accountJson h.now := by
  cases hread : env.readError with
  | some e => exact iff_of_false (by simp [checkCooldown, load, hread]) (by simp [Blocks, hread])
  | none =>
    rw [← checkRegisteredAt_ok_iff hread]
    simp only [checkCooldown, load, hread, hnone, checkLastAttempt]
    cases checkRegisteredAt cfg h.now h.accountJson <;> simp

theorem checkLastAttempt_of_cooldown {cfg : WarpConfig} {m : Instant}
    (hcheck : checkCooldown cfg env h = .ok ()) (hm : h.lastRegisterAttempt = some m) :
    cfg.registerCooldown ≤ h.now - m := by
  simp only [checkCooldown, hm] at hcheck
  split at hcheck
  next => cases hcheck
  next =>
    split at hcheck
    next => cases hcheck
    next =>
      simp only [checkLastAttempt] at hcheck
      split at hcheck
      next => cases hcheck
      next hlt => exact not_lt.mp hlt

theorem Attempted.registers (ha : Attempted cfg.warp env w reason c g r w') :
    (g → w'.host.registers = w.host.registers ++ [w.host.now + env.elapse .load] ∧
      w'.host.lastRegisterAttempt = some (w.host.now + env.elapse .load)) ∧
    (¬ g → w'.host.registers = w.host.registers ∧
      w'.host.lastRegisterAttempt = w.host.lastRegisterAttempt) := by
  cases ha with
  | stopped hh => exact ⟨hh.attempted, hh.quiet⟩
  | refused hh => exact ⟨hh.attempted, hh.quiet⟩
  | rebuilt hh => exact ⟨hh.attempted, hh.quiet⟩
  | unsaved _ hh => exact ⟨hh.attempted, hh.quiet⟩
  | switched _ hh => exact ⟨hh.attempted, hh.quiet⟩

structure Quiet (w w' : World) : Prop where
  registers_eq : w'.host.registers = w.host.registers
  attempt_eq : w'.host.lastRegisterAttempt = w.host.lastRegisterAttempt

structure Called (t : Instant) (w w' : World) : Prop where
  registers_eq : w'.host.registers = w.host.registers ++ [t]
  attempt_eq : w'.host.lastRegisterAttempt = some t
  le_now : t ≤ w'.host.now

theorem World.quiet_failed : Quiet w (w.failed cfg env) where
  registers_eq := by rw [World.failed_host, Host.pass_registers, Host.pass_registers]
  attempt_eq := by
    rw [World.failed_host, Host.pass_lastRegisterAttempt, Host.pass_lastRegisterAttempt]

theorem World.quiet_settled (a : RecoveryAction) (r : Except Fault Unit) :
    Quiet w (w.settled env a r) := by
  match r with
  | .ok () => exact ⟨rfl, rfl⟩
  | .error (.err e) => exact ⟨rfl, rfl⟩
  | .error .panic => exact ⟨rfl, rfl⟩

theorem Handled.recovery_registers {why : Text} {o : Instant}
    (hw : Handled cfg env w (.probeFailed why o) r w') (hfresh : w.probeIsStale o = false) :
    (Registers cfg env (w.failed cfg env) (w.nextAction cfg) →
      Called (w.preparedAt cfg env) w w') ∧
    (¬ Registers cfg env (w.failed cfg env) (w.nextAction cfg) → Quiet w w') := by
  cases hw with
  | stale ho hstale =>
    obtain rfl := Option.some.inj ho
    exact absurd hstale (Bool.eq_false_iff.mp hfresh)
  | waited _ ha =>
    rw [ha]
    exact ⟨fun hreg => hreg.1.elim, fun _ => World.quiet_failed⟩
  | @recovery _ _ _ w₁ _ _ hw =>
    obtain ⟨hcalled, hquiet⟩ := hw.registers
    have hsettled : Quiet w₁ (w₁.settled env (w.nextAction cfg) r) := World.quiet_settled _ r
    have hfailed : Quiet w (w.failed cfg env) := World.quiet_failed
    constructor
    · intro hreg
      have := hcalled hreg
      refine ⟨hsettled.registers_eq.trans ?_, hsettled.attempt_eq.trans this.2,
        Nat.le_trans (hw.now_le.2 hreg) World.settled_now_le⟩
      rw [this.1, World.noted_host, hfailed.registers_eq]
      rfl
    · intro hreg
      have := hquiet hreg
      refine ⟨hsettled.registers_eq.trans ?_, hsettled.attempt_eq.trans ?_⟩
      · rw [this.1, World.noted_host, hfailed.registers_eq]
      · rw [this.2, World.noted_host, hfailed.attempt_eq]

theorem World.quiet_ended (task : Task) (r : Except Fault Unit) : Quiet w (w.ended task r) :=
  ⟨congrArg Host.registers World.ended_host, congrArg Host.lastRegisterAttempt World.ended_host⟩

theorem Handled.quiet (hw : Handled cfg env w e r w')
    (he : ∀ why o, e = .probeFailed why o → w.probeIsStale o = true) : Quiet w w' := by
  cases hw with
  | stale => exact ⟨rfl, rfl⟩
  | probeOk => exact ⟨rfl, rfl⟩
  | waited hfresh | recovery hfresh => exact absurd (he _ _ rfl) (Bool.eq_false_iff.mp hfresh)
  | @refresh r w₁ hw =>
    have hended : Quiet w₁ (w₁.ended .refresh r) := World.quiet_ended _ _
    have := hw.registers.2 not_false
    exact ⟨hended.registers_eq.trans this.1, hended.attempt_eq.trans this.2⟩

theorem registers_iff_of_none (hnone : w.host.lastRegisterAttempt = none) :
    Registers cfg env (w.failed cfg env) (w.nextAction cfg) ↔
      Reregisters w (w.nextAction cfg) ∧
        ¬ Blocks cfg.warp env w.host.accountJson (w.preparedAt cfg env) := by
  have hnone' : ((w.failed cfg env).host.pass (env.elapse .load)).lastRegisterAttempt = none := by
    rw [Host.pass_lastRegisterAttempt, World.quiet_failed.attempt_eq, hnone]
  have hjson : ((w.failed cfg env).host.pass (env.elapse .load)).accountJson =
      w.host.accountJson := by
    rw [Host.pass_accountJson, World.failed_host, Host.pass_accountJson, Host.pass_accountJson]
  apply and_congr Iff.rfl
  rw [checkCooldown_ok_iff hnone', hjson]
  exact Iff.rfl

theorem Registers.after_attempt {a : RecoveryAction} {m : Instant}
    (hreg : Registers cfg env (w.failed cfg env) a) (hm : w.host.lastRegisterAttempt = some m) :
    cfg.warp.registerCooldown ≤ w.preparedAt cfg env - m := by
  apply checkLastAttempt_of_cooldown hreg.2
  rw [Host.pass_lastRegisterAttempt, World.quiet_failed.attempt_eq, hm]

end

def Separated (cfg : WarpConfig) (registers : List Instant) : Prop :=
  registers.Pairwise fun t u => t + cfg.registerCooldown < u + nanosPerSec

instance (cfg : WarpConfig) (registers : List Instant) : Decidable (Separated cfg registers) :=
  inferInstanceAs (Decidable (registers.Pairwise _))

structure Remembered (w : World) : Prop where
  past : ∀ t ∈ w.host.registers, t ≤ w.host.now
  none : w.host.lastRegisterAttempt = none → w.host.registers.length ≤ 1
  some : ∀ m, w.host.lastRegisterAttempt = some m →
    m ≤ w.host.now ∧ ∀ t ∈ w.host.registers, t ≤ m

/-- The transition ends the handling, in `env`, of a fresh probe failure whose action prepares
a re-registration. -/
structure Prepares (cfg : Config) (env : Env) (x : Taken State Action) : Prop where
  action_eq : x.action = .finish env
  fresh : ∃ reason o, x.before.handling = some (.probeFailed reason o) ∧
    x.before.world.probeIsStale o = false
  reregisters : Reregisters x.before.world (x.before.world.nextAction cfg)

/-- A first re-registration within a cooldown of the registration at start-up is blocked by
`account.json`. -/
def Guarded (cfg : Config) (x : Taken State Action) : Prop :=
  ∀ env, Prepares cfg env x → x.before.world.host.lastRegisterAttempt = none →
    ∀ t ∈ x.before.world.host.registers,
      x.before.world.preparedAt cfg env + nanosPerSec ≤ t + cfg.warp.registerCooldown →
      Blocks cfg.warp env x.before.world.host.accountJson (x.before.world.preparedAt cfg env)

section
variable {cfg : Config} {env : Env} {w w' : World} {r : Except Fault Unit} {e : SupervisorEvent}
  {t : Instant}

theorem Quiet.remembered (h : Quiet w w') (hnow : w.host.now ≤ w'.host.now)
    (hw : Remembered w) : Remembered w' where
  past u hu := by
    rw [h.registers_eq] at hu
    exact Nat.le_trans (hw.past u hu) hnow
  none hnone := by
    rw [h.attempt_eq] at hnone
    rw [h.registers_eq]
    exact hw.none hnone
  some m hm := by
    rw [h.attempt_eq] at hm
    rw [h.registers_eq]
    exact ⟨Nat.le_trans (hw.some m hm).1 hnow, (hw.some m hm).2⟩

theorem Called.remembered (h : Called t w w') (ht : w.host.now ≤ t) (hw : Remembered w) :
    Remembered w' := by
  have hpast : ∀ u ∈ w'.host.registers, u ≤ t := by
    intro u hu
    rw [h.registers_eq] at hu
    rcases List.mem_append.mp hu with hu | hu
    · exact Nat.le_trans (hw.past u hu) ht
    · exact le_of_eq (List.mem_singleton.mp hu)
  refine ⟨fun u hu => Nat.le_trans (hpast u hu) h.le_now, fun hnone => ?_, fun m hm => ?_⟩
  · cases h.attempt_eq.symm.trans hnone
  · obtain rfl := Option.some.inj (h.attempt_eq.symm.trans hm)
    exact ⟨h.le_now, hpast⟩

theorem separated_append {registers : List Instant} :
    Separated cfg.warp (registers ++ [t]) ↔ Separated cfg.warp registers ∧
      ∀ u ∈ registers, u + cfg.warp.registerCooldown < t + nanosPerSec := by
  simp only [Separated, List.pairwise_append, List.pairwise_singleton, true_and,
    List.mem_singleton, forall_eq]

theorem World.now_le_preparedAt : w.host.now ≤ w.preparedAt cfg env :=
  Nat.le_trans World.failed_now_le (Nat.le_add_right _ _)

theorem not_fresh {w : World} (he : ¬ ∃ why o, e = .probeFailed why o ∧ w.probeIsStale o = false) :
    ∀ why o, e = .probeFailed why o → w.probeIsStale o = true := by
  intro why o heq
  exact (Bool.not_eq_false _).mp fun hfresh => he ⟨why, o, heq, hfresh⟩

theorem Handled.remembered (hw : Handled cfg env w e r w') (hr : Remembered w) :
    Remembered w' := by
  by_cases he : ∃ why o, e = .probeFailed why o ∧ w.probeIsStale o = false
  · obtain ⟨why, o, rfl, hfresh⟩ := he
    obtain ⟨hcalled, hquiet⟩ := hw.recovery_registers hfresh
    by_cases hreg : Registers cfg env (w.failed cfg env) (w.nextAction cfg)
    · exact (hcalled hreg).remembered World.now_le_preparedAt hr
    · exact (hquiet hreg).remembered hw.now_le hr
  · exact (hw.quiet (not_fresh he)).remembered hw.now_le hr

theorem Handled.separated_iff {why : Text} {o : Instant}
    (hw : Handled cfg env w (.probeFailed why o) r w') (hfresh : w.probeIsStale o = false)
    (hr : Remembered w) :
    Separated cfg.warp w'.host.registers ↔ Separated cfg.warp w.host.registers ∧
      (Reregisters w (w.nextAction cfg) → w.host.lastRegisterAttempt = none →
        ∀ t ∈ w.host.registers,
          w.preparedAt cfg env + nanosPerSec ≤ t + cfg.warp.registerCooldown →
          Blocks cfg.warp env w.host.accountJson (w.preparedAt cfg env)) := by
  obtain ⟨hcalled, hquiet⟩ := hw.recovery_registers hfresh
  by_cases hreg : Registers cfg env (w.failed cfg env) (w.nextAction cfg)
  · rw [(hcalled hreg).registers_eq, separated_append]
    apply and_congr_right
    intro _
    cases hlast : w.host.lastRegisterAttempt with
    | none =>
      obtain ⟨hprepares, hblocks⟩ := (registers_iff_of_none hlast).mp hreg
      constructor
      · intro hfar _ _ t ht hnear
        exact absurd (hfar t ht) (not_lt.mpr hnear)
      · intro hguard t ht
        exact not_le.mp fun hnear => hblocks (hguard hprepares rfl t ht hnear)
    | some m =>
      obtain ⟨hm, hpast⟩ := hr.some m hlast
      have hfar := hreg.after_attempt hlast
      have hle : m ≤ w.preparedAt cfg env := Nat.le_trans hm World.now_le_preparedAt
      apply iff_of_true
      · intro t ht
        calc t + cfg.warp.registerCooldown
            ≤ m + cfg.warp.registerCooldown := Nat.add_le_add_right (hpast t ht) _
          _ ≤ w.preparedAt cfg env := (Nat.le_sub_iff_add_le' hle).mp hfar
          _ < w.preparedAt cfg env + nanosPerSec := Nat.lt_add_of_pos_right (by decide)
      · intro _ hnone
        cases hnone
  · rw [(hquiet hreg).registers_eq]
    apply (and_iff_left _).symm
    intro hprepares hnone t ht hnear
    by_contra hblocks
    exact hreg ((registers_iff_of_none hnone).mpr ⟨hprepares, hblocks⟩)

theorem step_remembered {s s' : State} {a : Action} (h : Step cfg s a s')
    (hclock : s.world.host.now ≤ s.now) (hr : Remembered s.world) : Remembered s'.world := by
  cases h with
  | tick => exact hr
  | send => exact hr
  | recv =>
    have hquiet : Quiet s.world (s.world.wake s.now) := ⟨rfl, rfl⟩
    exact hquiet.remembered hclock hr
  | finish _ hw => exact hw.remembered hr

theorem guarded_of_not_finish {x : Taken State Action} (h : ∀ env, x.action ≠ .finish env) :
    Guarded cfg x := fun env hx => absurd hx.action_eq (h env)

theorem step_separated_iff {s s' : State} {a : Action} (h : Step cfg s a s')
    (hr : Remembered s.world) :
    Separated cfg.warp s'.world.host.registers ↔
      Separated cfg.warp s.world.host.registers ∧ Guarded cfg ⟨s, a, s'⟩ := by
  cases h with
  | tick => exact (and_iff_left (guarded_of_not_finish fun _ h => by cases h)).symm
  | send => exact (and_iff_left (guarded_of_not_finish fun _ h => by cases h)).symm
  | recv => exact (and_iff_left (guarded_of_not_finish fun _ h => by cases h)).symm
  | @finish env e r w' he hw =>
    by_cases hfresh : ∃ why o, e = .probeFailed why o ∧ s.world.probeIsStale o = false
    · obtain ⟨why, o, rfl, hfresh⟩ := hfresh
      rw [hw.separated_iff hfresh hr]
      apply and_congr_right
      intro _
      constructor
      · intro hguard env' hx
        obtain rfl : env = env' := Action.finish.inj hx.action_eq
        exact hguard hx.reregisters
      · intro hguard hprepares
        exact hguard env ⟨rfl, ⟨why, o, he, hfresh⟩, hprepares⟩
    · rw [(hw.quiet (not_fresh hfresh)).registers_eq]
      apply (and_iff_left _).symm
      intro env' hx
      obtain ⟨why, o, hhandling, hstale⟩ := hx.fresh
      exact absurd ⟨why, o, Option.some.inj (he.symm.trans hhandling), hstale⟩ hfresh

theorem Booted.remembered {p : Process} (h : Booted cfg p w) : Remembered w := by
  cases h with
  | loaded => exact ⟨nofun, fun _ => Nat.zero_le _, nofun⟩
  | registered _ _ _ hnow =>
    refine ⟨fun t ht => ?_, fun _ => le_rfl, nofun⟩
    obtain rfl := List.mem_singleton.mp ht
    exact Nat.le_trans (Nat.le_add_right _ _) hnow

theorem Booted.separated {p : Process} (h : Booted cfg p w) :
    Separated cfg.warp w.host.registers := by
  cases h with
  | loaded => exact List.Pairwise.nil
  | registered => exact List.pairwise_singleton _ _

theorem asSecs_recent {a t u d : ℕ} (hta : t ≤ a) (hau : a ≤ u)
    (hnear : u + nanosPerSec ≤ t + d) :
    Duration.fromSecs (Duration.asSecs a) ≤ u ∧ u - Duration.fromSecs (Duration.asSecs a) < d := by
  simp only [Duration.fromSecs, Duration.asSecs, nanosPerSec, Duration] at hnear ⊢
  omega

/-- The file that a registration at start-up leaves does guard its own cooldown; only another
file in its place does not. -/
theorem Booted.blocks {p : Process} {t u : Instant} (h : Booted cfg p w)
    (ht : t ∈ w.host.registers) (hu : w.host.now ≤ u)
    (hnear : u + nanosPerSec ≤ t + cfg.warp.registerCooldown) :
    Blocks cfg.warp env w.host.accountJson u := by
  cases h with
  | loaded => cases ht
  | @registered c _ now _ _ hat hnow =>
    obtain rfl := List.mem_singleton.mp ht
    refine .inr ⟨c.accountFile, rfl, .inr ?_⟩
    rw [hat]
    exact asSecs_recent (Nat.le_add_right _ _) (Nat.le_trans hnow hu) hnear

end

/-- Over every run of a process: its register calls keep the cooldown if and only if no first
re-registration slips past an `account.json` that is not the one of its own start-up. -/
theorem register_separated_iff {cfg : Config} {p : Process} {w : World}
    {l : List (Taken State Action)} {s : State} (hb : p.boot cfg = .ok w)
    (h : (machine cfg).Exec (State.start w) l s) :
    Separated cfg.warp s.world.host.registers ↔ ∀ x ∈ l, Guarded cfg x := by
  have hbooted := boot_booted hb
  apply h.kept_iff (I := fun s => s.world.host.now ≤ s.now ∧ Remembered s.world)
    (P := fun s => Separated cfg.warp s.world.host.registers) ⟨le_rfl, hbooted.remembered⟩
    hbooted.separated
  · intro s a s' ⟨hclock, hr⟩ ha
    exact ⟨step_clocked (step_cases ha) hclock, step_remembered (step_cases ha) hclock hr⟩
  · intro x ⟨_, hr⟩ hx
    exact step_separated_iff (step_cases hx) hr

def Process.unregistered : Process :=
  { Process.sample ["old.json"] with startedAt := 1000000000000000, accountJson := none }

def World.registered : World :=
  let wg := applyTransportTuning .default (sampleWg 8)
  let creds := { sampleCreds with privateKey := 8 }
  .fresh ⟨1000000000000000, some ⟨creds, 1000000⟩, none, [1000000000000000], [wg]⟩ ["old.json"]
    creds ⟨⟨wg⟩, wg⟩

theorem unregistered_boot :
    Process.unregistered.boot (Config.default none) = .ok World.registered := rfl

/-- The identity file exists; it was written without a registration time. -/
def Env.rotating : Env :=
  { Env.sample with identity := fun _ => .ok (some ⟨{ sampleCreds with privateKey := 9 }, 0⟩) }

/-- The process registers, ten failed probes make it rotate to the identity, a probe succeeds,
and five more failures make it register again, 167 seconds after the first time. -/
theorem rotation_lifts_cooldown :
    (Config.default none).validateWith ⟨false, none⟩ false false = .ok () ∧
      Process.unregistered.boot (Config.default none) = .ok World.registered ∧
      ∃ l s, (machine (Config.default none)).Exec (State.start World.registered) l s ∧
        s.world.host.registers = [1000000000000000, 1000167000000001] ∧
        ¬ Separated (Config.default none).warp s.world.host.registers := by
  obtain ⟨l, hl, _⟩ := Machine.exec_of_run (M := machine (Config.default none))
    (s := State.start World.registered)
    (failedProbes Env.stranded 1000000000000000 [1, 2, 3, 4, 5, 6, 7, 8, 9] ++
      failedProbes Env.rotating 1000000000000000 [10] ++
      [.tick 1, .send (.probeOk 1000151500000001), .recv, .finish Env.sample] ++
      failedProbes Env.stranded 1000151500000001 [1, 2, 3, 4, 5]) rfl
  have hnear : ¬ Separated (Config.default none).warp [1000000000000000, 1000167000000001] := by
    decide
  exact ⟨Config.default_valid, unregistered_boot, l, _, hl, rfl, hnear⟩

theorem register_separated_iff_waited :
    ∃ l s, (machine (Config.default none)).Exec (State.start World.registered) l s ∧
      s.world.host.registers = [1000000000000000, 1000615500000000] ∧
      (Separated (Config.default none).warp s.world.host.registers ↔
        ∀ x ∈ l, Guarded (Config.default none) x) := by
  obtain ⟨l, hl, _⟩ := Machine.exec_of_run (M := machine (Config.default none))
    (s := State.start World.registered)
    (failedProbes Env.stranded 1000000000000000 [1, 2, 3, 4] ++ [.tick (.fromSecs 600)] ++
      failedProbes Env.sample 1000000000000000 [5]) rfl
  exact ⟨l, _, hl, rfl, register_separated_iff unregistered_boot hl⟩

end WarpRust.Supervisor
