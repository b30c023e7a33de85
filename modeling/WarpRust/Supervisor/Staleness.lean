import WarpRust.Supervisor.Loop

/-!
# Probes of a tunnel that has been replaced

A recovery leaves a mark, and a probe observed up to the mark is discarded. A scheduled
refresh replaces the tunnel as well but leaves no mark, so a probe of the tunnel before it
counts against its successor.
-/

namespace WarpRust.Supervisor
open Library Tunnel Warp

section
variable {cfg : Config} {env : Env} {w w' : World} {r : Except Fault Unit}
  {e : SupervisorEvent} {o : Instant} {reason : ReplaceReason} {c g : Prop}

theorem World.probeIsStale_iff :
    w.probeIsStale o = true ↔ ∃ m, w.lastRecoveryCompleted = some m ∧ o ≤ m := by
  simp only [World.probeIsStale, Option.any_eq_true_iff_get, decide_eq_true_eq]
  cases w.lastRecoveryCompleted <;> simp

theorem World.failed_log : (w.failed cfg env).log = w.log := rfl

theorem Attempted.mark_eq (h : Attempted cfg.warp env w reason c g r w') :
    w'.lastRecoveryCompleted = w.lastRecoveryCompleted := by
  cases h <;> rfl

theorem Attempted.live_of_error {f : Fault}
    (h : Attempted cfg.warp env w reason c g (.error f) w') : w'.live = w.live := by
  cases h <;> rfl

theorem Attempted.live_of_ok (h : Attempted cfg.warp env w reason c g (.ok ()) w') :
    ∃ t, w'.live.installed = some (t, reason) ∧ t ≤ w'.host.now := by
  cases h with
  | rebuilt => exact ⟨_, rfl, le_rfl⟩
  | switched hreason =>
    rw [hreason]
    exact ⟨_, rfl, le_rfl⟩

/-- A generation that a recovery installed is covered by the mark. -/
def Marked (w : World) : Prop :=
  ∀ t, w.live.installed = some (t, .recovery) → ∃ m, w.lastRecoveryCompleted = some m ∧ t ≤ m

theorem Marked.of_eq (h : Marked w) (hlive : w'.live = w.live)
    (hmark : w'.lastRecoveryCompleted = w.lastRecoveryCompleted) : Marked w' := by
  intro t ht
  rw [hlive] at ht
  rw [hmark]
  exact h t ht

@[simp] theorem World.ended_live {task : Task} : (w.ended task r).live = w.live := by
  match r with
  | .ok () => rfl
  | .error (.err e) => rfl
  | .error .panic => rfl

@[simp] theorem World.ended_mark {task : Task} :
    (w.ended task r).lastRecoveryCompleted = w.lastRecoveryCompleted := by
  match r with
  | .ok () => rfl
  | .error (.err e) => rfl
  | .error .panic => rfl

theorem Handled.marked (h : Handled cfg env w e r w') (hm : Marked w) : Marked w' := by
  cases h with
  | stale => exact hm
  | probeOk => exact hm.of_eq rfl rfl
  | waited => exact hm.of_eq rfl rfl
  | @recovery _ _ _ w₁ _ _ hw =>
    match r with
    | .ok () =>
      intro t ht
      obtain ⟨t', ht', hle⟩ := hw.live_of_ok
      obtain rfl : t' = t := congrArg Prod.fst (Option.some.inj (ht'.symm.trans ht))
      exact ⟨_, rfl, Nat.le_trans hle (Nat.le_add_right _ _)⟩
    | .error f =>
      change Marked (w₁.ended (.recovery (w.nextAction cfg)) (.error f))
      exact hm.of_eq (World.ended_live.trans hw.live_of_error)
        (World.ended_mark.trans hw.mark_eq)
  | @refresh r w₁ hw =>
    match r with
    | .ok () =>
      intro t ht
      obtain ⟨t', ht', _⟩ := hw.live_of_ok
      cases ht'.symm.trans ht
    | .error f =>
      exact hm.of_eq (World.ended_live.trans hw.live_of_error)
        (World.ended_mark.trans hw.mark_eq)

theorem saturatingSucc_eq_self {n : U8} (h : U8.saturatingSucc n = n) : n = 255 := by
  have hval : min (n.val + 1) 255 = n.val := congrArg Fin.val h
  apply Fin.ext
  change n.val = 255
  omega

theorem actionFor_top (r : RecoveryConfig) : actionFor r 255 = .rotateIdentity :=
  if_pos (Fin.le_last _)

structure Unmoved (w w' : World) : Prop where
  healthy : w'.healthy = w.healthy
  failures : w'.consecutiveFailures = w.consecutiveFailures
  log : w'.log = w.log

theorem Handled.not_unmoved {why : Text} (h : Handled cfg env w (.probeFailed why o) r w')
    (hfresh : w.probeIsStale o = false) : ¬ Unmoved w w' := by
  intro hu
  cases h with
  | stale ho hstale =>
    obtain rfl := Option.some.inj ho
    exact absurd hstale (Bool.eq_false_iff.mp hfresh)
  | waited _ ha =>
    have htop := saturatingSucc_eq_self hu.failures
    rw [World.nextAction, htop] at ha
    cases (actionFor_top cfg.recovery).symm.trans ha
  | recovery _ _ hw =>
    have hlog := hu.log
    obtain ⟨k, hk⟩ := World.settled_log _ env (w.nextAction cfg) r
    rw [hk, hw.log_eq, World.noted, World.failed_log, List.append_assoc] at hlog
    exact List.append_ne_nil_of_left_ne_nil (List.cons_ne_nil _ _) _
      (List.append_right_eq_self.mp hlog)

/-- A probe no later than the installation of the live generation leaves everything as it is
in three cases only. -/
theorem Handled.unmoved_iff {t : Instant} (h : Handled cfg env w e r w') (hm : Marked w)
    (ho : e.observedAt? = some o) (hlive : w.live.installed = some (t, reason)) (hle : o ≤ t) :
    Unmoved w w' ↔ reason = .recovery ∨ w.probeIsStale o = true ∨
      e = .probeOk o ∧ w.healthy = true ∧ w.consecutiveFailures = 0 := by
  by_cases hstale : w.probeIsStale o = true
  · cases h with
    | stale => exact iff_of_true ⟨rfl, rfl, rfl⟩ (.inr (.inl hstale))
    | probeOk hfresh | waited hfresh | recovery hfresh =>
      obtain rfl := Option.some.inj ho
      exact absurd hstale (Bool.eq_false_iff.mp hfresh)
    | refresh => cases ho
  · have hreason : reason ≠ .recovery := by
      rintro rfl
      obtain ⟨m, hmark, htm⟩ := hm t hlive
      exact hstale (World.probeIsStale_iff.mpr ⟨m, hmark, Nat.le_trans hle htm⟩)
    rw [or_iff_right hreason, or_iff_right hstale]
    cases e with
    | probeOk o' =>
      obtain rfl := Option.some.inj ho
      cases h with
      | stale ho' hstale' =>
        obtain rfl := Option.some.inj ho'
        exact absurd hstale' hstale
      | probeOk =>
        constructor
        · intro hu
          exact ⟨rfl, hu.healthy.symm, hu.failures.symm⟩
        · intro ⟨_, hhealthy, hfails⟩
          exact ⟨hhealthy.symm, hfails.symm, rfl⟩
    | probeFailed why o' =>
      obtain rfl := Option.some.inj ho
      apply iff_of_false (h.not_unmoved (Bool.eq_false_iff.mpr hstale))
      intro ⟨he, _⟩
      cases he
    | refreshTimerFired => cases ho

theorem Booted.marked {p : Process} (h : Booted cfg p w) : Marked w := by
  cases h <;> exact fun t ht => by cases ht

theorem step_marked {s s' : State} {a : Action} (h : Step cfg s a s') (hm : Marked s.world) :
    Marked s'.world := by
  cases h with
  | tick => exact hm
  | send => exact hm
  | recv => exact hm
  | finish _ hw => exact hw.marked hm

end

structure Outdated (env : Env) (o : Instant) (x : Taken State Action) : Prop where
  action_eq : x.action = .finish env
  event : ∃ e, x.before.handling = some e ∧ e.observedAt? = some o
  installed : ∃ t reason, x.before.world.live.installed = some (t, reason) ∧ o ≤ t

def Ignored (x : Taken State Action) : Prop :=
  ∀ env o, Outdated env o x → Unmoved x.before.world x.after.world

/-- The live generation was installed by a recovery, or the mark of an earlier recovery covers
the probe, or the probe says what is known already. -/
def Covered (x : Taken State Action) : Prop :=
  ∀ env o, Outdated env o x →
    (∃ t, x.before.world.live.installed = some (t, .recovery)) ∨
      x.before.world.probeIsStale o = true ∨
      x.before.handling = some (.probeOk o) ∧ x.before.world.healthy = true ∧
        x.before.world.consecutiveFailures = 0

theorem step_ignored_iff {cfg : Config} {s s' : State} {a : Action} (h : Step cfg s a s')
    (hm : Marked s.world) : Ignored ⟨s, a, s'⟩ ↔ Covered ⟨s, a, s'⟩ := by
  apply forall₂_congr
  intro env o
  apply forall_congr'
  intro ⟨haction, ⟨e, hhandling, ho⟩, t, reason, hlive, hle⟩
  obtain rfl : a = .finish env := haction
  cases h with
  | finish he hw =>
    obtain rfl := Option.some.inj (hhandling.symm.trans he)
    rw [hw.unmoved_iff hm ho hlive hle]
    apply or_congr
    · constructor
      · rintro rfl
        exact ⟨t, hlive⟩
      · intro ⟨t', ht'⟩
        exact congrArg Prod.snd (Option.some.inj (hlive.symm.trans ht'))
    · apply or_congr_right
      apply and_congr_left'
      rw [hhandling]
      exact Option.some_inj.symm

/-- Over every run of a process: probes of a replaced tunnel are without effect if and only
if none of them meets, uncovered, a generation that a scheduled refresh installed. -/
theorem outdated_ignored_iff {cfg : Config} {p : Process} {w : World}
    {l : List (Taken State Action)} {s : State} (hb : p.boot cfg = .ok w)
    (h : (machine cfg).Exec (State.start w) l s) :
    (∀ x ∈ l, Ignored x) ↔ ∀ x ∈ l, Covered x := by
  apply h.forall_iff (I := fun s => Marked s.world) (boot_booted hb).marked
  · intro s a s' hm ha
    exact step_marked (step_cases ha) hm
  · intro x hm hx
    exact step_ignored_iff (step_cases hx) hm

/-- A probe of the start-up tunnel fails at second 5, a refresh installs a new tunnel at second
10, and then the failure is counted against that one. -/
theorem probe_outlives_refresh :
    (Config.default none).validateWith ⟨false, none⟩ false false = .ok () ∧
      (Process.sample []).boot (Config.default none) = .ok (World.sample []) ∧
      ∃ l s, (machine (Config.default none)).Exec (State.start (World.sample [])) l s ∧
        s.world.live.installed = some (Duration.fromMillis 10500, .recovery) ∧
        ¬ ∀ x ∈ l, Ignored x := by
  obtain ⟨l, hl, _⟩ := Machine.exec_of_run (M := machine (Config.default none))
    (s := State.start (World.sample []))
    [.tick (.fromSecs 5), .send .refreshTimerFired, .send (.probeFailed [] (Duration.fromSecs 5)),
      .tick (.fromSecs 5), .recv, .finish Env.sample, .recv, .tick (backoffDelay .default 1)] rfl
  have hlast := hl.snoc (a := .finish Env.sample) rfl
  refine ⟨Config.default_valid, sample_boot _, _, _, hlast, rfl, ?_⟩
  intro hall
  have hu := hall _ List.mem_concat_self Env.sample
    (Duration.fromSecs 5) ⟨rfl, ⟨_, rfl, rfl⟩, _, _, rfl, by decide⟩
  exact absurd hu.failures (by decide)

theorem outdated_ignored_iff_reconnect :
    ∃ l s, (machine (Config.default none)).Exec (State.start (World.sample [])) l s ∧
      s.world.consecutiveFailures = 1 ∧ ((∀ x ∈ l, Ignored x) ↔ ∀ x ∈ l, Covered x) := by
  obtain ⟨l, hl, _⟩ := Machine.exec_of_run (M := machine (Config.default none))
    (s := State.start (World.sample []))
    ([.send (.probeFailed [] 0)] ++ failedProbes Env.sample 0 [1] ++ [.recv, .finish Env.sample])
      rfl
  exact ⟨l, _, hl, rfl, outdated_ignored_iff (sample_boot []) hl⟩

end WarpRust.Supervisor
