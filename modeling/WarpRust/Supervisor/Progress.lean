import WarpRust.Supervisor.Loop

/-!
# Does every recovery try to connect?

A probe failure that selects an action should lead to a handshake. It does exactly when the
steps before the handshake get that far: an identity file that is gone, or an API that
hands out no configuration, end the action without any attempt.
-/

namespace WarpRust.Supervisor
open Library Tunnel Warp

section
variable {cfg : Config} {env : Env} {w w' : World} {r : Except Fault Unit}

@[simp] theorem World.settled_connects {a : RecoveryAction} :
    (w.settled env a r).host.connects = w.host.connects := by
  match r with
  | .ok () => rfl
  | .error (.err e) => rfl
  | .error .panic => rfl

theorem Attempted.connects_iff {reason : ReplaceReason} {c g : Prop}
    (h : Attempted cfg.warp env w reason c g r w') :
    (∃ wg, w'.host.connects = w.host.connects ++ [wg]) ↔ c := by
  cases h with
  | stopped hh hconn =>
    apply iff_of_false _ hconn
    intro ⟨wg, hwg⟩
    exact List.cons_ne_nil wg [] (List.append_right_eq_self.mp (hwg.symm.trans hh.connects))
  | refused hh hconn => exact iff_of_true ⟨_, congrArg (· ++ _) hh.connects⟩ hconn
  | rebuilt hh hconn => exact iff_of_true ⟨_, congrArg (· ++ _) hh.connects⟩ hconn
  | unsaved _ hh hconn => exact iff_of_true ⟨_, congrArg (· ++ _) hh.connects⟩ hconn
  | switched _ hh hconn => exact iff_of_true ⟨_, congrArg (· ++ _) hh.connects⟩ hconn

structure Recovers (cfg : Config) (env : Env) (x : Taken State Action) : Prop where
  action_eq : x.action = .finish env
  fresh : ∃ reason o, x.before.handling = some (.probeFailed reason o) ∧
    x.before.world.probeIsStale o = false
  selected : x.before.world.nextAction cfg ≠ .none

def Advances (cfg : Config) (x : Taken State Action) : Prop :=
  ∀ env, Recovers cfg env x →
    ∃ wg, x.after.world.host.connects = x.before.world.host.connects ++ [wg]

def CanAdvance (cfg : Config) (x : Taken State Action) : Prop :=
  ∀ env, Recovers cfg env x →
    Connects cfg env (x.before.world.failed cfg env) (x.before.world.nextAction cfg)

theorem Handled.advances_iff {reason : Text} {o : Instant}
    (h : Handled cfg env w (.probeFailed reason o) r w') (hfresh : w.probeIsStale o = false)
    (ha : w.nextAction cfg ≠ .none) :
    (∃ wg, w'.host.connects = w.host.connects ++ [wg]) ↔
      Connects cfg env (w.failed cfg env) (w.nextAction cfg) := by
  cases h with
  | stale ho hstale =>
    obtain rfl := Option.some.inj ho
    exact absurd hstale (Bool.eq_false_iff.mp hfresh)
  | waited _ hnone => exact absurd hnone ha
  | recovery _ _ hw =>
    have hw := hw.connects_iff
    rw [World.noted_host, World.failed_connects] at hw
    rwa [World.settled_connects]

theorem step_advances_iff {s s' : State} {a : Action} (h : Step cfg s a s') :
    Advances cfg ⟨s, a, s'⟩ ↔ CanAdvance cfg ⟨s, a, s'⟩ := by
  apply forall₂_congr
  intro env ⟨haction, ⟨reason, o, hhandling, hfresh⟩, ha⟩
  obtain rfl : a = .finish env := haction
  cases h with
  | finish he hw =>
    obtain rfl := Option.some.inj (hhandling.symm.trans he)
    exact hw.advances_iff hfresh ha

end

/-- Over a whole run: every recovery reaches a handshake if and only if none is blocked on
the way. -/
theorem recovery_advances_iff {cfg : Config} {w : World} {l : List (Taken State Action)}
    {s : State} (h : (machine cfg).Exec (State.start w) l s) :
    (∀ x ∈ l, Advances cfg x) ↔ ∀ x ∈ l, CanAdvance cfg x :=
  h.forall_iff (I := fun _ => True) trivial (fun _ _ _ _ _ => trivial) fun _ _ hx =>
    step_advances_iff (step_cases hx)

/-- The one identity of the pool is gone from the disk. Nine failed probes lead to nine
handshakes, the tenth selects the rotation and leads to none. -/
theorem rotation_stalls :
    (Config.default none).validateWith ⟨false, none⟩ false false = .ok () ∧
      (Process.sample ["old.json"]).boot (Config.default none) = .ok (World.sample ["old.json"]) ∧
      ∃ l s, (machine (Config.default none)).Exec (State.start (World.sample ["old.json"])) l s ∧
        s.world.consecutiveFailures = (Config.default none).recovery.rotateIdentityAfter ∧
        ¬ ∀ x ∈ l, Advances (Config.default none) x := by
  obtain ⟨l, hl, _⟩ := Machine.exec_of_run (M := machine (Config.default none))
    (s := State.start (World.sample ["old.json"]))
    (failedProbes Env.stranded 0 [1, 2, 3, 4, 5, 6, 7, 8, 9] ++
      [.send (.probeFailed [] 0), .recv, .tick (backoffDelay .default 10)]) rfl
  have htenth := hl.snoc (a := .finish Env.stranded) rfl
  refine ⟨Config.default_valid, sample_boot _, _, _, htenth, rfl, ?_⟩
  intro hall
  obtain ⟨wg, hwg⟩ := hall _ List.mem_concat_self Env.stranded
    ⟨rfl, ⟨_, _, rfl, rfl⟩, by decide⟩
  exact absurd (congrArg List.length hwg) (by decide : ¬ (10 : ℕ) = 11)

theorem recovery_advances_iff_reconnect :
    ∃ l s, (machine (Config.default none)).Exec (State.start (World.sample [])) l s ∧
      s.world.host.connects.length = 2 ∧
      ((∀ x ∈ l, Advances (Config.default none) x) ↔
        ∀ x ∈ l, CanAdvance (Config.default none) x) := by
  obtain ⟨l, hl, _⟩ := Machine.exec_of_run (M := machine (Config.default none))
    (s := State.start (World.sample [])) (failedProbes Env.sample 0 [1]) rfl
  exact ⟨l, _, hl, rfl, recovery_advances_iff hl⟩

end WarpRust.Supervisor
