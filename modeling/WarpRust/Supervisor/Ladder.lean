import Mathlib.Data.List.DropRight
import WarpRust.Supervisor.Loop

/-!
# The recovery ladder over a run

What the failure count and the health flag are of the probes accepted so far, and which action
each accepted failure takes up, over every run of the supervisor. A probe is accepted when its
handling ends and did not discard it as stale.
-/

namespace WarpRust.Supervisor
open Library Tunnel Warp

inductive Verdict where
  | ok
  | failed
  deriving DecidableEq

def World.verdict (w : World) : SupervisorEvent → Option Verdict
  | .probeOk observedAt => if w.probeIsStale observedAt then none else some .ok
  | .probeFailed _ observedAt => if w.probeIsStale observedAt then none else some .failed
  | .refreshTimerFired => none

def verdict (x : Taken State Action) : Option Verdict :=
  match x.action with
  | .finish _ => x.before.handling.bind x.before.world.verdict
  | _ => none

def verdicts (l : List (Taken State Action)) : List Verdict := l.filterMap verdict

def failures (vs : List Verdict) : ℕ := (vs.rtakeWhile (· = .failed)).length

def started? : Record → Option RecoveryAction
  | .started (.recovery action) => some action
  | _ => none

def selected (x : Taken State Action) : RecoveryAction :=
  ((x.after.world.log.drop x.before.world.log.length).findSome? started?).getD .none

/-! ### The ladder -/

def RecoveryAction.rung : RecoveryAction → ℕ
  | .none => 0
  | .reconnect => 1
  | .rebuildConfig => 2
  | .reregister => 3
  | .rotateIdentity => 4

def threshold (r : RecoveryConfig) : RecoveryAction → ℕ
  | .none => 0
  | .reconnect => r.reconnectAfter
  | .rebuildConfig => r.rebuildConfigAfter
  | .reregister => r.reregisterAfter
  | .rotateIdentity => r.rotateIdentityAfter

structure Highest (r : RecoveryConfig) (n : ℕ) (a : RecoveryAction) : Prop where
  reached : threshold r a ≤ n
  above : ∀ b, threshold r b ≤ n → b.rung ≤ a.rung

section
variable {r : RecoveryConfig} {n m : ℕ} {a b : RecoveryAction}

theorem Highest.mono (ha : Highest r n a) (hb : Highest r m b) (hle : n ≤ m) : a.rung ≤ b.rung :=
  hb.above a (ha.reached.trans hle)

theorem Highest.ne_none (ha : Highest r n a) (hn : r.reconnectAfter ≤ n) : a ≠ .none := by
  rintro rfl
  exact absurd (ha.above .reconnect hn) (by decide)

theorem Highest.reached_iff (ha : Highest r n a) (hr : r.Ordered) :
    threshold r b ≤ n ↔ b.rung ≤ a.rung := by
  refine ⟨ha.above b, fun hle => le_trans ?_ ha.reached⟩
  have hreconnect : r.reconnectAfter.val ≤ r.rebuildConfigAfter.val := hr.reconnect_le
  have hrebuild : r.rebuildConfigAfter.val ≤ r.reregisterAfter.val := hr.rebuild_le
  have hreregister : r.reregisterAfter.val ≤ r.rotateIdentityAfter.val := hr.reregister_le
  cases a <;> cases b <;> simp only [RecoveryAction.rung, threshold] at hle ⊢ <;> omega

theorem actionFor_highest (r : RecoveryConfig) (n : U8) : Highest r n (actionFor r n) := by
  simp only [actionFor, Fin.le_def]
  split_ifs with hrotate hreregister hrebuild hreconnect
  · refine ⟨hrotate, fun b _ => ?_⟩
    cases b <;> decide
  · refine ⟨hreregister, fun b hb => ?_⟩
    cases b with
    | rotateIdentity => exact absurd hb hrotate
    | _ => decide
  · refine ⟨hrebuild, fun b hb => ?_⟩
    cases b with
    | rotateIdentity => exact absurd hb hrotate
    | reregister => exact absurd hb hreregister
    | _ => decide
  · refine ⟨hreconnect, fun b hb => ?_⟩
    cases b with
    | rotateIdentity => exact absurd hb hrotate
    | reregister => exact absurd hb hreregister
    | rebuildConfig => exact absurd hb hrebuild
    | _ => decide
  · refine ⟨Nat.zero_le _, fun b hb => ?_⟩
    cases b with
    | rotateIdentity => exact absurd hb hrotate
    | reregister => exact absurd hb hreregister
    | rebuildConfig => exact absurd hb hrebuild
    | reconnect => exact absurd hb hreconnect
    | none => decide

end

/-! ### The count and the flag -/

def judge (c : U8 × Bool) : Verdict → U8 × Bool
  | .ok => (0, true)
  | .failed => (U8.saturatingSucc c.1, false)

def World.probes (w : World) : U8 × Bool := (w.consecutiveFailures, w.healthy)

section
variable {vs : List Verdict}

theorem failures_ok (vs : List Verdict) : failures (vs ++ [.ok]) = 0 := by
  rw [failures, List.rtakeWhile_concat_neg _ _ _ (by decide)]
  rfl

theorem failures_failed (vs : List Verdict) : failures (vs ++ [.failed]) = failures vs + 1 := by
  rw [failures, List.rtakeWhile_concat_pos _ _ _ (by decide), List.length_append]
  rfl

theorem failures_le_append {us : List Verdict} (hus : .ok ∉ us) :
    failures vs ≤ failures (vs ++ us) := by
  induction us using List.reverseRecOn with
  | nil => rw [List.append_nil]
  | append_singleton us v ih =>
    obtain ⟨hfront, hlast⟩ := not_or.mp (mt List.mem_append.mpr hus)
    cases v with
    | ok => exact absurd (List.mem_singleton_self _) hlast
    | failed =>
      rw [← List.append_assoc, failures_failed]
      exact (ih hfront).trans (Nat.le_succ _)

theorem foldl_judge (vs : List Verdict) :
    ((vs.foldl judge (0, false)).1.val = min 255 (failures vs)) ∧
      (vs.foldl judge (0, false)).2 = decide (vs.getLast? = some .ok) := by
  induction vs using List.reverseRecOn with
  | nil => exact ⟨rfl, rfl⟩
  | append_singleton vs v ih =>
    rw [List.foldl_append, List.foldl_cons, List.foldl_nil, List.getLast?_concat]
    cases v with
    | ok =>
      rw [failures_ok]
      exact ⟨rfl, rfl⟩
    | failed =>
      rw [failures_failed]
      refine ⟨?_, rfl⟩
      simp only [judge, U8.saturatingSucc, ih.1]
      omega

end

/-! ### One transition -/

section
variable {cfg : Config} {env : Env} {w w' : World} {e : SupervisorEvent} {r : Except Fault Unit}
  {task : Task} {reason : ReplaceReason} {c g : Prop} {s s' : State} {a : Action}

theorem Attempted.probes_eq (h : Attempted cfg.warp env w reason c g r w') :
    w'.probes = w.probes := by
  cases h <;> rfl

@[simp] theorem World.ended_probes : (w.ended task r).probes = w.probes := by
  match r with
  | .ok () => rfl
  | .error (.err e) => rfl
  | .error .panic => rfl

@[simp] theorem World.settled_probes {a : RecoveryAction} :
    (w.settled env a r).probes = w.probes := by
  match r with
  | .ok () => rfl
  | .error f => exact World.ended_probes

theorem World.verdict_stale {o : Instant} (ho : e.observedAt? = some o)
    (hstale : w.probeIsStale o = true) : w.verdict e = none := by
  cases e with
  | probeOk observedAt =>
    obtain rfl := Option.some.inj ho
    exact if_pos hstale
  | probeFailed reason observedAt =>
    obtain rfl := Option.some.inj ho
    exact if_pos hstale
  | refreshTimerFired => rfl

theorem Handled.probes_eq (h : Handled cfg env w e r w') :
    w'.probes = (w.verdict e).elim w.probes (judge w.probes) := by
  cases h with
  | stale ho hstale =>
    rw [World.verdict_stale ho hstale]
    rfl
  | probeOk hstale =>
    rw [World.verdict, if_neg (by rw [hstale]; nofun)]
    rfl
  | waited hstale ha =>
    rw [World.verdict, if_neg (by rw [hstale]; nofun)]
    rfl
  | recovery hstale ha hw =>
    rw [World.verdict, if_neg (by rw [hstale]; nofun), World.settled_probes, hw.probes_eq]
    rfl
  | refresh hw =>
    rw [World.ended_probes, hw.probes_eq]
    rfl

theorem Handled.selected_eq (h : Handled cfg env w e r w') (hv : w.verdict e = some .failed) :
    ((w'.log.drop w.log.length).findSome? started?).getD .none =
      actionFor cfg.recovery w'.consecutiveFailures := by
  have hcount : w'.consecutiveFailures = U8.saturatingSucc w.consecutiveFailures := by
    have hprobes := h.probes_eq
    rw [hv] at hprobes
    exact congrArg Prod.fst hprobes
  rw [hcount]
  cases h with
  | stale ho hstale =>
    rw [World.verdict_stale ho hstale] at hv
    cases hv
  | probeOk hstale =>
    rw [World.verdict, if_neg (by rw [hstale]; nofun)] at hv
    cases hv
  | waited hstale ha =>
    have hlog : (w.failed cfg env).log = w.log := rfl
    rw [hlog, List.drop_length, ← World.nextAction, ha]
    rfl
  | @recovery reason o r w' hstale ha hw =>
    obtain ⟨rest, hrest⟩ := World.settled_log w' env (w.nextAction cfg) r
    have hlog : w'.log = w.log ++ [.started (.recovery (w.nextAction cfg))] := hw.log_eq
    rw [hrest, hlog, List.append_assoc, List.drop_left]
    rfl
  | refresh hw => cases hv

theorem verdict_finish (he : s.handling = some e) :
    verdict ⟨s, .finish env, s'⟩ = s.world.verdict e := by
  rw [verdict, he]
  rfl

theorem step_probes (h : Step cfg s a s') : s'.world.probes =
    (verdict ⟨s, a, s'⟩).elim s.world.probes (judge s.world.probes) := by
  cases h with
  | tick => rfl
  | send => rfl
  | recv => rfl
  | finish he hw =>
    rw [verdict_finish he]
    exact hw.probes_eq

theorem step_selected (h : Step cfg s a s') (hv : verdict ⟨s, a, s'⟩ = some .failed) :
    selected ⟨s, a, s'⟩ = actionFor cfg.recovery s'.world.consecutiveFailures := by
  cases h with
  | finish he hw =>
    rw [verdict_finish he] at hv
    exact hw.selected_eq hv
  | _ => cases hv

end

/-! ### Every run -/

structure Ladder (r : RecoveryConfig) (l : List (Taken State Action)) (w : World) : Prop where
  count : w.consecutiveFailures.val = min 255 (failures (verdicts l))
  healthy : w.healthy = true ↔ (verdicts l).getLast? = some .ok
  highest : ∀ l₁ x l₂, l = l₁ ++ x :: l₂ → verdict x = some .failed →
    Highest r (min 255 (failures (verdicts (l₁ ++ [x])))) (selected x)
  climbs : ∀ l₁ x l₂ y l₃, l = l₁ ++ x :: (l₂ ++ y :: l₃) → verdict x = some .failed →
    verdict y = some .failed → .ok ∉ verdicts l₂ → (selected x).rung ≤ (selected y).rung
  acts : ∀ l₁ x l₂, l = l₁ ++ x :: l₂ → verdict x = some .failed →
    r.reconnectAfter.val ≤ min 255 (failures (verdicts (l₁ ++ [x]))) → selected x ≠ .none ∧
      ∀ l₃ y l₄, l₂ = l₃ ++ y :: l₄ → verdict y = some .failed → .ok ∉ verdicts l₃ →
        selected y ≠ .none

section
variable {cfg : Config} {w : World} {l l₁ l₂ l₃ : List (Taken State Action)} {s : State}
  {x y : Taken State Action}

theorem probes_eq (hw : w.probes = (0, false)) (h : (machine cfg).Exec (State.start w) l s) :
    s.world.probes = (verdicts l).foldl judge (0, false) := by
  have hview : s.world.probes = (l.filterMap verdict).foldl judge (State.start w).world.probes :=
    h.view_eq verdict (fun s => s.world.probes) judge fun _ hx => step_probes (step_cases hx)
  have hstart : (State.start w).world.probes = (0, false) := hw
  rw [hview, hstart, verdicts]

theorem count_eq (hw : w.probes = (0, false)) (h : (machine cfg).Exec (State.start w) l s) :
    s.world.consecutiveFailures.val = min 255 (failures (verdicts l)) := by
  rw [← (foldl_judge _).1, ← probes_eq hw h]
  rfl

theorem highest_of_exec (hw : w.probes = (0, false))
    (h : (machine cfg).Exec (State.start w) (l₁ ++ x :: l₂) s) (hx : verdict x = some .failed) :
    Highest cfg.recovery (min 255 (failures (verdicts (l₁ ++ [x])))) (selected x) := by
  obtain ⟨hbefore, hstep⟩ := h.split
  have hafter : (machine cfg).Exec (State.start w) (l₁ ++ [x]) x.after := hbefore.snoc hstep
  have hselected : selected x = actionFor cfg.recovery x.after.world.consecutiveFailures :=
    step_selected (step_cases hstep) hx
  rw [hselected, ← count_eq hw hafter]
  exact actionFor_highest _ _

theorem reached_of_exec {facts : HostFacts} {isContainer trustedHostNet : Bool} (b : RecoveryAction)
    (hv : Config.validateWith facts cfg isContainer trustedHostNet = .ok ())
    (hw : w.probes = (0, false))
    (h : (machine cfg).Exec (State.start w) (l₁ ++ x :: l₂) s) (hx : verdict x = some .failed) :
    threshold cfg.recovery b ≤ min 255 (failures (verdicts (l₁ ++ [x]))) ↔
      b.rung ≤ (selected x).rung :=
  (highest_of_exec hw h hx).reached_iff (Config.recovery_ordered hv)

theorem failures_climb (hy : verdict y = some .failed) (hok : .ok ∉ verdicts l₂) :
    failures (verdicts (l₁ ++ [x])) ≤ failures (verdicts ((l₁ ++ x :: l₂) ++ [y])) := by
  have hsplit : verdicts ((l₁ ++ x :: l₂) ++ [y]) =
      verdicts (l₁ ++ [x]) ++ (verdicts l₂ ++ [.failed]) := by
    have hlast : verdicts [y] = [.failed] := by rw [verdicts, List.filterMap_cons_some hy]; rfl
    have hwhole : (l₁ ++ x :: l₂) ++ [y] = (l₁ ++ [x]) ++ (l₂ ++ [y]) := by simp
    rw [hwhole, verdicts, List.filterMap_append, ← verdicts, List.filterMap_append, ← verdicts,
      ← verdicts, hlast]
  rw [hsplit]
  exact failures_le_append fun hmem => (List.mem_append.mp hmem).elim hok (by decide)

theorem selected_climbs (hw : w.probes = (0, false))
    (h : (machine cfg).Exec (State.start w) (l₁ ++ x :: (l₂ ++ y :: l₃)) s)
    (hx : verdict x = some .failed) (hy : verdict y = some .failed) (hok : .ok ∉ verdicts l₂) :
    (selected x).rung ≤ (selected y).rung := by
  have hwhole : l₁ ++ x :: (l₂ ++ y :: l₃) = (l₁ ++ x :: l₂) ++ y :: l₃ := by simp
  have hlow := highest_of_exec hw h hx
  have hhigh := highest_of_exec hw (hwhole ▸ h) hy
  exact hlow.mono hhigh (min_le_min_left 255 (failures_climb hy hok))

theorem selected_ne_none (hw : w.probes = (0, false))
    (h : (machine cfg).Exec (State.start w) (l₁ ++ x :: l₂) s) (hx : verdict x = some .failed)
    (hcount : cfg.recovery.reconnectAfter.val ≤ min 255 (failures (verdicts (l₁ ++ [x])))) :
    selected x ≠ .none := (highest_of_exec hw h hx).ne_none hcount

end

theorem Booted.probes_eq {cfg : Config} {p : Process} {w : World} (h : Booted cfg p w) :
    w.probes = (0, false) := by
  cases h <;> rfl

/-- Over every run of a process. The thresholds need not even be in order. -/
theorem ladder_monotone {cfg : Config} {p : Process} {w : World} {l : List (Taken State Action)}
    {s : State} (hb : p.boot cfg = .ok w) (h : (machine cfg).Exec (State.start w) l s) :
    Ladder cfg.recovery l s.world := by
  have hw := (boot_booted hb).probes_eq
  refine ⟨count_eq hw h, ?_, ?_, ?_, ?_⟩
  · have hflag : s.world.healthy = ((verdicts l).foldl judge (0, false)).2 :=
      congrArg Prod.snd (probes_eq hw h)
    rw [hflag, (foldl_judge _).2, decide_eq_true_eq]
  · rintro l₁ x l₂ rfl hx
    exact highest_of_exec hw h hx
  · rintro l₁ x l₂ y l₃ rfl hx hy hok
    exact selected_climbs hw h hx hy hok
  · rintro l₁ x l₂ rfl hx hcount
    refine ⟨selected_ne_none hw h hx hcount, ?_⟩
    rintro l₃ y l₄ rfl hy hok
    have hwhole : l₁ ++ x :: (l₃ ++ y :: l₄) = (l₁ ++ x :: l₃) ++ y :: l₄ := by simp
    exact selected_ne_none hw (hwhole ▸ h) hy
      (hcount.trans (min_le_min_left 255 (failures_climb hy hok)))

theorem ladder_monotone_stranded :
    ∃ l s, (machine (Config.default none)).Exec (State.start (World.sample [])) l s ∧
      Ladder (Config.default none).recovery l s.world := by
  obtain ⟨l, hl, _⟩ := Machine.exec_of_run (M := machine (Config.default none))
    (s := State.start (World.sample [])) (failedProbes Env.stranded 0 [1, 2, 3]) rfl
  exact ⟨l, _, hl, ladder_monotone (sample_boot []) hl⟩

end WarpRust.Supervisor
