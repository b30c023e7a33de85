import WarpRust.Library.Doubling
import WarpRust.Supervisor.Outcome

/-!
# The sleep of the backoff

`backoff` doubles the lower bound with every failure and stops at the upper one, on milliseconds
narrowed to 64 bits and with 16 doublings at most. When that is the formula of its comment.
-/

namespace WarpRust.Supervisor
open Library Warp

def minMillis (r : RecoveryConfig) : ℕ := Duration.asMillis r.backoffMin
def maxMillis (r : RecoveryConfig) : ℕ := Duration.asMillis r.backoffMax

section
variable {r : RecoveryConfig} {m n : U8}

theorem minMillis_le (h : r.backoffMin ≤ r.backoffMax) : minMillis r ≤ maxMillis r :=
  Nat.div_le_div_right h

theorem fromMillis_le_iff {a b : ℕ} : Duration.fromMillis a ≤ Duration.fromMillis b ↔ a ≤ b :=
  Nat.mul_le_mul_right_iff (by decide)

theorem fromMillis_inj {a b : ℕ} : Duration.fromMillis a = Duration.fromMillis b ↔ a = b :=
  Nat.mul_left_inj (by decide)

/-- Saturation is never seen: the narrowed cap lies below it. -/
theorem backoffDelay_eq (r : RecoveryConfig) (n : U8) : backoffDelay r n =
    .fromMillis (cappedDoubling (minMillis r % 2 ^ 64) (maxMillis r % 2 ^ 64)
      (min (n.val - 1) 16)) := by
  have hpow : min (2 ^ min (n.val - 1) 16) u64Max = 2 ^ min (n.val - 1) 16 := by
    refine min_eq_left ((Nat.pow_le_pow_right Nat.two_pos (min_le_right _ 16)).trans ?_)
    decide
  have hmax : maxMillis r % 2 ^ 64 ≤ u64Max := Nat.le_sub_one_of_lt (Nat.mod_lt _ (by decide))
  refine fromMillis_inj.mpr ?_
  calc min (saturatingMul (minMillis r % 2 ^ 64) (min (2 ^ min (n.val - 1) 16) u64Max))
        (maxMillis r % 2 ^ 64)
      = min (min (minMillis r % 2 ^ 64 * 2 ^ min (n.val - 1) 16) u64Max)
          (maxMillis r % 2 ^ 64) := by
        rw [hpow, saturatingMul]
    _ = min (minMillis r % 2 ^ 64 * 2 ^ min (n.val - 1) 16) (maxMillis r % 2 ^ 64) := by
        rw [min_assoc, min_eq_right hmax]
    _ = cappedDoubling (minMillis r % 2 ^ 64) (maxMillis r % 2 ^ 64) (min (n.val - 1) 16) :=
        min_comm _ _

theorem backoffDelay_mono (hmn : m ≤ n) : backoffDelay r m ≤ backoffDelay r n := by
  rw [backoffDelay_eq, backoffDelay_eq, fromMillis_le_iff]
  exact cappedDoubling_mono (min_le_min_right 16 (Nat.sub_le_sub_right hmn 1))

/-- The sleep for `n` failures is the doubled lower bound, capped, with all that follows. -/
structure FollowsFormula (r : RecoveryConfig) (n : U8) : Prop where
  sleep : backoffDelay r n = .fromMillis (min (maxMillis r) (minMillis r * 2 ^ (n.val - 1)))
  lower : .fromMillis (minMillis r) ≤ backoffDelay r n
  upper : backoffDelay r n ≤ .fromMillis (maxMillis r)
  reached : maxMillis r ≤ minMillis r * 2 ^ (n.val - 1) →
    backoffDelay r n = .fromMillis (maxMillis r)
  mono : ∀ m ≤ n, backoffDelay r m ≤ backoffDelay r n

theorem followsFormula_iff_sleep (hle : minMillis r ≤ maxMillis r) : FollowsFormula r n ↔
    backoffDelay r n = .fromMillis (cappedDoubling (minMillis r) (maxMillis r) (n.val - 1)) := by
  constructor
  · exact FollowsFormula.sleep
  · intro heq
    refine ⟨heq, ?_, ?_, ?_, fun m hmn => backoffDelay_mono hmn⟩
    · rw [heq, fromMillis_le_iff]
      exact le_cappedDoubling hle
    · rw [heq, fromMillis_le_iff]
      exact cappedDoubling_le
    · intro hreached
      rw [heq, cappedDoubling_of_le hreached]

/-- The clamp at 16 doublings is not seen, and neither is the narrowing to 64 bits. -/
structure WithinClamps (r : RecoveryConfig) (n : U8) : Prop where
  doublings : n.val ≤ 17 ∨ minMillis r = 0 ∨ maxMillis r ≤ minMillis r * 2 ^ 16
  width : maxMillis r < 2 ^ 64 ∨ minMillis r * 2 ^ (n.val - 1) ≤ maxMillis r % 2 ^ 64

theorem withinClamps_iff : WithinClamps r n ↔
    (n.val - 1 ≤ 16 ∨ minMillis r = 0 ∨ maxMillis r ≤ minMillis r * 2 ^ 16) ∧
      (maxMillis r < 2 ^ 64 ∨ minMillis r * 2 ^ (n.val - 1) ≤ maxMillis r % 2 ^ 64) := by
  rw [Nat.sub_le_iff_le_add]
  exact ⟨fun h => ⟨h.doublings, h.width⟩, fun h => ⟨h.1, h.2⟩⟩

theorem followsFormula_iff (hle : minMillis r ≤ maxMillis r) :
    FollowsFormula r n ↔ WithinClamps r n := by
  rw [followsFormula_iff_sleep hle, backoffDelay_eq, fromMillis_inj, withinClamps_iff]
  exact cappedDoubling_narrowed_iff (by decide) hle

theorem backoffDelay_stuck (hn : 17 ≤ n) : backoffDelay r n = backoffDelay r 17 := by
  have hval : 17 ≤ n.val := hn
  rw [backoffDelay_eq, backoffDelay_eq, min_eq_right (by omega : 16 ≤ n.val - 1)]
  rfl

/-- The formula holds for every count when 16 doublings reach a cap of 64 bits. -/
theorem followsFormula_all_iff (hle : minMillis r ≤ maxMillis r) : (∀ n, FollowsFormula r n) ↔
    minMillis r = 0 ∨ maxMillis r < 2 ^ 64 ∧ maxMillis r ≤ minMillis r * 2 ^ 16 := by
  constructor
  · intro hall
    obtain ⟨hdoublings, hwidth⟩ := (followsFormula_iff hle).mp (hall 255)
    rcases hdoublings.resolve_left (by decide) with hzero | hcap
    · exact .inl hzero
    have hgrow : minMillis r * 2 ^ 16 ≤ minMillis r * 2 ^ ((255 : U8).val - 1) :=
      mul_two_pow_le_iff.mpr (.inr (by decide))
    refine .inr ⟨?_, hcap⟩
    rcases hwidth with hfits | hmod
    · exact hfits
    · exact (hcap.trans (hgrow.trans hmod)).trans_lt (Nat.mod_lt _ (by decide))
  · rintro hcap n
    refine (followsFormula_iff hle).mpr ?_
    rcases hcap with hzero | ⟨hwidth, hcap⟩
    · refine ⟨.inr (.inl hzero), .inr ?_⟩
      rw [hzero, Nat.zero_mul]
      exact Nat.zero_le _
    · exact ⟨.inr (.inr hcap), .inl hwidth⟩

end

theorem backoff_formula_iff {h : HostFacts} {cfg : Config} {isContainer trustedHostNet : Bool}
    {n : U8}
    (hv : cfg.validateWith h isContainer trustedHostNet = .ok ()) :
    FollowsFormula cfg.recovery n ↔ WithinClamps cfg.recovery n :=
  followsFormula_iff (minMillis_le (Config.recovery_ordered hv).backoff_le)

theorem backoff_formula_default : FollowsFormula (Config.default none).recovery 255 :=
  (backoff_formula_iff Config.default_valid).mpr ⟨.inr (.inr (by decide)), .inl (by decide)⟩

/-- From one millisecond to ten minutes: 18 failures ask for 131072 ms, the program sleeps
65536 ms. -/
theorem backoff_formula_fails : ¬ ∀ (h : HostFacts) (cfg : Config)
    (isContainer trustedHostNet : Bool) (n : U8),
    cfg.validateWith h isContainer trustedHostNet = .ok () → 1 ≤ n →
      FollowsFormula cfg.recovery n := by
  intro hall
  have hv : Config.validateWith ⟨false, none⟩ { Config.default none with
      recovery := { RecoveryConfig.default with
        backoffMin := .fromMillis 1, backoffMax := .fromSecs 600 } } false false = .ok () := by
    decide
  have hsleep := (hall _ _ _ _ 18 hv (by decide)).sleep
  exact absurd hsleep (by decide)

/-! ### In the handling of a failure -/

theorem wp_backoff_formula {cfg : Config} {env : Env} {w : World}
    {Q : Except Fault Unit → World → Prop}
    (hf : FollowsFormula cfg.recovery w.consecutiveFailures) : wp (backoff cfg env) Q w =
      Q (.ok ()) { w with
        host := (w.host.pass (.fromMillis (min (maxMillis cfg.recovery)
          (minMillis cfg.recovery * 2 ^ (w.consecutiveFailures.val - 1))))).pass
            (env.elapse .backoff) } := by
  rw [wp_backoff, World.slept, hf.sleep]

end WarpRust.Supervisor
