import WarpRust.Basic

/-!
# Egress statistics

Two counters of dial outcomes that the health probe takes and clears once a round. The two
halves of `take_window` are separate swaps, between which a dial may be recorded. The float
comparison agrees with the exact one as long as a window stays below `2 ^ 53` outcomes.
-/

namespace WarpRust.Egress
open Library.Binary64

def minSamples : ℕ := 20

def failRatio : Double := .fourFifths

structure EgressWindow where
  ok : ℕ
  failed : ℕ

namespace EgressWindow

def total (w : EgressWindow) : ℕ := saturatingAdd w.ok w.failed

def hasQuorum (w : EgressWindow) : Bool := decide (minSamples ≤ w.total)

def failRatio (w : EgressWindow) : Double :=
  if w.total = 0 then .ofNat 0 else (Double.ofNat w.failed).div (.ofNat w.total)

def isDegraded (w : EgressWindow) : Bool := w.hasQuorum && w.failRatio.ge Egress.failRatio

structure Degraded (w : EgressWindow) : Prop where
  quorum : 20 ≤ w.ok + w.failed
  ratio : (4 / 5 : ℚ) ≤ (w.failed : ℚ) / (w.ok + w.failed : ℕ)

theorem total_eq {w : EgressWindow} (h : w.ok + w.failed < 2 ^ 53) : w.total = w.ok + w.failed := by
  apply Nat.min_eq_left
  have hmax : u64Max = 2 ^ 64 - 1 := rfl
  omega

theorem isDegraded_iff {w : EgressWindow} (h : w.ok + w.failed < 2 ^ 53) :
    w.isDegraded = true ↔ w.Degraded := by
  have htotal := total_eq h
  rw [isDegraded, hasQuorum, Bool.and_eq_true, decide_eq_true_eq, htotal]
  by_cases hquorum : 20 ≤ w.ok + w.failed
  · have hpos : 0 < w.ok + w.failed := Nat.lt_of_lt_of_le (by decide) hquorum
    have hfailed : w.failed < 2 ^ 53 := Nat.lt_of_le_of_lt (Nat.le_add_left _ _) h
    have hratio : w.failRatio.ge Egress.failRatio = true ↔
        4 * (w.ok + w.failed) ≤ 5 * w.failed := by
      rw [failRatio, htotal, if_neg hpos.ne']
      exact Double.div_ge_fourFifths hpos hfailed h
    rw [hratio]
    have hq : (0 : ℚ) < (w.ok + w.failed : ℕ) := by exact_mod_cast hpos
    constructor
    · intro ⟨_, hle⟩
      refine ⟨hquorum, ?_⟩
      rw [div_le_div_iff₀ (by norm_num) hq]
      exact_mod_cast (by omega : 4 * (w.ok + w.failed) ≤ w.failed * 5)
    · intro hdegraded
      have hle := hdegraded.ratio
      rw [div_le_div_iff₀ (by norm_num) hq] at hle
      have hle' : 4 * (w.ok + w.failed) ≤ w.failed * 5 := by exact_mod_cast hle
      exact ⟨hquorum, by omega⟩
  · exact iff_of_false (fun hd => hquorum hd.1) (fun hd => hquorum hd.quorum)

end EgressWindow

structure EgressStats where
  ok : ℕ
  failed : ℕ

namespace EgressStats

def new : EgressStats := ⟨0, 0⟩

/-- `fetch_add` wraps. -/
def record (s : EgressStats) (success : Bool) : EgressStats :=
  if success then { s with ok := (s.ok + 1) % 2 ^ 64 }
  else { s with failed := (s.failed + 1) % 2 ^ 64 }

end EgressStats
end WarpRust.Egress
