import Mathlib.Data.Int.Log
import Mathlib.Data.Rat.Floor
import Mathlib.Tactic.Linarith
import Mathlib.Tactic.NormNum
import Mathlib.Tactic.Positivity
import Mathlib.Tactic.FieldSimp

/-!
# Nonnegative binary64 arithmetic

A finite nonnegative double is its exact rational value. Rounding is to nearest with ties
to even on a 53-bit significand; values here stay inside the normal exponent range, so
subnormals and overflow do not occur. Division by zero gives infinity or NaN.
-/

namespace WarpRust.Library.Binary64

def roundEven (q : ℚ) : ℤ :=
  if q - ⌊q⌋ < 1 / 2 then ⌊q⌋
  else if 1 / 2 < q - ⌊q⌋ then ⌊q⌋ + 1
  else if ⌊q⌋ % 2 = 0 then ⌊q⌋ else ⌊q⌋ + 1

def ulp (q : ℚ) : ℚ := (2 : ℚ) ^ (Int.log 2 q - 52)

def round (q : ℚ) : ℚ := roundEven (q / ulp q) * ulp q

theorem roundEven_intCast (k : ℤ) : roundEven k = k := by
  simp [roundEven]

theorem roundEven_floor_or (q : ℚ) : roundEven q = ⌊q⌋ ∨ roundEven q = ⌊q⌋ + 1 := by
  unfold roundEven
  split_ifs <;> simp

theorem roundEven_mono {x y : ℚ} (h : x ≤ y) : roundEven x ≤ roundEven y := by
  rcases (Int.floor_mono h).lt_or_eq with hlt | heq
  · have hx := roundEven_floor_or x
    have hy := roundEven_floor_or y
    omega
  · have hr : x - (⌊x⌋ : ℚ) ≤ y - (⌊y⌋ : ℚ) := by rw [heq]; linarith
    unfold roundEven
    rw [heq] at hr ⊢
    split_ifs <;> first | omega | (exfalso; linarith)

theorem ulp_pos (q : ℚ) : 0 < ulp q := zpow_pos (by norm_num) _

theorem ulp_mul (q : ℚ) : (2 : ℚ) ^ 52 * ulp q = (2 : ℚ) ^ Int.log 2 q := by
  unfold ulp
  rw [zpow_sub₀ (by norm_num)]
  norm_num
  ring

theorem round_le_pow (q : ℚ) : round q ≤ (2 : ℚ) ^ (Int.log 2 q + 1) := by
  have hu := ulp_pos q
  have hlt : q / ulp q ≤ ((2 ^ 53 : ℤ) : ℚ) := by
    rw [div_le_iff₀ hu]
    have h := (Int.lt_zpow_succ_log_self (b := 2) (by norm_num) q).le
    rw [zpow_add_one₀ (by norm_num)] at h
    push_cast at h ⊢
    linarith [ulp_mul q]
  have hr := roundEven_mono hlt
  rw [roundEven_intCast] at hr
  have hc : (roundEven (q / ulp q) : ℚ) ≤ 2 ^ 53 := by exact_mod_cast hr
  calc round q ≤ 2 ^ 53 * ulp q := mul_le_mul_of_nonneg_right hc hu.le
    _ = (2 : ℚ) ^ (Int.log 2 q + 1) := by
      rw [zpow_add_one₀ (by norm_num), ← ulp_mul q]; ring

theorem pow_le_round {q : ℚ} (hq : 0 < q) : (2 : ℚ) ^ Int.log 2 q ≤ round q := by
  have hu := ulp_pos q
  have hle : ((2 ^ 52 : ℤ) : ℚ) ≤ q / ulp q := by
    rw [le_div_iff₀ hu]
    have h := Int.zpow_log_le_self (b := 2) (by norm_num) hq
    push_cast at h ⊢
    linarith [ulp_mul q]
  have hr := roundEven_mono hle
  rw [roundEven_intCast] at hr
  have hc : (2 : ℚ) ^ 52 ≤ (roundEven (q / ulp q) : ℚ) := by exact_mod_cast hr
  calc (2 : ℚ) ^ Int.log 2 q = 2 ^ 52 * ulp q := (ulp_mul q).symm
    _ ≤ round q := mul_le_mul_of_nonneg_right hc hu.le

theorem round_mono {x y : ℚ} (hx : 0 < x) (h : x ≤ y) : round x ≤ round y := by
  rcases (Int.log_mono_right (b := 2) hx h).lt_or_eq with hlt | heq
  · calc round x ≤ (2 : ℚ) ^ (Int.log 2 x + 1) := round_le_pow x
      _ ≤ (2 : ℚ) ^ Int.log 2 y := zpow_le_zpow_right₀ (by norm_num) (by omega)
      _ ≤ round y := pow_le_round (hx.trans_le h)
  · have hu : ulp x = ulp y := by unfold ulp; rw [heq]
    have hd : x / ulp y ≤ y / ulp y := div_le_div_of_nonneg_right h (ulp_pos y).le
    have hc : (roundEven (x / ulp y) : ℚ) ≤ roundEven (y / ulp y) := by
      exact_mod_cast roundEven_mono hd
    unfold round
    rw [hu]
    exact mul_le_mul_of_nonneg_right hc (ulp_pos y).le

theorem round_natCast {n : ℕ} (hn : n < 2 ^ 53) : round n = n := by
  rcases Nat.eq_zero_or_pos n with rfl | hpos
  · simp [round, roundEven]
  have hlog : Int.log 2 (n : ℚ) ≤ 52 := by
    rw [Int.log_natCast]
    exact_mod_cast Nat.lt_succ_iff.mp (Nat.log_lt_of_lt_pow hpos.ne' hn)
  obtain ⟨k, hk⟩ := Int.eq_ofNat_of_zero_le (sub_nonneg.mpr hlog)
  have hu : ulp n = ((2 : ℚ) ^ k)⁻¹ := by
    unfold ulp
    rw [show Int.log 2 (n : ℚ) - 52 = -(k : ℤ) by omega, zpow_neg, zpow_natCast]
  have hq : (n : ℚ) / ulp n = ((n * 2 ^ k : ℤ) : ℚ) := by
    rw [hu]
    push_cast
    field_simp
  unfold round
  rw [hq, roundEven_intCast, ← hq]
  exact div_mul_cancel₀ _ (ulp_pos n).ne'

theorem round_of_half_le {q : ℚ} (hlo : 1 / 2 ≤ q) (hhi : q < 1) :
    round q = roundEven (q * 2 ^ 53) / 2 ^ 53 := by
  have hpos : 0 < q := by linarith
  have hlog : Int.log 2 q = -1 := by
    apply le_antisymm
    · have h := (Int.lt_zpow_iff_log_lt (b := 2) (x := 0) (by norm_num) hpos).mp
        (by simpa using hhi)
      omega
    · exact (Int.zpow_le_iff_le_log (b := 2) (by norm_num) hpos).mp (by norm_num; linarith)
  have hu : ulp q = (2 ^ 53 : ℚ)⁻¹ := by
    unfold ulp
    rw [hlog]
    norm_num
  unfold round
  rw [hu, div_inv_eq_mul, div_eq_mul_inv]

/-- A nonnegative double, or one of the two special values that division can give. -/
inductive Double where
  | nan
  | inf
  | finite (q : ℚ)
  deriving DecidableEq

namespace Double

def ofNat (n : ℕ) : Double := .finite (round n)

def div : Double → Double → Double
  | .finite a, .finite b =>
    if b = 0 then (if a = 0 then .nan else .inf) else .finite (round (a / b))
  | .finite _, .inf => .finite 0
  | .inf, .finite _ => .inf
  | _, _ => .nan

def mul : Double → Double → Double
  | .finite a, .finite b => .finite (round (a * b))
  | .finite a, .inf => if a = 0 then .nan else .inf
  | .inf, .finite a => if a = 0 then .nan else .inf
  | .inf, .inf => .inf
  | _, _ => .nan

def ge : Double → Double → Bool
  | .finite a, .finite b => b ≤ a
  | .inf, .finite _ => true
  | .inf, .inf => true
  | _, _ => false

def fourFifths : Double := .finite (round (4 / 5))

theorem round_fourFifths : round (4 / 5) = 7205759403792794 / 2 ^ 53 := by
  rw [round_of_half_le (by norm_num) (by norm_num)]
  norm_num [roundEven]

theorem round_below_fourFifths :
    round (4 / 5 - 1 / (5 * 2 ^ 53)) = 7205759403792793 / 2 ^ 53 := by
  rw [round_of_half_le (by norm_num) (by norm_num)]
  norm_num [roundEven]

/-- Comparing a quotient of exact naturals with the literal `0.8` is comparing the exact
fraction with `4/5`: below `2 ^ 53` no fraction lies close enough under `4/5` to round up. -/
theorem div_ge_fourFifths {f t : ℕ} (ht : 0 < t) (hf : f < 2 ^ 53) (ht' : t < 2 ^ 53) :
    ((ofNat f).div (ofNat t)).ge fourFifths = true ↔ 4 * t ≤ 5 * f := by
  have htq : (0 : ℚ) < t := by exact_mod_cast ht
  simp only [ofNat, div, fourFifths, ge, round_natCast hf, round_natCast ht', htq.ne', if_false,
    decide_eq_true_eq]
  constructor
  · intro h
    by_contra hlt
    have hle : 5 * f + 1 ≤ 4 * t := by omega
    have hx : (f : ℚ) / t ≤ 4 / 5 - 1 / (5 * 2 ^ 53) := by
      rw [div_le_iff₀ htq]
      have hleq : 5 * (f : ℚ) + 1 ≤ 4 * t := by exact_mod_cast hle
      have ht53 : (t : ℚ) ≤ 2 ^ 53 := by exact_mod_cast ht'.le
      have hfrac : (t : ℚ) / 2 ^ 53 ≤ 1 := (div_le_one (by norm_num)).mpr ht53
      have hexp : (4 / 5 - 1 / (5 * 2 ^ 53)) * (t : ℚ) = 4 / 5 * t - t / 2 ^ 53 / 5 := by ring
      rw [hexp]
      linarith
    rcases Nat.eq_zero_or_pos f with rfl | hfpos
    · rw [round_fourFifths] at h
      norm_num [round, roundEven] at h
    · have hfq : (0 : ℚ) < (f : ℚ) / t := div_pos (by exact_mod_cast hfpos) htq
      have hr := round_mono hfq hx
      rw [round_below_fourFifths] at hr
      rw [round_fourFifths] at h
      linarith
  · intro h
    apply round_mono (by norm_num)
    rw [div_le_div_iff₀ (by norm_num) htq]
    have hq : (4 : ℚ) * t ≤ 5 * f := by exact_mod_cast h
    linarith

/-- A divisor too large to be exact is more than twice the dividend: rounding cannot carry
the quotient past a half. -/
theorem div_lt_fourFifths_of_large {f t : ℕ} (hf : f < 2 ^ 52) (ht : 2 ^ 53 ≤ t) :
    ((ofNat f).div (ofNat t)).ge fourFifths = false := by
  have hbig : ((2 ^ 53 - 1 : ℕ) : ℚ) ≤ round t := by
    rw [← round_natCast (n := 2 ^ 53 - 1) (by norm_num)]
    exact round_mono (by norm_num) (by exact_mod_cast (by omega : 2 ^ 53 - 1 ≤ t))
  have htq : (0 : ℚ) < round t := lt_of_lt_of_le (by norm_num) hbig
  have hround : round ((f : ℚ) / round t) ≤ 1 / 2 := by
    rcases Nat.eq_zero_or_pos f with rfl | hfpos
    · norm_num [round, roundEven]
    · have hhalf : (f : ℚ) / round t ≤ 1 / 2 := by
        rw [div_le_iff₀ htq]
        have hfq : (f : ℚ) + 1 ≤ 2 ^ 52 := by exact_mod_cast hf
        push_cast at hbig
        linarith
      have hmono := round_mono (div_pos (by exact_mod_cast hfpos) htq) hhalf
      rwa [round_of_half_le (q := 1 / 2) le_rfl (by norm_num),
        show (1 / 2 * 2 ^ 53 : ℚ) = ((2 ^ 52 : ℤ) : ℚ) by norm_num, roundEven_intCast,
        show (((2 ^ 52 : ℤ) : ℚ) / 2 ^ 53) = 1 / 2 by norm_num] at hmono
  have hf53 : f < 2 ^ 53 := hf.trans (by norm_num)
  simp only [ofNat, div, fourFifths, ge, round_natCast hf53, htq.ne', if_false,
    decide_eq_false_iff_not, round_fourFifths]
  intro hge
  linarith

theorem div_ge_fourFifths_iff {f t : ℕ} (ht : 0 < t) (hf : f < 2 ^ 52) :
    ((ofNat f).div (ofNat t)).ge fourFifths = true ↔ 4 * t ≤ 5 * f := by
  rcases lt_or_ge t (2 ^ 53) with hsmall | hlarge
  · exact div_ge_fourFifths ht (hf.trans (by norm_num)) hsmall
  · rw [div_lt_fourFifths_of_large hf hlarge]
    constructor
    · nofun
    · intro hle
      omega

end Double
end WarpRust.Library.Binary64
