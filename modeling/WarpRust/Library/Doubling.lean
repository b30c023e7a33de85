import Mathlib.Algebra.Order.Ring.Nat

/-!
# Doubling under a cap

A delay that doubles from `lo` and stops at `hi`, and what is left of it when a program narrows
both bounds to a word and clamps the number of doublings.
-/

namespace WarpRust.Library

def cappedDoubling (lo hi k : ℕ) : ℕ := min hi (lo * 2 ^ k)

variable {lo hi k m w e : ℕ}

theorem cappedDoubling_le : cappedDoubling lo hi k ≤ hi := min_le_left _ _

theorem le_mul_two_pow (lo k : ℕ) : lo ≤ lo * 2 ^ k :=
  Nat.le_mul_of_pos_right lo (Nat.two_pow_pos k)

theorem le_cappedDoubling (hle : lo ≤ hi) : lo ≤ cappedDoubling lo hi k :=
  le_min hle (le_mul_two_pow lo k)

theorem cappedDoubling_mono (hmk : m ≤ k) : cappedDoubling lo hi m ≤ cappedDoubling lo hi k :=
  min_le_min_left hi (Nat.mul_le_mul_left lo (Nat.pow_le_pow_right Nat.two_pos hmk))

theorem cappedDoubling_of_le (h : hi ≤ lo * 2 ^ k) : cappedDoubling lo hi k = hi := min_eq_left h

theorem mul_two_pow_le_iff : lo * 2 ^ k ≤ lo * 2 ^ m ↔ lo = 0 ∨ k ≤ m := by
  rcases Nat.eq_zero_or_pos lo with hlo | hlo
  · simp [hlo]
  · rw [Nat.mul_le_mul_left_iff hlo, Nat.pow_le_pow_iff_right (by decide), or_iff_right hlo.ne']

theorem cappedDoubling_clamped_iff :
    cappedDoubling lo hi (min k e) = cappedDoubling lo hi k ↔
      k ≤ e ∨ lo = 0 ∨ hi ≤ lo * 2 ^ e := by
  rcases Nat.le_total k e with hke | hek
  · rw [min_eq_left hke]
    exact iff_of_true rfl (.inl hke)
  · rw [min_eq_right hek]
    constructor
    · intro heq
      by_cases hcap : hi ≤ lo * 2 ^ e
      · exact .inr (.inr hcap)
      have hbelow : cappedDoubling lo hi e = lo * 2 ^ e := min_eq_right (not_le.mp hcap).le
      have hsame : lo * 2 ^ k ≤ lo * 2 ^ e := by
        rw [hbelow] at heq
        rcases min_choice hi (lo * 2 ^ k) with hmin | hmin
        · exact absurd (heq.trans hmin).ge hcap
        · exact (heq.trans hmin).ge
      rcases mul_two_pow_le_iff.mp hsame with hlo | hke
      · exact .inr (.inl hlo)
      · exact .inl hke
    · rintro (hke | rfl | hcap)
      · rw [le_antisymm hke hek]
      · rw [cappedDoubling, cappedDoubling, Nat.zero_mul, Nat.zero_mul]
      · rw [cappedDoubling_of_le hcap,
          cappedDoubling_of_le (hcap.trans
            (Nat.mul_le_mul_left lo (Nat.pow_le_pow_right Nat.two_pos hek)))]

theorem cappedDoubling_narrowed_iff (hw : 0 < w) (hle : lo ≤ hi) :
    cappedDoubling (lo % w) (hi % w) (min k e) = cappedDoubling lo hi k ↔
      (k ≤ e ∨ lo = 0 ∨ hi ≤ lo * 2 ^ e) ∧ (hi < w ∨ lo * 2 ^ k ≤ hi % w) := by
  by_cases hfits : hi < w
  · rw [Nat.mod_eq_of_lt hfits, Nat.mod_eq_of_lt (hle.trans_lt hfits), cappedDoubling_clamped_iff,
      and_iff_left (.inl hfits)]
  have hmod : hi % w < hi := (Nat.mod_lt hi hw).trans_le (not_lt.mp hfits)
  constructor
  · intro heq
    have hbelow : cappedDoubling lo hi k < hi := heq ▸ cappedDoubling_le.trans_lt hmod
    have hdoubled : cappedDoubling lo hi k = lo * 2 ^ k :=
      (min_choice hi (lo * 2 ^ k)).resolve_left hbelow.ne
    have hcap : lo * 2 ^ k ≤ hi % w := hdoubled ▸ heq ▸ cappedDoubling_le
    have hlo : lo % w = lo :=
      Nat.mod_eq_of_lt ((le_mul_two_pow lo k).trans_lt (hcap.trans_lt (Nat.mod_lt hi hw)))
    have hsame : lo * 2 ^ k ≤ lo * 2 ^ min k e := by
      rw [hlo, hdoubled] at heq
      exact heq ▸ min_le_right _ _
    refine ⟨?_, .inr hcap⟩
    rcases mul_two_pow_le_iff.mp hsame with hzero | hke
    · exact .inr (.inl hzero)
    · exact .inl (hke.trans (min_le_right k e))
  · rintro ⟨hexp, hcap⟩
    have hcap := hcap.resolve_left hfits
    have hlo : lo % w = lo :=
      Nat.mod_eq_of_lt ((le_mul_two_pow lo k).trans_lt (hcap.trans_lt (Nat.mod_lt hi hw)))
    have hsame : lo * 2 ^ k = lo * 2 ^ min k e := by
      rcases hexp with hke | rfl | hbehind
      · rw [min_eq_left hke]
      · rw [Nat.zero_mul, Nat.zero_mul]
      · have hlt : lo * 2 ^ k < lo * 2 ^ e := (hcap.trans_lt hmod).trans_le hbehind
        have hke : k ≤ e := (mul_two_pow_le_iff.mp hlt.le).resolve_left fun hzero => by
          rw [hzero, Nat.zero_mul, Nat.zero_mul] at hlt
          exact lt_irrefl 0 hlt
        rw [min_eq_left hke]
    rw [hlo, cappedDoubling, ← hsame, min_eq_right hcap, cappedDoubling,
      min_eq_right (hcap.trans hmod.le)]

end WarpRust.Library
