import Mathlib.Algebra.Order.Ring.Nat
import Mathlib.Data.Finset.Insert
import Mathlib.Data.Fintype.Basic
import WarpRust.Library.Machine

/-!
# Slots handed out round robin

A cursor goes round `n` slots and hands out the first free one it meets. `around a b` is how
far `b` lies ahead of `a`. Between two claims of one slot the cursor has gone all the way
round, so every other slot was taken at some moment in between.
-/

namespace WarpRust.Library.RoundRobin
variable {n : ℕ}

def around (a b : Fin n) : ℕ := if a ≤ b then b - a else n + b - a

theorem around_lt (a b : Fin n) : around a b < n := by
  unfold around
  split <;> omega

theorem around_self (a : Fin n) : around a a = 0 := by
  simp [around]

theorem around_inj {a b c : Fin n} (h : around a b = around a c) : b = c := by
  apply Fin.ext
  unfold around at h
  split at h <;> split at h <;> omega

theorem around_sub {a b c : Fin n} (h : around a b ≤ around a c) :
    around b c = around a c - around a b := by
  unfold around at *
  split at h <;> split at h <;> split <;> omega

theorem around_triangle (a b c : Fin n) : around a c ≤ around a b + around b c := by
  unfold around
  split <;> split <;> split <;> omega

structure Slots (n : ℕ) where
  taken : Finset (Fin n)
  next : Fin n

namespace Slots

def FirstFree (s : Slots n) (i : Fin n) : Prop :=
  i ∉ s.taken ∧ ∀ j, around s.next j < around s.next i → j ∈ s.taken

instance firstFree_decidable (s : Slots n) (i : Fin n) : Decidable (s.FirstFree i) :=
  inferInstanceAs (Decidable (_ ∧ _))

theorem FirstFree.unique {s : Slots n} {i j : Fin n} (hi : s.FirstFree i)
    (hj : s.FirstFree j) : i = j := by
  apply around_inj (a := s.next)
  by_contra hne
  rcases lt_or_gt_of_ne hne with hlt | hgt
  · exact hi.1 (hj.2 i hlt)
  · exact hj.1 (hi.2 j hgt)

theorem firstFree_of_lone {s : Slots n} {i : Fin n} (h : s.taken = Finset.univ.erase i) :
    s.FirstFree i := by
  rw [FirstFree, h]
  refine ⟨Finset.notMem_erase i _, fun j hj => ?_⟩
  exact Finset.mem_erase.mpr ⟨fun he => by simp [he] at hj, Finset.mem_univ j⟩

end Slots

variable [NeZero n]

def ahead (a : Fin n) (k : ℕ) : Fin n := Fin.ofNat n (a + k)

theorem val_ahead {a : Fin n} {k : ℕ} (hk : k ≤ n) :
    (ahead a k).val = if a + k < n then a + k else a + k - n := by
  rw [ahead, Fin.val_ofNat]
  by_cases h : a + k < n
  · rw [if_pos h, Nat.mod_eq_of_lt h]
  · rw [if_neg h, Nat.mod_eq_sub_mod (by omega), Nat.mod_eq_of_lt (by omega)]

theorem around_ahead {a : Fin n} {k : ℕ} (hk : k < n) : around a (ahead a k) = k := by
  have hval := val_ahead (a := a) hk.le
  unfold around
  split at hval <;> split <;> omega

theorem ahead_around (a b : Fin n) : ahead a (around a b) = b :=
  around_inj (around_ahead (around_lt a b))

theorem around_ahead_one {a k b : Fin n} (h : around a k < around a b) :
    around a (ahead k 1) = around a k + 1 := by
  have hlt := around_lt a b
  have hval := val_ahead (a := k) (k := 1) (by omega)
  unfold around at *
  split at hval <;> split at h <;> split at h <;> split <;> omega

theorem around_succ_lt {a b : Fin n} (h : b ≠ a) :
    around (ahead a 1) b < around (ahead a 1) a := by
  have hne : b.val ≠ a.val := fun he => h (Fin.ext he)
  have hval := val_ahead (a := a) (k := 1) (by omega)
  unfold around
  split at hval <;> split <;> split <;> omega

inductive Event (n : ℕ) where
  | claim (i : Fin n)
  | full
  | release (i : Fin n)

def Slots.step (s : Slots n) : Event n → Option (Slots n)
  | .claim i => if s.FirstFree i then some ⟨insert i s.taken, ahead i 1⟩ else none
  | .full => if ∀ i, i ∈ s.taken then some s else none
  | .release i => some ⟨s.taken.erase i, s.next⟩

def machine (n : ℕ) [NeZero n] : Machine (Slots n) (Event n) := ⟨Slots.step⟩

variable {s t u v w : Slots n} {i j k : Fin n}

theorem claim_firstFree (h : s.FirstFree i) :
    (machine n).step s (.claim i) = some ⟨insert i s.taken, ahead i 1⟩ := if_pos h

theorem step_full (h : ∀ i, i ∈ s.taken) : (machine n).step s .full = some s := if_pos h

theorem step_claim (h : (machine n).step s (.claim i) = some t) :
    s.FirstFree i ∧ t = ⟨insert i s.taken, ahead i 1⟩ := by
  obtain ⟨hfree, rfl⟩ := of_guarded h
  exact ⟨hfree, rfl⟩

def Before (i j : Fin n) (s : Slots n) : Prop :=
  around (ahead i 1) s.next ≤ around (ahead i 1) j

theorem Before.claim (hb : Before i j s) (hj : j ∉ s.taken) (hfree : s.FirstFree k) :
    around (ahead i 1) k ≤ around (ahead i 1) j := by
  have hk : around s.next k ≤ around s.next j := by
    by_contra hlt
    exact hj (hfree.2 j (by omega))
  have hjn := around_sub hb
  have hkn := around_triangle (ahead i 1) s.next k
  unfold Before at hb
  omega

theorem Before.step {e : Event n} (hb : Before i j s) (hj : j ∉ s.taken) (hj' : j ∉ t.taken)
    (h : (machine n).step s e = some t) : Before i j t := by
  cases e with
  | claim k =>
    obtain ⟨hfree, rfl⟩ := step_claim h
    have hle := hb.claim hj hfree
    have hne : around (ahead i 1) k ≠ around (ahead i 1) j := by
      intro he
      rw [around_inj he] at hj'
      exact hj' (Finset.mem_insert_self j s.taken)
    have hone := around_ahead_one (lt_of_le_of_ne hle hne)
    change around (ahead i 1) (ahead k 1) ≤ around (ahead i 1) j
    omega
  | full =>
    obtain ⟨_, rfl⟩ := of_guarded h
    exact hb
  | release k =>
    obtain rfl := Option.some.inj h
    exact hb

/-- Between two claims of `i` every other slot was taken at some moment. -/
theorem taken_between {l : List (Taken (Slots n) (Event n))}
    (hfirst : (machine n).step s (.claim i) = some u) (hrun : (machine n).Exec u l v)
    (hagain : (machine n).step v (.claim i) = some w) (hj : j ≠ i) :
    j ∈ u.taken ∨ ∃ x ∈ l, j ∈ x.after.taken := by
  by_contra hnot
  obtain ⟨hu, hl⟩ := not_or.mp hnot
  have hfree : ∀ x ∈ l, j ∉ x.after.taken := fun x hx hmem => hl ⟨x, hx, hmem⟩
  have hstart : Before i j u := by
    obtain ⟨_, rfl⟩ := step_claim hfirst
    simp [Before, around_self]
  have hend : Before i j v ∧ j ∉ v.taken := by
    refine hrun.invariant (I := fun s => Before i j s ∧ j ∉ s.taken) ⟨hstart, hu⟩ hfree ?_
    intro x hx hx' ha
    exact ⟨hx.1.step hx.2 hx' ha, hx'⟩
  obtain ⟨hi, _⟩ := step_claim hagain
  exact absurd (around_succ_lt hj) (not_lt.mpr (hend.1.claim hend.2 hi))

end WarpRust.Library.RoundRobin
