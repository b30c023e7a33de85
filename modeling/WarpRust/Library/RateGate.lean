import Mathlib.Algebra.Order.Ring.Nat
import Mathlib.Algebra.BigOperators.Group.List.Basic

/-!
# Gates that let one call through per interval

A gate remembers when it last let a call through and how many it has held back since; the next
one that passes reports them. The ledger of a gate is the history of its calls: nothing is lost
between the lines, and the lines keep their distance. The counter of a gate may be bounded.
-/

namespace WarpRust.Library

structure RateGate where
  last : Option ℕ
  held : ℕ
  deriving DecidableEq

structure Ledger extends RateGate where
  lines : List (ℕ × ℕ)
  calls : ℕ

namespace RateGate

def new : RateGate := ⟨none, 0⟩

def call (interval : ℕ) (bump : ℕ → ℕ) (now stamp : ℕ) (g : RateGate) : Option ℕ × RateGate :=
  match g.last with
  | some previous =>
    if now - previous < interval then (none, { g with held := bump g.held })
    else (some g.held, ⟨some stamp, 0⟩)
  | none => (some g.held, ⟨some stamp, 0⟩)

end RateGate

namespace Ledger
variable {interval bound now stamp : ℕ} {bump : ℕ → ℕ} {l : Ledger}

def new : Ledger := ⟨.new, [], 0⟩

def call (interval : ℕ) (bump : ℕ → ℕ) (now stamp : ℕ) (l : Ledger) : Ledger :=
  match l.toRateGate.call interval bump now stamp with
  | (some report, g) => ⟨g, l.lines ++ [(now, report)], l.calls + 1⟩
  | (none, g) => ⟨g, l.lines, l.calls + 1⟩

def reported (l : Ledger) : ℕ := (l.lines.map Prod.snd).sum

/-- Every call is a line, reported by a later line or still held back, and lines are at least an
interval apart. -/
structure Kept (interval bound : ℕ) (l : Ledger) : Prop where
  conserved : l.calls < bound → l.calls = l.lines.length + l.reported + l.held
  spaced : l.lines.Pairwise fun x y => x.1 + interval ≤ y.1
  last : ∀ x ∈ l.lines, ∃ p, l.last = some p ∧ x.1 ≤ p

theorem Kept.new : Kept interval bound new where
  conserved _ := rfl
  spaced := .nil
  last _ hx := by cases hx

theorem call_calls : (l.call interval bump now stamp).calls = l.calls + 1 := by
  rw [call]
  split <;> rfl

theorem Kept.pass (h : Kept interval bound l)
    (hnow : ∀ p, l.last = some p → p + interval ≤ now) (hstamp : now ≤ stamp) :
    Kept interval bound ⟨⟨some stamp, 0⟩, l.lines ++ [(now, l.held)], l.calls + 1⟩ where
  conserved hlt := by
    have hold := h.conserved (Nat.lt_of_succ_lt hlt)
    simp only [reported, List.map_append, List.sum_append, List.length_append, List.map_cons,
      List.map_nil, List.sum_cons, List.sum_nil, List.length_cons, List.length_nil] at hold ⊢
    omega
  spaced := by
    apply List.pairwise_append.mpr ⟨h.spaced, List.pairwise_singleton _ _, ?_⟩
    intro x hx y hy
    obtain ⟨p, hp, hxp⟩ := h.last x hx
    have hdist := hnow p hp
    rw [List.mem_singleton.mp hy]
    exact (Nat.add_le_add_right hxp interval).trans hdist
  last x hx := by
    refine ⟨stamp, rfl, ?_⟩
    rcases List.mem_append.mp hx with hx | hx
    · obtain ⟨p, hp, hxp⟩ := h.last x hx
      have hdist := hnow p hp
      omega
    · rw [List.mem_singleton.mp hx]
      exact hstamp

theorem Kept.hold (h : Kept interval bound l) (hbump : ∀ n, n + 1 < bound → bump n = n + 1) :
    Kept interval bound ⟨⟨l.last, bump l.held⟩, l.lines, l.calls + 1⟩ where
  conserved hlt := by
    have hold := h.conserved (Nat.lt_of_succ_lt hlt)
    have hheld : bump l.held = l.held + 1 := by
      apply hbump
      dsimp only at hlt
      omega
    simp only [reported, hheld] at hold ⊢
    omega
  spaced := h.spaced
  last := h.last

theorem Kept.call (h : Kept interval bound l) (hpos : 0 < interval)
    (hbump : ∀ n, n + 1 < bound → bump n = n + 1) (hstamp : now ≤ stamp) :
    Kept interval bound (l.call interval bump now stamp) := by
  unfold Ledger.call RateGate.call
  cases hl : l.last with
  | none =>
    simp only
    exact h.pass (fun p hp => by rw [hl] at hp; cases hp) hstamp
  | some previous =>
    simp only
    by_cases hearly : now - previous < interval
    · rw [if_pos hearly]
      exact hl ▸ h.hold hbump
    · rw [if_neg hearly]
      refine h.pass (fun p hp => ?_) hstamp
      obtain rfl := Option.some.inj (hl.symm.trans hp)
      omega

end Ledger
end WarpRust.Library
