import Mathlib.Data.List.Basic

/-!
# Waiting on a condition without losing a wakeup

A loop registers for notifications, checks, and awaits the notification only when the check
fails. Whoever changes what is checked looks at it afterwards and wakes the registered waiters
whose check may now succeed. Then no waiter sleeps while its check would succeed.
-/

namespace WarpRust.Library

/-- `ready` is the check of a loop of a kind, `signalled` what a notification goes by. -/
structure Condition (κ ν : Type*) where
  ready : κ → ν → Bool
  signalled : κ → ν → Bool

inductive Phase where
  | checking (woken : Bool)
  | awaiting (woken : Bool)
  | returned
  deriving DecidableEq

structure Waiter (ι κ : Type*) where
  object : ι
  kind : κ
  phase : Phase

namespace Waiter
variable {ι κ : Type*}

def wake (w : Waiter ι κ) : Waiter ι κ :=
  match w.phase with
  | .checking _ => { w with phase := .checking true }
  | .awaiting _ => { w with phase := .awaiting true }
  | .returned => w

def asleep (w : Waiter ι κ) : Prop := w.phase = .awaiting false

theorem not_asleep_wake (w : Waiter ι κ) : ¬ w.wake.asleep := by
  obtain ⟨object, kind, phase⟩ := w
  cases phase <;> simp [wake, asleep]

end Waiter

namespace Condition
variable {ι κ ν : Type*} {c : Condition κ ν} {view view' : ι → ν} {ws : List (Waiter ι κ)}
  {w : Waiter ι κ} {i : ℕ}

def notify (c : Condition κ ν) (view : ι → ν) (ws : List (Waiter ι κ)) : List (Waiter ι κ) :=
  ws.map fun w => if c.signalled w.kind (view w.object) then w.wake else w

/-- Nobody sleeps while its check would succeed; waiters in `except` are not looked at. -/
def Quiet (c : Condition κ ν) (except : Waiter ι κ → Prop) (view : ι → ν)
    (ws : List (Waiter ι κ)) : Prop :=
  ∀ w ∈ ws, w.asleep → c.ready w.kind (view w.object) = false ∨ except w

variable {except except' : Waiter ι κ → Prop}

theorem Quiet.nil : c.Quiet except view [] := nofun

theorem Quiet.notify (hc : ∀ k v, c.ready k v = true → c.signalled k v = true) :
    c.Quiet except view (c.notify view ws) := by
  intro w hw hs
  obtain ⟨w₀, _, rfl⟩ := List.mem_map.mp hw
  by_cases hsig : c.signalled w₀.kind (view w₀.object) = true
  · rw [if_pos hsig] at hs
    exact absurd hs w₀.not_asleep_wake
  · rw [if_neg hsig]
    exact .inl (Bool.eq_false_iff.mpr fun hr => hsig (hc _ _ hr))

theorem Quiet.change (h : c.Quiet except view ws)
    (hview : ∀ w ∈ ws, w.asleep → c.ready w.kind (view w.object) = false →
      c.ready w.kind (view' w.object) = false ∨ except' w)
    (hex : ∀ w, except w → except' w) : c.Quiet except' view' ws := by
  intro w hw hs
  rcases h w hw hs with hr | he
  · exact hview w hw hs hr
  · exact .inr (hex w he)

theorem Quiet.set (h : c.Quiet except view ws)
    (hw : w.asleep → c.ready w.kind (view w.object) = false ∨ except w) :
    c.Quiet except view (ws.set i w) := by
  intro x hx hs
  rcases List.mem_or_eq_of_mem_set hx with hx | rfl
  · exact h x hx hs
  · exact hw hs

theorem Quiet.concat (h : c.Quiet except view ws)
    (hw : w.asleep → c.ready w.kind (view w.object) = false ∨ except w) :
    c.Quiet except view (ws ++ [w]) := by
  intro x hx hs
  rcases List.mem_append.mp hx with hx | hx
  · exact h x hx hs
  · obtain rfl := List.mem_singleton.mp hx
    exact hw hs

end Condition
end WarpRust.Library
