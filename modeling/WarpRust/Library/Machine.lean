import Mathlib.Data.Nat.Notation
import Mathlib.Logic.Relation

/-!
# Machines with partial labelled steps

A step that is not enabled is `none`. An execution keeps every transition it took, so a
property of a run can speak of the states before and after each step. An invariant that
one step preserves holds in every state an execution visits; a ranking function shows
that a goal is reached by a chosen kind of steps alone.
-/

namespace WarpRust.Library

structure Machine (σ α : Type*) where
  step : σ → α → Option σ

structure Taken (σ α : Type*) where
  before : σ
  action : α
  after : σ

theorem of_guarded {β : Type*} {c : Prop} [Decidable c] {x y : β}
    (h : (if c then some x else none) = some y) : c ∧ x = y := by
  by_cases hc : c
  · rw [if_pos hc] at h
    exact ⟨hc, Option.some.inj h⟩
  · rw [if_neg hc] at h
    cases h

theorem of_guarded_not {β : Type*} {c : Prop} [Decidable c] {x y : β}
    (h : (if c then none else some x) = some y) : ¬ c ∧ x = y := by
  by_cases hc : c
  · rw [if_pos hc] at h
    cases h
  · rw [if_neg hc] at h
    exact ⟨hc, Option.some.inj h⟩

namespace Machine
variable {σ α : Type*} {M : Machine σ α} {s t u : σ}

inductive Exec (M : Machine σ α) (s : σ) : List (Taken σ α) → σ → Prop
  | nil : Exec M s [] s
  | snoc {l : List (Taken σ α)} {t u : σ} {a : α} :
      Exec M s l t → M.step t a = some u → Exec M s (l ++ [⟨t, a, u⟩]) u

def Reachable (M : Machine σ α) (s t : σ) : Prop := ∃ l, M.Exec s l t

theorem Reachable.refl (s : σ) : M.Reachable s s := ⟨[], .nil⟩

theorem Reachable.next {a : α} (h : M.Reachable s t) (ha : M.step t a = some u) :
    M.Reachable s u := by
  obtain ⟨l, hl⟩ := h
  exact ⟨_, hl.snoc ha⟩

theorem Exec.reachable {l : List (Taken σ α)} (h : M.Exec s l t) : M.Reachable s t := ⟨l, h⟩

/-- The invariant rule: what holds at first and survives each step holds in every
reachable state. -/
theorem Reachable.invariant {I : σ → Prop} (h : M.Reachable s t) (h0 : I s)
    (hstep : ∀ t a u, I t → M.step t a = some u → I u) : I t := by
  obtain ⟨l, hl⟩ := h
  induction hl with
  | nil => exact h0
  | snoc _ ha ih => exact hstep _ _ _ ih ha

theorem Exec.taken {l : List (Taken σ α)} (h : M.Exec s l t) {x : Taken σ α} (hx : x ∈ l) :
    M.Reachable s x.before ∧ M.step x.before x.action = some x.after := by
  induction h with
  | nil => cases hx
  | snoc hl ha ih =>
    rcases List.mem_append.mp hx with hx | hx
    · exact ih hx
    · obtain rfl := List.mem_singleton.mp hx
      exact ⟨hl.reachable, ha⟩

theorem Exec.split {l₁ l₂ : List (Taken σ α)} {x : Taken σ α} (h : M.Exec s (l₁ ++ x :: l₂) t) :
    M.Exec s l₁ x.before ∧ M.step x.before x.action = some x.after := by
  generalize hl : l₁ ++ x :: l₂ = l at h
  induction h generalizing l₂ with
  | nil => cases l₁ <;> cases hl
  | snoc h ha ih =>
    obtain rfl | ⟨l₂, y, rfl⟩ := l₂.eq_nil_or_concat
    · obtain ⟨rfl, hx⟩ := List.append_inj' hl rfl
      obtain rfl := (List.cons.inj hx).1
      exact ⟨h, ha⟩
    · rw [List.concat_eq_append, ← List.cons_append, ← List.append_assoc] at hl
      exact ih (List.append_inj' hl rfl).1

theorem Exec.from_after {l₁ l₂ : List (Taken σ α)} {x : Taken σ α}
    (h : M.Exec s (l₁ ++ x :: l₂) t) : M.Exec x.after l₂ t := by
  generalize hl : l₁ ++ x :: l₂ = l at h
  induction h generalizing l₂ with
  | nil => cases l₁ <;> cases hl
  | snoc h ha ih =>
    obtain rfl | ⟨l₂, y, rfl⟩ := l₂.eq_nil_or_concat
    · obtain ⟨_, hx⟩ := List.append_inj' hl rfl
      obtain rfl := (List.cons.inj hx).1
      exact .nil
    · rw [List.concat_eq_append, ← List.cons_append, ← List.append_assoc] at hl
      obtain ⟨hl, hy⟩ := List.append_inj' hl rfl
      rw [List.concat_eq_append, hy]
      exact (ih hl).snoc ha

/-- A view of the state that each transition moves as what is observed of it says: at the end
it is the one at the start, moved by what was observed, in order. -/
theorem Exec.view_eq {β γ : Type*} (observe : Taken σ α → Option β) (view : σ → γ)
    (move : γ → β → γ)
    {l : List (Taken σ α)} (h : M.Exec s l t)
    (hmove : ∀ x : Taken σ α, M.step x.before x.action = some x.after →
      view x.after = (observe x).elim (view x.before) (move (view x.before))) :
    view t = (l.filterMap observe).foldl move (view s) := by
  induction h with
  | nil => rfl
  | @snoc l t u a _ ha ih =>
    rw [hmove ⟨t, a, u⟩ ha, ih, List.filterMap_append, List.foldl_append]
    cases hobs : observe ⟨t, a, u⟩ <;> simp [hobs]

/-- The simulation rule: a transition seen as a step of `N` is one between the views, any other
leaves the view alone; so the views run through the steps that are seen. -/
theorem Exec.simulate {τ β : Type*} {N : Machine τ β} (f : σ → τ) (g : Taken σ α → Option β)
    {l : List (Taken σ α)} (h : M.Exec s l t)
    (hstep : ∀ x : Taken σ α, M.step x.before x.action = some x.after →
      (g x).elim (f x.before = f x.after) fun b => N.step (f x.before) b = some (f x.after)) :
    N.Exec (f s) (l.filterMap fun x => (g x).map fun b => ⟨f x.before, b, f x.after⟩) (f t) := by
  induction h with
  | nil => exact .nil
  | @snoc l t u a _ ha ih =>
    have hx := hstep ⟨t, a, u⟩ ha
    rw [List.filterMap_append]
    cases hg : g ⟨t, a, u⟩ with
    | none =>
      rw [hg] at hx
      simpa [hg, ← show f t = f u from hx] using ih
    | some b =>
      rw [hg] at hx
      simpa [hg] using ih.snoc hx

theorem Exec.invariant {I : σ → Prop} {P : Taken σ α → Prop} {l : List (Taken σ α)}
    (h : M.Exec s l t) (h0 : I s) (hP : ∀ x ∈ l, P x)
    (hstep : ∀ x : Taken σ α, I x.before → P x → M.step x.before x.action = some x.after →
      I x.after) : I t := by
  induction h with
  | nil => exact h0
  | @snoc l t u a hl ha ih =>
    have ht : I t := ih fun x hx => hP x (List.mem_append_left _ hx)
    exact hstep ⟨t, a, u⟩ ht (hP _ List.mem_concat_self) ha

/-- A property of states that every transition either keeps or breaks: it holds at the end if
and only if no transition has broken it. -/
theorem Exec.kept_iff {I P : σ → Prop} {Q : Taken σ α → Prop} {l : List (Taken σ α)}
    (h : M.Exec s l t) (h0 : I s) (hP : P s) (hstep : ∀ t a u, I t → M.step t a = some u → I u)
    (hPQ : ∀ x : Taken σ α, I x.before → M.step x.before x.action = some x.after →
      (P x.after ↔ P x.before ∧ Q x)) : P t ↔ ∀ x ∈ l, Q x := by
  induction h with
  | nil => exact iff_of_true hP fun x hx => by cases hx
  | @snoc l t u a hl ha ih =>
    have ht : I t := hl.reachable.invariant h0 hstep
    rw [hPQ ⟨t, a, u⟩ ht ha, ih, List.forall_mem_append, List.forall_mem_singleton]

theorem Exec.last {P : σ → Prop} {l : List (Taken σ α)} (h : M.Exec s l t) (h0 : P s)
    (hall : ∀ x ∈ l, P x.after) : P t := by
  cases h with
  | nil => exact h0
  | snoc _ _ => exact hall _ List.mem_concat_self

theorem Exec.visited_iff {I P : σ → Prop} {Q : Taken σ α → Prop} {l : List (Taken σ α)}
    (h : M.Exec s l t) (h0 : I s) (hP : P s) (hstep : ∀ t a u, I t → M.step t a = some u → I u)
    (hPQ : ∀ x : Taken σ α, I x.before → P x.before → M.step x.before x.action = some x.after →
      (P x.after ↔ Q x)) : (∀ x ∈ l, P x.after) ↔ ∀ x ∈ l, Q x := by
  induction h with
  | nil => exact iff_of_true nofun nofun
  | @snoc l t u a hl ha ih =>
    have ht : I t := hl.reachable.invariant h0 hstep
    rw [List.forall_mem_append, List.forall_mem_append, List.forall_mem_singleton,
      List.forall_mem_singleton, ← ih]
    exact and_congr_right fun hall => hPQ ⟨t, a, u⟩ ht (hl.last hP hall) ha

theorem Exec.forall_iff {I : σ → Prop} {P Q : Taken σ α → Prop} {l : List (Taken σ α)}
    (h : M.Exec s l t) (h0 : I s) (hstep : ∀ t a u, I t → M.step t a = some u → I u)
    (hPQ : ∀ x : Taken σ α, I x.before → M.step x.before x.action = some x.after → (P x ↔ Q x)) :
    (∀ x ∈ l, P x) ↔ ∀ x ∈ l, Q x := by
  have hx : ∀ x ∈ l, (P x ↔ Q x) := by
    intro x hx
    obtain ⟨hr, ha⟩ := h.taken hx
    exact hPQ x (hr.invariant h0 hstep) ha
  exact forall₂_congr hx

theorem Exec.length_add_rank_le {l : List (Taken σ α)} (μ : σ → ℕ) (h : M.Exec s l t)
    (hstep : ∀ t a u, M.step t a = some u → μ u < μ t) : l.length + μ t ≤ μ s := by
  induction h with
  | nil => simp
  | @snoc l t u a _ ha ih =>
    have hlt := hstep t a u ha
    rw [List.length_append, List.length_singleton]
    omega

def run (M : Machine σ α) : σ → List α → Option σ
  | s, [] => some s
  | s, a :: as => (M.step s a).bind fun t => run M t as

theorem Exec.cons {a : α} {l : List (Taken σ α)} (ha : M.step s a = some t)
    (h : M.Exec t l u) : M.Exec s (⟨s, a, t⟩ :: l) u := by
  induction h with
  | nil => exact Exec.nil.snoc ha
  | snoc _ hb ih => exact ih.snoc hb

theorem exec_of_run (as : List α) (h : M.run s as = some t) :
    ∃ l, M.Exec s l t ∧ l.map Taken.action = as := by
  induction as generalizing s with
  | nil =>
    obtain rfl := Option.some.inj h
    exact ⟨[], .nil, rfl⟩
  | cons a as ih =>
    obtain ⟨r, ha, hr⟩ := Option.bind_eq_some_iff.mp h
    obtain ⟨l, hl, hm⟩ := ih hr
    exact ⟨_, hl.cons ha, congrArg (a :: ·) hm⟩

def runWith (M : Machine σ α) (p : Taken σ α → Bool) : σ → List α → Option σ
  | s, [] => some s
  | s, a :: as => (M.step s a).bind fun t => if p ⟨s, a, t⟩ then runWith M p t as else none

theorem exec_of_runWith {p : Taken σ α → Bool} (as : List α) (h : M.runWith p s as = some t) :
    ∃ l, M.Exec s l t ∧ ∀ x ∈ l, p x = true := by
  induction as generalizing s with
  | nil =>
    obtain rfl := Option.some.inj h
    exact ⟨[], .nil, nofun⟩
  | cons a as ih =>
    obtain ⟨r, ha, hr⟩ := Option.bind_eq_some_iff.mp h
    by_cases hp : p ⟨s, a, r⟩ = true
    · rw [if_pos hp] at hr
      obtain ⟨l, hl, hl'⟩ := ih hr
      exact ⟨_, hl.cons ha, List.forall_mem_cons.mpr ⟨hp, hl'⟩⟩
    · rw [if_neg hp] at hr
      cases hr

theorem reachable_of_run (as : List α) (h : M.run s as = some t) : M.Reachable s t := by
  obtain ⟨l, hl, _⟩ := exec_of_run as h
  exact hl.reachable

def StepBy (M : Machine σ α) (p : α → Prop) (s t : σ) : Prop :=
  ∃ a, p a ∧ M.step s a = some t

def Path (M : Machine σ α) (p : α → Prop) : σ → σ → Prop :=
  Relation.ReflTransGen (M.StepBy p)

/-- The progress rule: while the goal is not met some step of the kind `p` lowers `μ` and
keeps `I`; then such steps alone reach the goal. -/
theorem exists_path_of_rank {p : α → Prop} {I G : σ → Prop} (μ : σ → ℕ)
    (hstep : ∀ t, I t → ¬ G t → ∃ a u, p a ∧ M.step t a = some u ∧ I u ∧ μ u < μ t)
    (h0 : I s) : ∃ t, M.Path p s t ∧ I t ∧ G t := by
  induction hn : μ s using Nat.strongRecOn generalizing s with
  | _ n ih =>
    by_cases hg : G s
    · exact ⟨s, .refl, h0, hg⟩
    · obtain ⟨a, u, hp, ha, hu, hlt⟩ := hstep s h0 hg
      obtain ⟨t, hpath, ht, hgt⟩ := ih (μ u) (hn ▸ hlt) hu rfl
      exact ⟨t, .head ⟨a, hp, ha⟩ hpath, ht, hgt⟩

end Machine
end WarpRust.Library
