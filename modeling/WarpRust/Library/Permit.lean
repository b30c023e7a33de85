import Mathlib.Data.List.Basic

/-!
# One worker behind a permit

A notification with a permit, given by many and awaited by one worker that looks at everything
there is each time. Whoever posts a job announces it afterwards. The worker may also stop
waiting by itself, and a notification it did not take goes back. A worker that waits has seen
every job that was announced.
-/

namespace WarpRust.Library

structure Job where
  announced : Bool
  seen : Bool
  deriving DecidableEq

/-- The worker is about to look, has looked, or is registered. -/
inductive Place where
  | working
  | between
  | parked (woken : Bool)
  deriving DecidableEq

structure Board where
  permit : Bool
  place : Place
  jobs : List Job
  deriving DecidableEq

namespace Board

def init : Board := ⟨false, .between, []⟩

def post (b : Board) : Board := { b with jobs := b.jobs ++ [⟨false, false⟩] }

def notifyOne (b : Board) : Board :=
  match b.place with
  | .parked false => { b with place := .parked true }
  | _ => { b with permit := true }

def announce (b : Board) (i : ℕ) : Option Board :=
  b.jobs[i]?.bind fun j =>
    if j.announced then none
    else some (notifyOne { b with jobs := b.jobs.set i { j with announced := true } })

def lookOver (b : Board) : Board := { b with jobs := b.jobs.map ({ · with seen := true }) }

def look (b : Board) : Option Board :=
  if b.place = .working then some { b.lookOver with place := .between } else none

def await (b : Board) : Option Board :=
  match b.place with
  | .between =>
    some (if b.permit then { b with permit := false, place := .working }
      else { b with place := .parked false })
  | .parked true => some { b with place := .working }
  | _ => none

def leave (b : Board) : Option Board :=
  match b.place with
  | .between => some { b with place := .working }
  | .parked woken => some { b with permit := b.permit || woken, place := .working }
  | .working => none

def Due (b : Board) : Prop := b.permit = true ∨ b.place = .working ∨ b.place = .parked true

def asleep (b : Board) : Prop := b.place = .parked false

structure Heard (b : Board) : Prop where
  seen : b.Due ∨ ∀ j ∈ b.jobs, j.announced = true → j.seen = true
  parked : b.asleep → b.permit = false

variable {b c : Board} {i : ℕ} {j : Job}

theorem not_due_of_asleep (h : b.Heard) (ha : b.asleep) : ¬ b.Due := by
  rintro (hp | hp | hp)
  · rw [h.parked ha] at hp
    cases hp
  · rw [ha] at hp
    cases hp
  · rw [ha] at hp
    cases hp

theorem Heard.all_seen (h : b.Heard) (ha : b.asleep) :
    ∀ j ∈ b.jobs, j.announced = true → j.seen = true :=
  h.seen.resolve_left (not_due_of_asleep h ha)

theorem due_notifyOne (b : Board) : b.notifyOne.Due := by
  unfold notifyOne
  split
  · exact .inr (.inr rfl)
  · exact .inl rfl

theorem heard_init : init.Heard where
  seen := .inr nofun
  parked := nofun

theorem Heard.post (h : b.Heard) : b.post.Heard where
  seen := by
    rcases h.seen with hd | hseen
    · exact .inl hd
    · right
      intro j hj ha
      rcases List.mem_append.mp hj with hj | hj
      · exact hseen j hj ha
      · obtain rfl := List.mem_singleton.mp hj
        cases ha
  parked := h.parked

theorem heard_notifyOne (b : Board) : b.notifyOne.Heard where
  seen := .inl b.due_notifyOne
  parked := by
    intro ha
    unfold Board.notifyOne at ha ⊢
    split at ha
    · cases ha
    · next hne => exact absurd ha hne

theorem eq_of_announce (hc : b.announce i = some c) :
    ∃ j, b.jobs[i]? = some j ∧
    c = notifyOne { b with jobs := b.jobs.set i { j with announced := true } } := by
  obtain ⟨j, hj, hc⟩ := Option.bind_eq_some_iff.mp hc
  by_cases ha : j.announced = true
  · rw [if_pos ha] at hc
    cases hc
  · rw [if_neg ha] at hc
    exact ⟨j, hj, (Option.some.inj hc).symm⟩

theorem jobs_notifyOne (b : Board) : b.notifyOne.jobs = b.jobs := by
  unfold notifyOne
  split <;> rfl

theorem due_of_announce (hc : b.announce i = some c) : c.Due := by
  obtain ⟨j, _, rfl⟩ := eq_of_announce hc
  exact due_notifyOne _

theorem between_of_announce (hc : b.announce i = some c) (hp : b.place = .between) :
    c.place = .between := by
  obtain ⟨j, _, rfl⟩ := eq_of_announce hc
  rw [notifyOne, hp]

theorem heard_announce (hc : b.announce i = some c) : c.Heard := by
  obtain ⟨j, _, rfl⟩ := eq_of_announce hc
  exact heard_notifyOne _

theorem mem_lookOver (hj : j ∈ b.lookOver.jobs) : j.seen = true := by
  obtain ⟨j, _, rfl⟩ := List.mem_map.mp hj
  rfl

theorem Heard.lookOver (h : b.Heard) : b.lookOver.Heard where
  seen := .inr fun _ hj _ => mem_lookOver hj
  parked := h.parked

theorem eq_of_look (hc : b.look = some c) :
    b.place = .working ∧ c = { b.lookOver with place := .between } := by
  unfold look at hc
  split at hc
  · next hp => exact ⟨hp, (Option.some.inj hc).symm⟩
  · cases hc

theorem heard_look (hc : b.look = some c) : c.Heard := by
  obtain ⟨_, rfl⟩ := eq_of_look hc
  exact ⟨.inr fun _ hj _ => mem_lookOver hj, nofun⟩

theorem Heard.await (h : b.Heard) (hc : b.await = some c) : c.Heard := by
  unfold Board.await at hc
  split at hc
  · next hp =>
    obtain rfl := Option.some.inj hc
    by_cases hpermit : b.permit = true
    · rw [if_pos hpermit]
      exact ⟨.inl (.inr (.inl rfl)), nofun⟩
    · rw [if_neg hpermit]
      refine ⟨.inr (h.seen.resolve_left ?_), fun _ => Bool.eq_false_iff.mpr hpermit⟩
      rintro (hd | hd | hd)
      · exact hpermit hd
      · rw [hp] at hd
        cases hd
      · rw [hp] at hd
        cases hd
  · obtain rfl := Option.some.inj hc
    exact ⟨.inl (.inr (.inl rfl)), nofun⟩
  · cases hc

theorem heard_leave (hc : b.leave = some c) : c.Heard := by
  unfold Board.leave at hc
  split at hc
  · obtain rfl := Option.some.inj hc
    exact ⟨.inl (.inr (.inl rfl)), nofun⟩
  · obtain rfl := Option.some.inj hc
    exact ⟨.inl (.inr (.inl rfl)), nofun⟩
  · cases hc

theorem jobs_of_await (hc : b.await = some c) : c.jobs = b.jobs := by
  unfold await at hc
  split at hc
  · obtain rfl := Option.some.inj hc
    split <;> rfl
  · obtain rfl := Option.some.inj hc
    rfl
  · cases hc

theorem Due.await (h : b.Due) (hc : b.await = some c) : c.Due := by
  unfold Board.await at hc
  split at hc
  · next hp =>
    obtain rfl := Option.some.inj hc
    by_cases hpermit : b.permit = true
    · rw [if_pos hpermit]
      exact .inr (.inl rfl)
    · rcases h with hd | hd | hd
      · exact absurd hd hpermit
      · rw [hp] at hd
        cases hd
      · rw [hp] at hd
        cases hd
  · obtain rfl := Option.some.inj hc
    exact .inr (.inl rfl)
  · cases hc

theorem jobs_of_leave (hc : b.leave = some c) : c.jobs = b.jobs := by
  unfold leave at hc
  split at hc
  · obtain rfl := Option.some.inj hc
    rfl
  · obtain rfl := Option.some.inj hc
    rfl
  · cases hc

theorem working_of_leave (hc : b.leave = some c) : c.place = .working := by
  unfold Board.leave at hc
  split at hc
  · obtain rfl := Option.some.inj hc
    rfl
  · obtain rfl := Option.some.inj hc
    rfl
  · cases hc

end Board
end WarpRust.Library
