import WarpRust.Proxy.Relay

/-!
# When the idle watcher fires

The relay with a record of its progress: the times at which a peer accepted bytes, those at
which a whole chunk was written, which is when the watcher is notified, and the last time the
watcher took a notification.
-/

namespace WarpRust.Proxy.Relay
open Library

structure Logged where
  relay : State
  accepted : List Instant
  completed : List Instant
  renewed : Instant

def accepts : Action → Bool
  | .write _ _ => true
  | _ => false

def completes (s : State) : Action → Bool
  | .write side k =>
    match (s.task side).pos with
    | .writing _ rest => k == rest.length
    | _ => false
  | _ => false

def renews : Action → Bool
  | .notified => true
  | _ => false

namespace Logged

def init (p : Params) (start : Instant) : Logged := ⟨.init p start, [], [], start⟩

def after (s : Logged) (a : Action) (r : State) : Logged where
  relay := r
  accepted := if accepts a then s.accepted ++ [s.relay.now] else s.accepted
  completed := if completes s.relay a then s.completed ++ [s.relay.now] else s.completed
  renewed := if renews a then s.relay.now else s.renewed

def machine (p : Params) : Machine Logged Action where
  step s a := (step p s.relay a).map (s.after a)

def Covered (p : Params) (start : Instant) (s : Logged) (times : List Instant) : Prop :=
  ∀ since, start ≤ since → since + p.idle ≤ s.relay.now →
    ∃ t ∈ times, since < t ∧ t ≤ since + p.idle

def Live (p : Params) (start : Instant) (s : Logged) : Prop := s.Covered p start s.accepted

def LiveByChunks (p : Params) (start : Instant) (s : Logged) : Prop := s.Covered p start s.completed

structure Inv (p : Params) (start : Instant) (s : Logged) : Prop where
  start_le : start ≤ s.renewed
  renewed_le : s.renewed ≤ s.relay.now
  deadline_eq : ∀ d, s.relay.watcher = .watching d → d = s.renewed + p.idle
  completed_le : ∀ t ∈ s.completed, t ≤ s.relay.now
  taken : s.relay.permit = false → ∀ t ∈ s.completed, t ≤ s.renewed

variable {p : Params} {start : Instant} {s t : Logged} {a : Action} {r : State}

theorem inv_init (p : Params) (start : Instant) : Inv p start (init p start) where
  start_le := le_rfl
  renewed_le := le_rfl
  deadline_eq := by
    intro d hd
    cases hd
    rfl
  completed_le := nofun
  taken := fun _ => nofun

theorem after_completed (h : completes s.relay a = false) :
    (s.after a r).completed = s.completed := by
  rw [after, h]
  rfl

theorem after_renewed (h : renews a = false) : (s.after a r).renewed = s.renewed := by
  rw [after, h]
  rfl

theorem Inv.keep (hs : Inv p start s) (hc : completes s.relay a = false) (hr : renews a = false)
    (hnow : s.relay.now ≤ r.now) (hpermit : r.permit = s.relay.permit)
    (hwatcher : ∀ d, r.watcher = .watching d → s.relay.watcher = .watching d) :
    Inv p start (s.after a r) where
  start_le := (after_renewed hr).symm ▸ hs.start_le
  renewed_le := (after_renewed hr).symm ▸ hs.renewed_le.trans hnow
  deadline_eq := by
    intro d hd
    rw [after_renewed hr]
    exact hs.deadline_eq d (hwatcher d hd)
  completed_le := by
    intro t ht
    rw [after_completed hc] at ht
    exact (hs.completed_le t ht).trans hnow
  taken := by
    intro hfalse t ht
    rw [after_completed hc] at ht
    rw [after_renewed hr]
    exact hs.taken (hpermit ▸ hfalse) t ht

theorem Inv.write (hs : Inv p start s) {side : Side} {chunk rest : List UInt8} {k : ℕ}
    (hpos : (s.relay.task side).pos = .writing chunk rest) :
    Inv p start (s.after (.write side k) (s.relay.wrote side chunk rest k)) := by
  by_cases hk : k = rest.length
  · have hc : completes s.relay (.write side k) = true := by
      rw [completes, hpos, hk]
      exact beq_self_eq_true _
    have hpermit : (s.relay.wrote side chunk rest k).permit = true := by
      rw [State.wrote, if_pos hk]
    have hnow := wrote_now (s := s.relay) side chunk rest k
    refine ⟨hs.start_le, hs.renewed_le.trans hnow.ge, ?_, ?_, ?_⟩
    · intro d hd
      exact hs.deadline_eq d ((wrote_watcher _ _ _ _).symm.trans hd)
    · intro t ht
      rw [after, hc, if_pos rfl] at ht
      refine le_of_le_of_eq ?_ hnow.symm
      rcases List.mem_append.mp ht with ht | ht
      · exact hs.completed_le t ht
      · exact (List.mem_singleton.mp ht).le
    · intro hfalse
      exact absurd (hpermit.symm.trans hfalse) nofun
  · have hc : completes s.relay (.write side k) = false := by
      rw [completes, hpos]
      exact beq_eq_false_iff_ne.mpr hk
    refine hs.keep hc rfl (wrote_now _ _ _ _).ge ?_
      fun d hd => (wrote_watcher _ _ _ _).symm.trans hd
    rw [State.wrote, if_neg hk]
    cases side <;> rfl

theorem inv_step (hs : Inv p start s) (h : (machine p).step s a = some t) : Inv p start t := by
  obtain ⟨r, hr, rfl⟩ := Option.map_eq_some_iff.mp h
  have hpermit {side : Side} {t : Task} : (s.relay.setTask side t).permit = s.relay.permit := by
    cases side <;> rfl
  have hwatcher {side : Side} {t : Task} (d : Instant)
      (hd : (s.relay.setTask side t).watcher = .watching d) : s.relay.watcher = .watching d :=
    (setTask_watcher _ _ _).symm.trans hd
  cases step_cases hr with
  | tick d => exact hs.keep rfl rfl (Nat.le_add_right _ _) rfl fun _ hd => hd
  | readOk => exact hs.keep rfl rfl (setTask_now _ _ _).ge hpermit hwatcher
  | readEnd => exact hs.keep rfl rfl (setTask_now _ _ _).ge hpermit hwatcher
  | write hpos => exact hs.write hpos
  | writeErr => exact hs.keep rfl rfl (setTask_now _ _ _).ge hpermit hwatcher
  | observe => exact hs.keep rfl rfl (setTask_now _ _ _).ge hpermit hwatcher
  | close => exact hs.keep rfl rfl (setTask_now _ _ _).ge hpermit hwatcher
  | notified =>
    refine ⟨hs.start_le.trans hs.renewed_le, le_rfl, ?_, hs.completed_le, fun _ => hs.completed_le⟩
    intro d hd
    cases hd
    rfl
  | fire => exact hs.keep rfl rfl le_rfl rfl nofun
  | stop => exact hs.keep rfl rfl le_rfl rfl nofun
  | graceExpire => exact hs.keep rfl rfl (le_max_left _ _) rfl fun _ hd => hd
  | reap => exact hs.keep rfl rfl (setTask_now _ _ _).ge hpermit hwatcher
  | _ => exact hs.keep rfl rfl le_rfl rfl fun _ hd => hd

/-- The watcher fires only when no chunk was completed for `idle`. -/
theorem not_liveByChunks_of_fire (hs : Inv p start s)
    (h : (machine p).step s .fire = some t) : ¬ LiveByChunks p start s := by
  intro hlive
  obtain ⟨r, hr, _⟩ := Option.map_eq_some_iff.mp h
  cases step_cases hr with
  | @fire deadline hwatcher _ hpermit hdue =>
    have hdeadline := hs.deadline_eq deadline hwatcher
    obtain ⟨t, ht, hlt, _⟩ := hlive s.renewed hs.start_le (hdeadline ▸ hdue)
    exact absurd (hs.taken hpermit t ht) (not_le.mpr hlt)

theorem fired_of_step (h : (machine p).step s a = some t) (ht : t.relay.watcher = .fired) :
    a = .fire ∨ s.relay.watcher = .fired := by
  obtain ⟨r, hr, rfl⟩ := Option.map_eq_some_iff.mp h
  cases step_cases hr with
  | fire => exact .inl rfl
  | notified => cases ht
  | stop => cases ht
  | readOk => exact .inr ((setTask_watcher _ _ _).symm.trans ht)
  | readEnd => exact .inr ((setTask_watcher _ _ _).symm.trans ht)
  | write => exact .inr ((wrote_watcher _ _ _ _).symm.trans ht)
  | writeErr => exact .inr ((setTask_watcher _ _ _).symm.trans ht)
  | observe => exact .inr ((setTask_watcher _ _ _).symm.trans ht)
  | close => exact .inr ((setTask_watcher _ _ _).symm.trans ht)
  | reap => exact .inr ((setTask_watcher _ _ _).symm.trans ht)
  | _ => exact .inr ht

theorem exists_fire {l : List (Taken Logged Action)} (h : (machine p).Exec (init p start) l s)
    (hs : s.relay.watcher = .fired) : ∃ x ∈ l, x.action = .fire := by
  induction h with
  | nil => cases hs
  | @snoc l t u a _ ha ih =>
    rcases fired_of_step ha hs with rfl | ht
    · exact ⟨_, List.mem_concat_self, rfl⟩
    · obtain ⟨x, hx, hfire⟩ := ih ht
      exact ⟨x, List.mem_append_left _ hx, hfire⟩

def ByChunks (p : Params) (start : Instant) (s : Logged) : Prop :=
  Live p start s → LiveByChunks p start s

/-- In a run whose progress is by whole chunks, the watcher cuts no relay that makes progress. -/
theorem live_relay_kept {l : List (Taken Logged Action)}
    (h : (machine p).Exec (init p start) l s) (hchunks : ∀ x ∈ l, ByChunks p start x.before) :
    (∀ x ∈ l, x.action = .fire → ¬ Live p start x.before) ∧
    ((∀ x ∈ l, Live p start x.before) → s.relay.watcher ≠ .fired) := by
  have hspared : ∀ x ∈ l, x.action = .fire → ¬ Live p start x.before := by
    intro x hx hfire hlive
    obtain ⟨hreach, hstep⟩ := h.taken hx
    have hinv := hreach.invariant (inv_init p start) fun _ _ _ => inv_step
    rw [hfire] at hstep
    exact not_liveByChunks_of_fire hinv hstep (hchunks x hx hlive)
  refine ⟨hspared, fun hlive hfired => ?_⟩
  obtain ⟨x, hx, hfire⟩ := exists_fire h hfired
  exact hspared x hx hfire (hlive x hx)

end Logged

/-! ### A slow transfer of one chunk -/

theorem covered_of_lt {s : Logged} {times : List Instant} {p : Params} {start : Instant}
    (h : s.relay.now < p.idle) : s.Covered p start times :=
  fun _ _ hwindow => absurd h (not_lt.mpr ((Nat.le_add_left _ _).trans hwindow))

/-- A chunk of one byte, written after half of the interval. -/
theorem live_relay_kept_byte :
    ∃ l s, (Logged.machine defaultParams).Exec (.init defaultParams 0) l s ∧
    s.relay.now = Duration.fromSecs 300 ∧ s.relay.watcher ≠ .fired := by
  obtain ⟨l, hl, hall⟩ := Machine.exec_of_runWith (M := Logged.machine defaultParams)
    (s := .init defaultParams 0) (p := fun x => decide (x.before.relay.now < defaultParams.idle))
    [.readOk .up [1], .tick (.fromSecs 150), .write .up 1, .notified, .tick (.fromSecs 150)] rfl
  have hsoon (x : Taken Logged Action) (hx : x ∈ l) : x.before.relay.now < defaultParams.idle :=
    of_decide_eq_true (hall x hx)
  have hkept := Logged.live_relay_kept hl fun x hx _ => covered_of_lt (hsoon x hx)
  exact ⟨l, _, hl, rfl, hkept.2 fun x hx => covered_of_lt (hsoon x hx)⟩

/-- Before the first interval of length `idle` is over, or at its end with progress in its
middle. -/
def early (s : Logged) : Bool :=
  decide (s.relay.now < defaultParams.idle) ||
    decide (s.relay.now = defaultParams.idle ∧ Duration.fromSecs 150 ∈ s.accepted)

theorem live_of_early {s : Logged} (h : early s = true) : s.Live defaultParams 0 := by
  rw [early, Bool.or_eq_true, decide_eq_true_eq, decide_eq_true_eq] at h
  rcases h with hlt | ⟨heq, hmem⟩
  · exact covered_of_lt hlt
  · intro since _ hwindow
    have hle : since ≤ s.relay.now - defaultParams.idle := Nat.le_sub_of_add_le hwindow
    rw [heq, Nat.sub_self] at hle
    obtain rfl := Nat.le_zero.mp hle
    exact ⟨_, hmem, by decide, by decide⟩

/-- Half of the interval after it was read, one byte of three is accepted, and no more after. -/
theorem live_relay_cut : ∃ l s, (Logged.machine defaultParams).Exec (.init defaultParams 0) l s ∧
    (∀ x ∈ l, x.before.Live defaultParams 0) ∧ s.relay.watcher = .fired := by
  obtain ⟨l, hl, hall⟩ := Machine.exec_of_runWith (M := Logged.machine defaultParams)
    (s := .init defaultParams 0) (p := fun x => early x.before)
    [.readOk .up [1, 2, 3], .tick (.fromSecs 150), .write .up 1, .tick (.fromSecs 150), .fire] rfl
  exact ⟨l, _, hl, fun x hx => live_of_early (hall x hx), rfl⟩

end WarpRust.Proxy.Relay
