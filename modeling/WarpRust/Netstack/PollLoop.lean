import Mathlib.Algebra.Order.Ring.Nat
import WarpRust.Library.Machine
import WarpRust.Library.Permit

/-!
# The poll loop

`NetStack::run_poll_loop` and the tasks around it. Each round computes under the lock how long
smoltcp needs no attention, sleeps so long or until a `kick`, and polls. A task that changes the
stack kicks after it has left the lock (`connect`, `write`, a UDP send, `run_rx_loop`); reads,
`shutdown` and the removal of a socket do not kick, and some tasks call `poll` themselves.
-/

namespace WarpRust.Netstack.PollLoop
open Library

variable {σ : Type*}

/-- `Interface::poll_at` and `has_pending_tx`; times are in microseconds. -/
structure Stack (σ : Type*) where
  pollAt : σ → ℕ → Option ℕ
  hasPendingTx : σ → Bool

/-- The `sleep_dur` of a round in milliseconds, at most a second. -/
def sleepDur (k : Stack σ) (stack : σ) (now : ℕ) : ℕ :=
  if k.hasPendingTx stack then 1
  else
    match k.pollAt stack now with
    | some due => if now < due then min ((due - now) / 1000) 1000 else 0
    | none => 1000

structure Sleep where
  lookedAt : ℕ
  dur : ℕ
  deriving DecidableEq

/-- A round has not looked at the stack yet, or has computed its sleep, or sleeps from `start`. -/
inductive Round where
  | fresh
  | computed (sleep : Sleep)
  | sleeping (sleep : Sleep) (start : ℕ)
  deriving DecidableEq

def Round.sleep : Round → Option Sleep
  | fresh => none
  | computed sleep => some sleep
  | sleeping sleep _ => some sleep

/-- The jobs of the board are the changes that a kick follows. `unkicked` records that the stack
has changed since the loop looked in a way that no kick follows. -/
structure State (σ : Type*) where
  now : ℕ
  stack : σ
  board : Board
  round : Round
  unkicked : Bool
  deriving DecidableEq

inductive Action (σ : Type*) where
  | tick (d : ℕ)
  | change (stack : σ)
  | kick (i : ℕ)
  | changeUnkicked (stack : σ)
  | otherPoll (stack : σ)
  | look
  | sleep
  | notified
  | elapsed
  | poll (stack : σ)

namespace State

def init (stack : σ) (now : ℕ) : State σ := ⟨now, stack, .init, .fresh, false⟩

def step (k : Stack σ) (s : State σ) : Action σ → Option (State σ)
  | .tick d => some { s with now := s.now + d }
  | .change stack => some { s with stack := stack, board := s.board.post }
  | .kick i => (s.board.announce i).map ({ s with board := · })
  | .changeUnkicked stack => some { s with stack := stack, unkicked := true }
  | .otherPoll stack => some { s with stack := stack, board := s.board.lookOver, unkicked := true }
  | .look =>
    match s.board.place, s.round with
    | .between, .fresh =>
      some { s with round := .computed ⟨s.now, sleepDur k s.stack s.now⟩, unkicked := false }
    | _, _ => none
  | .sleep =>
    match s.round with
    | .computed sleep => some { s with round := .sleeping sleep s.now }
    | _ => none
  -- the branches of the select
  | .notified =>
    match s.round with
    | .sleeping _ _ => s.board.await.map ({ s with board := · })
    | _ => none
  | .elapsed =>
    match s.round with
    | .sleeping sleep start =>
      if start + 1000 * sleep.dur ≤ s.now then s.board.leave.map ({ s with board := · }) else none
    | _ => none
  | .poll stack => s.board.look.map ({ s with stack := stack, board := ·, round := .fresh })

end State

def machine (k : Stack σ) : Machine (State σ) (Action σ) := ⟨State.step k⟩

variable {k : Stack σ} {s t : State σ} {a : Action σ} {stack : σ} {now : ℕ} {sleep : Sleep}

theorem sleepDur_le (k : Stack σ) (stack : σ) (now : ℕ) : sleepDur k stack now ≤ 1000 := by
  unfold sleepDur
  split
  · omega
  · split
    · split <;> omega
    · omega

theorem add_sleepDur_le {due : ℕ} (htx : k.hasPendingTx stack = false)
    (hdue : k.pollAt stack now = some due) : now + 1000 * sleepDur k stack now ≤ max now due := by
  rw [sleepDur, htx, if_neg Bool.false_ne_true, hdue]
  dsimp only
  split <;> omega

def Owed (b : Board) : Prop := ∃ j ∈ b.jobs, j.announced = false

/-- The computed sleep is that of the stack as it is, or the loop is about to poll, or a kick is
to come, or none will. -/
structure Inv (k : Stack σ) (s : State σ) : Prop where
  heard : s.board.Heard
  placed : s.board.place = .between ∨ ∃ sleep start, s.round = .sleeping sleep start
  bound : ∀ sleep, s.round.sleep = some sleep → sleep.dur ≤ 1000
  current : ∀ sleep, s.round.sleep = some sleep → s.board.Due ∨ s.unkicked = true ∨ Owed s.board ∨
    sleep.dur = sleepDur k s.stack sleep.lookedAt
  looked : ∀ sleep, s.round.sleep = some sleep → sleep.lookedAt ≤ s.now
  started : ∀ sleep start, s.round = .sleeping sleep start → sleep.lookedAt ≤ start ∧ start ≤ s.now

theorem inv_init (k : Stack σ) (stack : σ) (now : ℕ) : Inv k (.init stack now) where
  heard := Board.heard_init
  placed := .inl rfl
  bound := nofun
  current := nofun
  looked := nofun
  started := nofun

theorem Inv.look (h : Inv k s) (hp : s.board.place = .between) :
    Inv k { s with round := .computed ⟨s.now, sleepDur k s.stack s.now⟩, unkicked := false } where
  heard := h.heard
  placed := .inl hp
  bound := by
    intro sleep hs
    obtain rfl := Option.some.inj hs
    exact sleepDur_le k s.stack s.now
  current := by
    intro sleep hs
    obtain rfl := Option.some.inj hs
    exact .inr (.inr (.inr rfl))
  looked := by
    intro sleep hs
    obtain rfl := Option.some.inj hs
    exact le_rfl
  started := nofun

theorem Inv.select {b : Board} {start : ℕ} (h : Inv k s) (hr : s.round = .sleeping sleep start)
    (hb : b.Heard) (hdue : b.Due ∨ b.jobs = s.board.jobs ∧ (s.board.Due → b.Due)) :
    Inv k { s with board := b } where
  heard := hb
  placed := .inr ⟨sleep, start, hr⟩
  bound := h.bound
  looked := h.looked
  started := h.started
  current := by
    intro x hx
    rcases hdue with hdue | ⟨hjobs, hdue⟩
    · exact .inl hdue
    · rcases h.current x hx with hd | hu | ho | hdur
      · exact .inl (hdue hd)
      · exact .inr (.inl hu)
      · refine .inr (.inr (.inl ?_))
        unfold Owed
        rw [hjobs]
        exact ho
      · exact .inr (.inr (.inr hdur))

theorem Inv.step (h : Inv k s) (ha : (machine k).step s a = some t) : Inv k t := by
  cases a with
  | tick d =>
    obtain rfl := Option.some.inj ha
    refine ⟨h.heard, h.placed, h.bound, h.current, fun x hx => ?_, fun x start hx => ?_⟩
    · exact (h.looked x hx).trans (Nat.le_add_right _ _)
    · exact (h.started x start hx).imp_right fun hle => hle.trans (Nat.le_add_right _ _)
  | change stack =>
    obtain rfl := Option.some.inj ha
    exact ⟨h.heard.post, h.placed, h.bound,
      fun _ _ => .inr (.inr (.inl ⟨_, List.mem_append_right _ (List.mem_singleton_self _), rfl⟩)),
      h.looked, h.started⟩
  | kick i =>
    obtain ⟨b, hb, rfl⟩ := Option.map_eq_some_iff.mp ha
    exact ⟨Board.heard_announce hb, h.placed.imp_left (Board.between_of_announce hb), h.bound,
      fun _ _ => .inl (Board.due_of_announce hb), h.looked, h.started⟩
  | changeUnkicked stack =>
    obtain rfl := Option.some.inj ha
    exact ⟨h.heard, h.placed, h.bound, fun _ _ => .inr (.inl rfl), h.looked, h.started⟩
  | otherPoll stack =>
    obtain rfl := Option.some.inj ha
    exact ⟨h.heard.lookOver, h.placed, h.bound, fun _ _ => .inr (.inl rfl), h.looked, h.started⟩
  | look =>
    change (match s.board.place, s.round with | .between, .fresh => _ | _, _ => none) = _ at ha
    split at ha
    · next hp _ =>
      obtain rfl := Option.some.inj ha
      exact h.look hp
    · cases ha
  | sleep =>
    change (match s.round with | .computed sleep => _ | _ => none) = _ at ha
    split at ha
    · next sleep hr =>
      obtain rfl := Option.some.inj ha
      have hsame : (Round.sleeping sleep s.now).sleep =
        s.round.sleep := by rw [hr, Round.sleep, Round.sleep]
      refine ⟨h.heard, .inr ⟨_, _, rfl⟩, fun x hx => h.bound x (hsame ▸ hx),
        fun x hx => h.current x (hsame ▸ hx), fun x hx => h.looked x (hsame ▸ hx), ?_⟩
      intro x start hx
      obtain ⟨rfl, rfl⟩ := Round.sleeping.inj hx
      exact ⟨h.looked sleep hsame.symm, le_rfl⟩
    · cases ha
  | notified =>
    change (match s.round with | .sleeping _ _ => _ | _ => none) = _ at ha
    split at ha
    · next sleep start hr =>
      obtain ⟨b, hb, rfl⟩ := Option.map_eq_some_iff.mp ha
      exact h.select hr (h.heard.await hb) (.inr ⟨Board.jobs_of_await hb, fun hd => hd.await hb⟩)
    · cases ha
  | elapsed =>
    change (match s.round with | .sleeping sleep start => _ | _ => none) = _ at ha
    split at ha
    · next sleep start hr =>
      by_cases hw : start + 1000 * sleep.dur ≤ s.now
      · rw [if_pos hw] at ha
        obtain ⟨b, hb, rfl⟩ := Option.map_eq_some_iff.mp ha
        exact h.select hr (Board.heard_leave hb) (.inl (.inr (.inl (Board.working_of_leave hb))))
      · rw [if_neg hw] at ha
        cases ha
    · cases ha
  | poll stack =>
    obtain ⟨b, hb, rfl⟩ := Option.map_eq_some_iff.mp ha
    obtain ⟨_, rfl⟩ := Board.eq_of_look hb
    exact ⟨Board.heard_look hb, .inl rfl, nofun, nofun, nofun, nofun⟩

theorem inv_of_reachable (hs : (machine k).Reachable (.init stack now) s) : Inv k s :=
  hs.invariant (inv_init k stack now) fun _ _ _ h ha => h.step ha

/-! ### A kick is answered -/

def Action.own : Action σ → Prop
  | .look | .sleep | .notified => True
  | _ => False

def State.rank (s : State σ) : ℕ :=
  match s.board.place with
  | .working => 0
  | .parked _ => 1
  | .between =>
    match s.round with
    | .sleeping _ _ => 1
    | .computed _ => 2
    | .fresh => 3

structure Coming (k : Stack σ) (n : ℕ) (s : State σ) : Prop where
  inv : Inv k s
  due : s.board.Due
  now : s.now = n

theorem Coming.exists_step {n : ℕ} (h : Coming k n s) (hw : s.board.place ≠ .working) :
    ∃ a t, Action.own a ∧ (machine k).step s a = some t ∧ Coming k n t ∧ t.rank < s.rank := by
  cases hp : s.board.place with
  | working => exact absurd hp hw
  | parked woken =>
    obtain ⟨sleep, start, hr⟩ := h.inv.placed.resolve_left (by rw [hp]; exact Place.noConfusion)
    have hwoken : woken = true := by
      refine Bool.of_not_eq_false fun hf => Board.not_due_of_asleep h.inv.heard ?_ h.due
      rw [Board.asleep, hp, hf]
    have ha : (machine k).step s .notified =
        some { s with board := { s.board with place := .working } } := by
      simp [machine, State.step, hr, Board.await, hp, hwoken]
    refine ⟨.notified, _, trivial, ha, ⟨h.inv.step ha, .inr (.inl rfl), h.now⟩, ?_⟩
    simp [State.rank, hp]
  | between =>
    have hpermit : s.board.permit = true := by
      rcases h.due with hd | hd | hd
      · exact hd
      · exact absurd hd hw
      · rw [hp] at hd
        cases hd
    cases hr : s.round with
    | fresh =>
      have ha : (machine k).step s .look = some { s with
          round := .computed ⟨s.now, sleepDur k s.stack s.now⟩, unkicked := false } := by
        simp [machine, State.step, hr, hp]
      refine ⟨.look, _, trivial, ha, ⟨h.inv.step ha, h.due, h.now⟩, ?_⟩
      simp [State.rank, hp, hr]
    | computed sleep =>
      have ha : (machine k).step s .sleep = some { s with round := .sleeping sleep s.now } := by
        simp [machine, State.step, hr]
      refine ⟨.sleep, _, trivial, ha, ⟨h.inv.step ha, h.due, h.now⟩, ?_⟩
      simp [State.rank, hp, hr]
    | sleeping sleep start =>
      have ha : (machine k).step s .notified =
          some { s with board := { s.board with permit := false, place := .working } } := by
        simp [machine, State.step, hr, Board.await, hp, hpermit]
      refine ⟨.notified, _, trivial, ha, ⟨h.inv.step ha, .inr (.inl rfl), h.now⟩, ?_⟩
      simp [State.rank, hp, hr]

/-- A kick is never lost: a sleeping loop has polled after every change that was kicked, and after
a kick the loop gets by its own moves, in no time, to a poll that sees the change. -/
theorem kick_answered (hs : (machine k).Reachable (.init stack now) s) :
    (s.board.asleep → ∀ j ∈ s.board.jobs, j.announced = true → j.seen = true) ∧
    ((∃ j ∈ s.board.jobs, j.announced = true ∧ j.seen = false) → ∀ after,
      ∃ t u, (machine k).Path Action.own s t ∧ t.now = s.now ∧
        (machine k).step t (.poll after) = some u ∧ ∀ j ∈ u.board.jobs, j.seen = true) := by
  have h := inv_of_reachable hs
  refine ⟨h.heard.all_seen, ?_⟩
  rintro ⟨j, hj, hannounced, hseen⟩ after
  have hdue : s.board.Due := by
    refine h.heard.seen.resolve_right fun hall => ?_
    rw [hall j hj hannounced] at hseen
    cases hseen
  obtain ⟨t, hpath, ht, hworking⟩ := Machine.exists_path_of_rank (M := machine k) (p := Action.own)
    (I := Coming k s.now) (G := fun t => t.board.place = .working) State.rank
    (fun _ ht hw => ht.exists_step hw) ⟨h, hdue, rfl⟩
  have hpoll : (machine k).step t (.poll after) = some { t with
      stack := after, board := { t.board.lookOver with place := .between }, round := .fresh } := by
    simp [machine, State.step, Board.look, hworking]
  exact ⟨t, _, hpath, ht.now, hpoll, fun j hj => Board.mem_lookOver hj⟩

def demoStack : Stack Bool where
  pollAt windowToUpdate now := if windowToUpdate then some now else none
  hasPendingTx _ := false

theorem kick_answered_rx :
    let s : State Bool :=
      ⟨5, false, ⟨false, .parked true, [⟨true, false⟩]⟩, .sleeping ⟨0, 1000⟩ 0, false⟩
    (s.board.asleep → ∀ j ∈ s.board.jobs, j.announced = true → j.seen = true) ∧
    ((∃ j ∈ s.board.jobs, j.announced = true ∧ j.seen = false) → ∀ after,
      ∃ t u, (machine demoStack).Path Action.own s t ∧ t.now = s.now ∧
        (machine demoStack).step t (.poll after) = some u ∧ ∀ j ∈ u.board.jobs, j.seen = true) := by
  intro s
  have hrun : (machine demoStack).Reachable (.init false 0) s := Machine.reachable_of_run
    [.look, .sleep, .notified, .tick 5, .change false, .kick 0] rfl
  exact kick_answered hrun

/-! ### How long the loop sleeps -/

/-- The loop sleeps at most a second. Asleep, it sleeps no longer than smoltcp allows for the
stack as it is, unless a kick is to come or something changed that no kick follows. -/
theorem sleeps_as_allowed {start : ℕ} (hs : (machine k).Reachable (.init stack now) s)
    (hr : s.round = .sleeping sleep start) :
    sleep.lookedAt ≤ start ∧ start ≤ s.now ∧ sleep.dur ≤ 1000 ∧
    (s.board.asleep → s.unkicked = true ∨ Owed s.board ∨
      if k.hasPendingTx s.stack then sleep.dur = 1
      else ∀ due, k.pollAt s.stack sleep.lookedAt = some due →
        sleep.lookedAt + 1000 * sleep.dur ≤ max sleep.lookedAt due) := by
  have h := inv_of_reachable hs
  have hsleep : s.round.sleep = some sleep := by rw [hr, Round.sleep]
  refine ⟨(h.started sleep start hr).1, (h.started sleep start hr).2, h.bound sleep hsleep,
    fun ha => ?_⟩
  rcases h.current sleep hsleep with hd | hu | ho | hdur
  · exact absurd hd (Board.not_due_of_asleep h.heard ha)
  · exact .inl hu
  · exact .inr (.inl ho)
  · refine .inr (.inr ?_)
    split
    · next htx => rw [hdur, sleepDur, if_pos htx]
    · next htx =>
      intro due hdue
      rw [hdur]
      exact add_sleepDur_le (Bool.eq_false_iff.mpr htx) hdue

/-- A stack that has only a retransmission to do, at the time that is its state. -/
def timerStack : Stack ℕ where
  pollAt due _ := some due
  hasPendingTx _ := false

theorem sleeps_as_allowed_timer :
    let s : State ℕ :=
      ⟨7, 200000, ⟨false, .parked false, []⟩, .sleeping ⟨0, 200⟩ 0, false⟩
    0 ≤ 0 ∧ 0 ≤ 7 ∧ 200 ≤ 1000 ∧
    (s.board.asleep → s.unkicked = true ∨ Owed s.board ∨
      if timerStack.hasPendingTx s.stack then 200 = 1
      else ∀ due, timerStack.pollAt s.stack 0 = some due → 0 + 1000 * 200 ≤ max 0 due) := by
  intro s
  have hrun : (machine timerStack).Reachable (.init 200000 0) s := Machine.reachable_of_run
    [.look, .sleep, .notified, .tick 7] (by decide)
  exact sleeps_as_allowed hrun rfl

-- A read opens the window of a socket, but the loop sleeps on for its whole second.
example :
    ((machine demoStack).run (.init false 0)
      [.look, .sleep, .notified, .changeUnkicked true, .tick 999999, .elapsed]).isNone ∧
    demoStack.pollAt true 0 = some 0 := by decide

end WarpRust.Netstack.PollLoop
