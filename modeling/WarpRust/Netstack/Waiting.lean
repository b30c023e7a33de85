import Mathlib.Data.PNat.Basic
import WarpRust.Library.Machine
import WarpRust.Library.Notify
import WarpRust.Netstack.Sockets

/-!
# Waiting for a socket

The loops of `TcpConnection::connect`, `read` and `write` and of `UdpHandle::send_to` and
`recv_from`: each registers with the signal of its socket, checks the socket under the lock and
awaits the signal when it has to. `notify_ready_sockets` follows every poll that may have
changed a socket; what a caller does to a socket itself is not followed by one.
-/

namespace WarpRust.Netstack.Waiting
open Library

/-- The fields of `SocketSignals`, with the loop that waits on each: `write` while some of its
data is left, `send_to` with the size of its datagram. -/
inductive Wait where
  | connect
  | read
  | write (left : ℕ+)
  | udpRead
  | udpWrite (size : ℕ)
  deriving DecidableEq

/-- What smoltcp tells about a socket. `payloadRoom` is the largest datagram for which the
payload ring has room, `canSend` of a UDP socket that a packet slot is free. -/
structure View where
  state : TcpState
  canRecv : Bool
  mayRecv : Bool
  canSend : Bool
  maySend : Bool
  payloadRoom : ℕ
  deriving DecidableEq

/-- The check of each loop finds what it waits for. `recv_slice` and the `send_slice` of a
connection take something whenever `can_recv` and `can_send` hold; that of a UDP socket answers
`BufferFull` without a slot and without room. -/
def ready : Wait → View → Bool
  | .connect, v => v.state = .established || v.state = .closed || v.state = .timeWait
  | .read, v => v.canRecv || !v.mayRecv
  | .write _, v => v.canSend || !v.maySend
  | .udpRead, v => v.canRecv
  | .udpWrite size, v => v.canSend && decide (size ≤ v.payloadRoom)

/-- `notify_ready_sockets` -/
def signalled : Wait → View → Bool
  | .connect, v =>
    match v.state with
    | .established | .closed | .timeWait => true
    | _ => false
  | .read, v => v.canRecv || !v.mayRecv
  | .write _, v => v.canSend || !v.maySend
  | .udpRead, v => v.canRecv
  | .udpWrite _, v => v.canSend

def condition : Condition Wait View := ⟨ready, signalled⟩

abbrev Waiter := Library.Waiter SocketHandle Wait

/-- `closed` are the sockets closed by `shutdown` since the last poll that changed something. -/
structure State where
  view : SocketHandle → View
  waiters : List Waiter
  closed : List SocketHandle

inductive PollResult where
  | none
  | socketStateChanged (view : SocketHandle → View)

/-- What a check does to its socket: it takes data out or puts `n` bytes in. A datagram makes no
room, and one that does not fit can cost some. -/
def Took (k : Wait) (v v' : View) (n : ℕ) : Prop :=
  match k with
  | .connect => v' = v
  | .read | .udpRead =>
    if v.canRecv then v' = { v with canRecv := v'.canRecv, mayRecv := v'.mayRecv } else v' = v
  | .write left =>
    if v.canSend then 0 < n ∧ n ≤ left ∧ v' = { v with canSend := v'.canSend } else v' = v
  | .udpWrite _ =>
    v' = { v with canSend := v'.canSend, payloadRoom := v'.payloadRoom } ∧
      (v'.canSend = true → v.canSend = true) ∧ v'.payloadRoom ≤ v.payloadRoom

instance took_decidable (k : Wait) (v v' : View) (n : ℕ) : Decidable (Took k v v' n) := by
  cases k <;> unfold Took <;> infer_instance

/-- The loop after a check that found what it waits for: `write` goes on with what is left. -/
def goOn (w : Waiter) (v : View) (n : ℕ) : Waiter :=
  match w.kind with
  | .write left =>
    if v.canSend then
      if h : n < left then
        { w with kind := .write ⟨left - n, Nat.sub_pos_of_lt h⟩, phase := .checking false }
      else { w with phase := .returned }
    else { w with phase := .returned }
  | _ => { w with phase := .returned }

/-- A loop may be dropped at any time, and `cancel` stands for its other ends too: an error of
`send_slice`, a deadline found passed. -/
inductive Action where
  | start (h : SocketHandle) (k : Wait)
  | check (i : ℕ) (after : View) (n : ℕ)
  | resume (i : ℕ)
  | deadline (i : ℕ)
  | cancel (i : ℕ)
  | poll (r : PollResult)
  | shutdown (h : SocketHandle) (after : View)

def Wait.onConnection : Wait → Bool
  | .read | .write _ => true
  | _ => false

namespace State

def init (view : SocketHandle → View) : State := ⟨view, [], []⟩

def setWaiter (s : State) (i : ℕ) (w : Waiter) : State := { s with waiters := s.waiters.set i w }

def setView (s : State) (h : SocketHandle) (v : View) : State :=
  { s with view := Function.update s.view h v }

def step (s : State) : Action → Option State
  | .start h k => some { s with waiters := s.waiters ++ [⟨h, k, .checking false⟩] }
  | .check i after n =>
    s.waiters[i]?.bind fun w =>
      match w.phase with
      | .checking woken =>
        if Took w.kind (s.view w.object) after n then
          some ((s.setWaiter i
            (if ready w.kind (s.view w.object) then goOn w (s.view w.object) n
            else { w with phase := .awaiting woken })).setView w.object after)
        else none
      | _ => none
  -- the next round of the loop registers anew
  | .resume i =>
    s.waiters[i]?.bind fun w =>
      match w.phase with
      | .awaiting true => some (s.setWaiter i { w with phase := .checking false })
      | _ => none
  | .deadline i =>
    s.waiters[i]?.bind fun w =>
      match w.phase, w.kind with
      | .awaiting _, .connect => some (s.setWaiter i { w with phase := .returned })
      | .awaiting _, .udpRead | .awaiting _, .udpWrite _ =>
        some (s.setWaiter i { w with phase := .checking false })
      | _, _ => none
  | .cancel i => s.waiters[i]?.map fun w => s.setWaiter i { w with phase := .returned }
  | .poll .none => some s
  | .poll (.socketStateChanged view) =>
    some { s with view := view, waiters := condition.notify view s.waiters, closed := [] }
  -- only a `TcpConnection`, which `connect` has returned, is shut down; `close` leaves the
  -- receive half alone
  | .shutdown h after =>
    if (∀ w ∈ s.waiters, w.object = h → w.kind.onConnection = true ∨ w.phase = .returned) ∧
        after.canRecv = (s.view h).canRecv ∧ after.mayRecv = (s.view h).mayRecv then
      some { s.setView h after with closed := h :: s.closed }
    else none

end State

def machine : Machine State Action := ⟨State.step⟩

/-- A writer whose own side was shut down since. -/
def shutMeanwhile (closed : List SocketHandle) (w : Waiter) : Prop :=
  (∃ left, w.kind = .write left) ∧ w.object ∈ closed

theorem signalled_of_ready (k : Wait) (v : View) (h : condition.ready k v = true) :
    condition.signalled k v = true := by
  cases k with
  | connect =>
    obtain ⟨state⟩ := v
    cases state <;> first | rfl | cases h
  | read | write _ | udpRead => exact h
  | udpWrite size => exact (Bool.and_eq_true_iff.mp h).1

/-- Nobody sleeps over a check that would succeed, but for writers after a local shutdown. -/
def Awake (s : State) : Prop :=
  condition.Quiet (shutMeanwhile s.closed) s.view s.waiters

variable {s t : State} {a : Action} {w w' : Waiter} {i n : ℕ} {k : Wait} {v v' : View}

theorem Awake.setWaiter (hs : Awake s)
    (hw : w.asleep → ready w.kind (s.view w.object) = false) : Awake (s.setWaiter i w) :=
  Condition.Quiet.set hs fun ha => .inl (hw ha)

structure Got (v v' : View) : Prop where
  canRecv : v.canRecv = true
  state : v'.state = v.state
  canSend : v'.canSend = v.canSend
  maySend : v'.maySend = v.maySend
  payloadRoom : v'.payloadRoom = v.payloadRoom

structure Put (v v' : View) : Prop where
  state : v'.state = v.state
  canRecv : v'.canRecv = v.canRecv
  mayRecv : v'.mayRecv = v.mayRecv
  maySend : v'.maySend = v.maySend
  canSend : v'.canSend = true → v.canSend = true
  payloadRoom : v'.payloadRoom ≤ v.payloadRoom

theorem Put.refl (v : View) : Put v v := ⟨rfl, rfl, rfl, rfl, id, Nat.le_refl _⟩

theorem Took.cases (h : Took k v v' n) : Got v v' ∨ Put v v' := by
  cases k with
  | connect =>
    obtain rfl : v' = v := h
    exact .inr (.refl _)
  | read | udpRead =>
    change if v.canRecv = true then _ else _ at h
    by_cases hr : v.canRecv = true
    · rw [if_pos hr] at h
      left
      rw [h]
      exact ⟨hr, rfl, rfl, rfl, rfl⟩
    · rw [if_neg hr] at h
      obtain rfl := h
      exact .inr (.refl _)
  | write left =>
    change if v.canSend = true then _ else _ at h
    by_cases hr : v.canSend = true
    · rw [if_pos hr] at h
      right
      rw [h.2.2]
      exact ⟨rfl, rfl, rfl, rfl, fun _ => hr, Nat.le_refl _⟩
    · rw [if_neg hr] at h
      obtain rfl := h
      exact .inr (.refl _)
  | udpWrite size =>
    obtain ⟨heq, hsend, hroom⟩ := h
    right
    rw [heq]
    exact ⟨rfl, rfl, rfl, rfl, hsend, hroom⟩

/-- A check of one waiter makes no check succeed that failed. -/
theorem Took.keeps (h : Took k v v' n) (k' : Wait) (hr : ready k' v = false) :
    ready k' v' = false := by
  rcases h.cases with hgot | hput
  · cases k' with
    | connect => simpa only [ready, hgot.state] using hr
    | write _ => simpa only [ready, hgot.canSend, hgot.maySend] using hr
    | udpWrite _ => simpa only [ready, hgot.canSend, hgot.payloadRoom] using hr
    | read | udpRead => simp [ready, hgot.canRecv] at hr
  · cases k' with
    | connect => simpa only [ready, hput.state] using hr
    | read | udpRead => simpa only [ready, hput.canRecv, hput.mayRecv] using hr
    | write _ =>
      simp only [ready, Bool.or_eq_false_iff] at hr ⊢
      rw [hput.maySend]
      exact ⟨Bool.eq_false_iff.mpr fun hs => Bool.eq_false_iff.mp hr.1 (hput.canSend hs), hr.2⟩
    | udpWrite size =>
      refine Bool.eq_false_iff.mpr fun hs => Bool.eq_false_iff.mp hr ?_
      simp only [ready, Bool.and_eq_true, decide_eq_true_eq] at hs ⊢
      exact ⟨hput.canSend hs.1, hs.2.trans hput.payloadRoom⟩

theorem Awake.setView {h : SocketHandle} (hs : Awake s) (ht : Took k (s.view h) v n) :
    Awake (s.setView h v) := by
  refine Condition.Quiet.change hs (fun x hx _ hr => .inl ?_) fun _ he => he
  change ready x.kind (Function.update s.view h v x.object) = false
  by_cases hobj : x.object = h
  · rw [hobj, Function.update_self]
    exact ht.keeps x.kind (hobj ▸ hr)
  · rw [Function.update_of_ne hobj]
    exact hr

def Progressed (w w' : Waiter) : Prop :=
  w'.phase = .returned ∨
    ∃ left left' : ℕ+, w.kind = .write left ∧ w'.kind = .write left' ∧ left' < left

theorem goOn_cases (w : Waiter) (v : View) (n : ℕ) :
    goOn w v n = { w with phase := .returned } ∨
      ∃ left left' : ℕ+, w.kind = .write left ∧ v.canSend = true ∧ (left' : ℕ) = left - n ∧
        goOn w v n = { w with kind := .write left', phase := .checking false } := by
  obtain ⟨object, kind, phase⟩ := w
  cases kind with
  | write left =>
    simp only [goOn]
    split
    · split
      · exact .inr ⟨left, ⟨left - n, _⟩, rfl, ‹_›, rfl, rfl⟩
      · exact .inl rfl
    · exact .inl rfl
  | connect | read | udpRead | udpWrite _ => exact .inl rfl

theorem not_asleep_goOn (w : Waiter) (v : View) (n : ℕ) : ¬ (goOn w v n).asleep := by
  rcases goOn_cases w v n with heq | ⟨_, _, _, _, _, heq⟩ <;> (rw [heq]; exact nofun)

theorem Took.progressed (h : Took w.kind v v' n) : Progressed w (goOn w v n) := by
  rcases goOn_cases w v n with heq | ⟨left, left', hk, hsend, hleft, heq⟩
  · rw [heq]
    exact .inl rfl
  · rw [heq]
    right
    refine ⟨left, left', hk, rfl, ?_⟩
    rw [hk] at h
    change if v.canSend = true then _ else _ at h
    rw [if_pos hsend] at h
    have hpos := left.pos
    have hlt : (left' : ℕ) < left := by omega
    exact hlt

theorem Awake.shutdown {h : SocketHandle} (hs : Awake s)
    (hkinds : ∀ w ∈ s.waiters, w.object = h → w.kind.onConnection = true ∨ w.phase = .returned)
    (hrecv : v.canRecv = (s.view h).canRecv) (hmay : v.mayRecv = (s.view h).mayRecv) :
    Awake { s.setView h v with closed := h :: s.closed } := by
  refine Condition.Quiet.change hs (fun x hx hasleep hr => ?_)
    fun x hx => ⟨hx.1, List.mem_cons_of_mem h hx.2⟩
  change ready x.kind (Function.update s.view h v x.object) = false ∨ _
  by_cases hobj : x.object = h
  · rcases hkinds x hx hobj with hk | hk
    · obtain ⟨object, kind, phase⟩ := x
      obtain rfl : object = h := hobj
      cases kind with
      | read =>
        left
        rw [Function.update_self]
        change (v.canRecv || !v.mayRecv) = false
        rw [hrecv, hmay]
        exact hr
      | write left => exact .inr ⟨⟨left, rfl⟩, List.mem_cons_self⟩
      | connect | udpRead | udpWrite _ => cases hk
    · rw [Waiter.asleep, hk] at hasleep
      cases hasleep
  · left
    rw [Function.update_of_ne hobj]
    exact hr

theorem step_check {after : View} (h : machine.step s (.check i after n) = some t) :
    ∃ w woken, s.waiters[i]? = some w ∧ w.phase = .checking woken ∧
      Took w.kind (s.view w.object) after n ∧
      t = (s.setWaiter i (if ready w.kind (s.view w.object) then goOn w (s.view w.object) n
        else { w with phase := .awaiting woken })).setView w.object after := by
  obtain ⟨w, hi, hw⟩ := Option.bind_eq_some_iff.mp h
  cases hp : w.phase with
  | checking woken =>
    rw [hp] at hw
    obtain ⟨ht, rfl⟩ := of_guarded hw
    exact ⟨w, woken, hi, hp, ht, rfl⟩
  | awaiting _ | returned => simp [hp] at hw

theorem Awake.step (hs : Awake s) (h : machine.step s a = some t) : Awake t := by
  cases a with
  | start hd k =>
    obtain rfl := Option.some.inj h
    exact Condition.Quiet.concat hs nofun
  | check i after n =>
    obtain ⟨w, woken, hi, hp, ht, rfl⟩ := step_check h
    refine Awake.setView (hs.setWaiter ?_) ht
    by_cases hr : ready w.kind (s.view w.object) = true
    · rw [if_pos hr]
      exact fun ha => absurd ha (not_asleep_goOn _ _ _)
    · rw [if_neg hr]
      exact fun _ => Bool.eq_false_iff.mpr hr
  | resume i =>
    obtain ⟨w, hi, hw⟩ := Option.bind_eq_some_iff.mp h
    split at hw
    · obtain rfl := Option.some.inj hw
      exact hs.setWaiter nofun
    · cases hw
  | deadline i =>
    obtain ⟨w, hi, hw⟩ := Option.bind_eq_some_iff.mp h
    split at hw
    · obtain rfl := Option.some.inj hw
      exact hs.setWaiter nofun
    · obtain rfl := Option.some.inj hw
      exact hs.setWaiter nofun
    · obtain rfl := Option.some.inj hw
      exact hs.setWaiter nofun
    · cases hw
  | cancel i =>
    obtain ⟨w, hi, rfl⟩ := Option.map_eq_some_iff.mp h
    exact hs.setWaiter nofun
  | poll r =>
    cases r with
    | none =>
      obtain rfl := Option.some.inj h
      exact hs
    | socketStateChanged view =>
      obtain rfl := Option.some.inj h
      exact Condition.Quiet.notify signalled_of_ready
  | shutdown hd after =>
    obtain ⟨⟨hkinds, hrecv, hmay⟩, rfl⟩ := of_guarded h
    exact hs.shutdown hkinds hrecv hmay

theorem check_progresses {woken : Bool} (hi : s.waiters[i]? = some w)
    (hp : w.phase = .checking woken) (hr : ready w.kind (s.view w.object) = true) :
    (∃ after n t, machine.step s (.check i after n) = some t) ∧
      ∀ after n t, machine.step s (.check i after n) = some t →
        ∃ w', t.waiters[i]? = some w' ∧ Progressed w w' := by
  constructor
  · have htook : Took w.kind (s.view w.object) (s.view w.object) 1 := by
      cases w.kind with
      | connect => exact rfl
      | read | udpRead =>
        unfold Took
        dsimp only
        split <;> rfl
      | write left =>
        unfold Took
        dsimp only
        split
        · exact ⟨Nat.one_pos, left.pos, rfl⟩
        · rfl
      | udpWrite size => exact ⟨rfl, id, Nat.le_refl _⟩
    have hstep : machine.step s (.check i (s.view w.object) 1) =
        some ((s.setWaiter i (goOn w (s.view w.object) 1)).setView w.object (s.view w.object)) := by
      change (s.waiters[i]?.bind _) = _
      rw [hi, Option.bind_some, hp]
      dsimp only
      rw [if_pos htook, if_pos hr]
    exact ⟨_, _, _, hstep⟩
  · intro after n t h
    obtain ⟨w₀, _, hi₀, _, ht, rfl⟩ := step_check h
    obtain rfl : w = w₀ := Option.some.inj (hi.symm.trans hi₀)
    rw [if_pos hr]
    exact ⟨_, (getElem?_set_of_some hi i).trans (if_pos rfl), ht.progressed⟩

/-- No wakeup is lost: nobody sleeps over a socket its check would accept, but for a writer whose
side was shut down by another task; and whoever finds its socket so goes on by its own steps,
`write` with some of its data in. -/
theorem no_lost_wakeup {view : SocketHandle → View} (h : machine.Reachable (.init view) s) :
    (∀ w ∈ s.waiters, w.asleep →
      ready w.kind (s.view w.object) = false ∨ shutMeanwhile s.closed w) ∧
    ∀ i w, s.waiters[i]? = some w → w.phase ≠ .returned →
      ready w.kind (s.view w.object) = true → ¬ shutMeanwhile s.closed w →
        ∃ u, machine.Path (· = .resume i) s u ∧ u.view = s.view ∧
          (∃ after n t, machine.step u (.check i after n) = some t) ∧
          ∀ after n t, machine.step u (.check i after n) = some t →
            ∃ w', t.waiters[i]? = some w' ∧ Progressed w w' := by
  have hs : Awake s := h.invariant Condition.Quiet.nil fun _ _ _ hs ha => hs.step ha
  refine ⟨hs, fun i w hi hret hr hshut => ?_⟩
  cases hp : w.phase with
  | returned => exact absurd hp hret
  | checking woken => exact ⟨s, .refl, rfl, check_progresses hi hp hr⟩
  | awaiting woken =>
    cases woken with
    | false =>
      rcases hs w (List.mem_of_getElem? hi) hp with hf | he
      · rw [show ready w.kind (s.view w.object) = false from hf] at hr
        cases hr
      · exact absurd he hshut
    | true =>
      have hresume : machine.step s (.resume i) =
          some (s.setWaiter i { w with phase := .checking false }) := by
        change (s.waiters[i]?.bind _) = _
        rw [hi, Option.bind_some, hp]
      have hi' : (s.setWaiter i { w with phase := .checking false }).waiters[i]? =
          some { w with phase := .checking false } :=
        (getElem?_set_of_some hi i).trans (if_pos rfl)
      exact ⟨_, .single ⟨_, rfl, hresume⟩, rfl,
        check_progresses (w := { w with phase := .checking false }) hi' rfl hr⟩

def idle : View := ⟨.established, false, true, false, true, 0⟩

/-- One slot is free again, but the payload ring has room for the smaller datagram only. -/
theorem no_lost_wakeup_datagrams : ∃ s : State,
    s.waiters = [⟨7, .udpWrite 1000, .awaiting true⟩, ⟨7, .udpWrite 1400, .awaiting false⟩] ∧
    (s.view 7).canSend = true ∧ (s.view 7).payloadRoom = 1000 ∧
    (∀ w ∈ s.waiters, w.asleep →
      ready w.kind (s.view w.object) = false ∨ shutMeanwhile s.closed w) ∧
    ∀ i w, s.waiters[i]? = some w → w.phase ≠ .returned →
      ready w.kind (s.view w.object) = true → ¬ shutMeanwhile s.closed w →
        ∃ u, machine.Path (· = .resume i) s u ∧ u.view = s.view ∧
          (∃ after n t, machine.step u (.check i after n) = some t) ∧
          ∀ after n t, machine.step u (.check i after n) = some t →
            ∃ w', t.waiters[i]? = some w' ∧ Progressed w w' := by
  have hrun := Machine.reachable_of_run (M := machine) (s := .init fun _ => idle)
    [.start 7 (.udpWrite 1000), .start 7 (.udpWrite 1400), .check 0 idle 0, .check 1 idle 0,
      .poll (.socketStateChanged fun _ => { idle with canSend := true, payloadRoom := 1000 }),
      .resume 1, .check 1 { idle with canSend := true, payloadRoom := 1000 } 0] rfl
  exact ⟨_, rfl, rfl, rfl, no_lost_wakeup hrun⟩

end WarpRust.Netstack.Waiting
