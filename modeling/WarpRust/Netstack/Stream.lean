import WarpRust.Library.Lists
import WarpRust.Netstack.PollLoop

/-!
# The bytes of a connection

`TcpConnection::read`, `write`, `write_all` and `shutdown` over `recv_with_state` and
`send_with_state`, with one reader and one writer, which may be dropped where they wait. The
socket shares the poll loop with the rest of the netstack; what smoltcp does to it happens in a
poll. smoltcp's socket is a parameter, with what its documentation says of it.
-/

namespace WarpRust.Netstack.Stream
open Library

variable {σ ι β : Type*}

/-- smoltcp's `TcpSocket` of state `σ`; an error is the socket's refusal. `polled` is what a poll
of the interface that finds `ι` makes of a socket. The octets in the buffers, and whether `close`
has shut the transmit half, are not read by the code. -/
structure TcpApi (σ ι β : Type*) where
  mayRecv : σ → Bool
  canRecv : σ → Bool
  recvSlice : σ → ℕ → Option (List β × σ)
  maySend : σ → Bool
  canSend : σ → Bool
  sendSlice : σ → List β → Option (ℕ × σ)
  close : σ → σ
  polled : σ → ι → σ
  rxBuffer : σ → List β
  txBuffer : σ → List β
  closing : σ → Bool

namespace TcpApi

/-- The documentation of an established socket: `may_recv` holds while there is data in the
receive buffer, and when that is empty as long as the remote end has not closed; `recv_slice`
dequeues received octets and `send_slice` enqueues octets to be sent, as many as it answers;
`close` shuts the transmit half only. A poll enqueues what it received and dequeues what was
acknowledged, or it finds that TIME-WAIT is over, to which `close` leads, and resets the socket. -/
structure Documented (tcp : TcpApi σ ι β) : Prop where
  may_recv : ∀ x, tcp.rxBuffer x ≠ [] → tcp.mayRecv x = true
  can_recv : ∀ x, tcp.canRecv x = true → tcp.mayRecv x = true
  recv_slice : ∀ x n, tcp.mayRecv x = true → ∃ bytes y, tcp.recvSlice x n = some (bytes, y) ∧
    tcp.rxBuffer x = bytes ++ tcp.rxBuffer y ∧ tcp.txBuffer y = tcp.txBuffer x ∧
    tcp.closing y = tcp.closing x
  can_send : ∀ x, tcp.canSend x = true → tcp.maySend x = true
  send_slice : ∀ x data, tcp.maySend x = true → ∃ n y, tcp.sendSlice x data = some (n, y) ∧
    n ≤ data.length ∧ tcp.txBuffer y = tcp.txBuffer x ++ data.take n ∧
    tcp.rxBuffer y = tcp.rxBuffer x ∧ tcp.mayRecv y = tcp.mayRecv x ∧
    tcp.closing y = tcp.closing x
  close : ∀ x, tcp.rxBuffer (tcp.close x) = tcp.rxBuffer x ∧
    tcp.txBuffer (tcp.close x) = tcp.txBuffer x ∧ tcp.mayRecv (tcp.close x) = tcp.mayRecv x
  poll_received : ∀ x i,
    (∃ data, tcp.rxBuffer (tcp.polled x i) = tcp.rxBuffer x ++ data) ∨
    tcp.closing x = true ∧ tcp.rxBuffer (tcp.polled x i) = [] ∧ tcp.mayRecv (tcp.polled x i) = false
  poll_acknowledged : ∀ x i, ∃ n, tcp.txBuffer (tcp.polled x i) = (tcp.txBuffer x).drop n
  poll_closed : ∀ x i, tcp.mayRecv x = false → tcp.mayRecv (tcp.polled x i) = false
  poll_closing : ∀ x i, tcp.closing x = false → tcp.closing (tcp.polled x i) = false

def recvWithState (tcp : TcpApi σ ι β) (x : σ) (n : ℕ) : Option (List β × Bool × σ) :=
  if tcp.canRecv x then (tcp.recvSlice x n).map fun (bytes, y) => (bytes, tcp.mayRecv y, y)
  else some ([], tcp.mayRecv x, x)

def sendWithState (tcp : TcpApi σ ι β) (x : σ) (data : List β) : Option (ℕ × Bool × σ) :=
  if tcp.canSend x then (tcp.sendSlice x data).map fun (n, y) => (n, tcp.maySend y, y)
  else some (0, tcp.maySend x, x)

end TcpApi

structure Connected (tcp : TcpApi σ ι β) where
  socket : σ
  unwritten : tcp.txBuffer socket = []
  unclosed : tcp.closing socket = false

inductive Reader where
  | idle
  | checking (n : ℕ)
  | awaiting (n : ℕ)
  deriving DecidableEq

/-- A write is at the head of its loop, has sent something and not kicked yet, or waits. -/
inductive Writer (β : Type*) where
  | idle
  | looping (data : List β) (written : ℕ)
  | kicking (data : List β) (written job : ℕ)
  | awaiting (data : List β) (written : ℕ)
  deriving DecidableEq

def Writer.taken : Writer β → List β
  | idle => []
  | looping data written | kicking data written _ | awaiting data written => data.take written

def Writer.job : Writer β → Option ℕ
  | kicking _ _ job => some job
  | _ => none

inductive Outcome where
  | ok
  | shortWrite (written expected : ℕ)
  | connectionClosed
  | tcpSend
  | cancelled
  deriving DecidableEq

/-- A `write_all` that is over, and what the socket has taken of its data. -/
structure Past (β : Type*) where
  data : List β
  taken : ℕ
  outcome : Outcome
  deriving DecidableEq

def writeAll (data : List β) (n : ℕ) : Outcome :=
  if n ≠ data.length then .shortWrite n data.length else .ok

/-- History: `arrived` and `released` are what smoltcp has got and is done with, `delivered` what
reads returned, `lost` what a reset threw away unread, `shut` a call of `shutdown`, `accepted` what
writes put in and `offered` what of it a poll has seen. -/
structure State (σ β : Type*) where
  net : PollLoop.State σ
  reader : Reader
  writer : Writer β
  ended : Bool
  readFailed : Bool
  shut : Bool
  writes : List (Past β)
  arrived : List β
  delivered : List β
  lost : List β
  accepted : List β
  offered : List β
  released : List β

/-- What the rest of the netstack does without a poll; it leaves this socket alone. -/
inductive Other where
  | tick (d : ℕ)
  | change
  | changeUnkicked
  | kick (i : ℕ)
  | look
  | sleep
  | notified
  | elapsed

def Other.action (x : σ) : Other → PollLoop.Action σ
  | .tick d => .tick d
  | .change => .change x
  | .changeUnkicked => .changeUnkicked x
  | .kick i => .kick i
  | .look => .look
  | .sleep => .sleep
  | .notified => .notified
  | .elapsed => .elapsed

inductive Action (ι β : Type*) where
  | other (a : Other)
  | poll (i : ι)
  | otherPoll (i : ι)
  | read (n : ℕ)
  | recv
  | readAgain
  | dropRead
  | write (data : List β)
  | send
  | kick
  | writeAgain
  | dropWrite
  | shutdown

namespace State

def init (tcp : TcpApi σ ι β) (c : Connected tcp) (now : ℕ) : State σ β :=
  ⟨.init c.socket now, .idle, .idle, false, false, false, [], tcp.rxBuffer c.socket, [], [], [], [],
    []⟩

def socket (s : State σ β) : σ := s.net.stack

def writeOver (s : State σ β) (data : List β) (taken : ℕ) (outcome : Outcome) : State σ β :=
  { s with writer := .idle, writes := s.writes ++ [⟨data, taken, outcome⟩] }

/-- What a poll that leaves `after` in the receive buffer has thrown away. -/
def thrownAway (before after : List β) : List β :=
  if after.length < before.length then before else []

/-- A poll of `net`: what it added to the receive buffer has arrived, what it took from the
transmit buffer is released. -/
def progress (tcp : TcpApi σ ι β) (s : State σ β) (net : PollLoop.State σ) : State σ β :=
  { s with
    net := net
    arrived := s.arrived ++ (tcp.rxBuffer net.stack).drop (tcp.rxBuffer s.socket).length
    lost := s.lost ++ thrownAway (tcp.rxBuffer s.socket) (tcp.rxBuffer net.stack)
    released := s.released ++ (tcp.txBuffer s.socket).take
      ((tcp.txBuffer s.socket).length - (tcp.txBuffer net.stack).length)
    offered := s.accepted }

def mayDo (s : State σ β) : Other → Prop
  | .kick i => s.writer.job ≠ some i
  | _ => True

instance decidableMayDo (s : State σ β) (a : Other) : Decidable (s.mayDo a) := by
  cases a <;> unfold mayDo <;> infer_instance

def step (tcp : TcpApi σ ι β) (k : PollLoop.Stack σ) (s : State σ β) :
    Action ι β → Option (State σ β)
  | .other a =>
    if s.mayDo a then (s.net.step k (a.action s.socket)).map ({ s with net := · }) else none
  | .poll i => (s.net.step k (.poll (tcp.polled s.socket i))).map (s.progress tcp)
  | .otherPoll i => (s.net.step k (.otherPoll (tcp.polled s.socket i))).map (s.progress tcp)
  | .read n =>
    match s.reader with
    | .idle => some { s with reader := .checking n }
    | _ => none
  | .recv =>
    match s.reader with
    | .checking n =>
      match tcp.recvWithState s.socket n with
      | none => some { s with reader := .idle, readFailed := true }
      | some (bytes, mayRecv, socket) =>
        (s.net.step k (.changeUnkicked socket)).map fun net =>
          { s with
            net := net
            reader := if bytes.isEmpty && mayRecv then .awaiting n else .idle
            ended := s.ended || bytes.isEmpty && !mayRecv
            delivered := s.delivered ++ bytes }
    | _ => none
  | .readAgain =>
    match s.reader with
    | .awaiting n => some { s with reader := .checking n }
    | _ => none
  | .dropRead =>
    match s.reader with
    | .awaiting _ => some { s with reader := .idle }
    | _ => none
  | .write data =>
    match s.writer with
    | .idle => some { s with writer := .looping data 0 }
    | _ => none
  | .send =>
    match s.writer with
    | .looping data written =>
      if written < data.length then
        match tcp.sendWithState s.socket (data.drop written) with
        | none => some (s.writeOver data written .tcpSend)
        | some (0, maySend, socket) =>
          (s.net.step k (.changeUnkicked socket)).map fun net =>
            if maySend then { s with net := net, writer := .awaiting data written }
            else State.writeOver { s with net := net } data written .connectionClosed
        | some (n, _, socket) =>
          (s.net.step k (.change socket)).map fun net =>
            { s with
              net := net
              writer := .kicking data (written + n) s.net.board.jobs.length
              accepted := s.accepted ++ (data.drop written).take n }
      else some (s.writeOver data written (writeAll data written))
    | _ => none
  | .kick =>
    match s.writer with
    | .kicking data written job =>
      (s.net.step k (.kick job)).map fun net =>
        { s with net := net, writer := .looping data written }
    | _ => none
  | .writeAgain =>
    match s.writer with
    | .awaiting data written => some { s with writer := .looping data written }
    | _ => none
  | .dropWrite =>
    match s.writer with
    | .awaiting data written => some (s.writeOver data written .cancelled)
    | _ => none
  | .shutdown =>
    (s.net.step k (.changeUnkicked (tcp.close s.socket))).map ({ s with net := ·, shut := true })

end State

def machine (tcp : TcpApi σ ι β) (k : PollLoop.Stack σ) : Machine (State σ β) (Action ι β) :=
  ⟨State.step tcp k⟩

variable {tcp : TcpApi σ ι β} {k : PollLoop.Stack σ} {conn : Connected tcp} {n now : ℕ} {x y : σ}
  {data : List β} {b c : Board} {job : Option ℕ}

/-! ### The socket -/

/-- A receive: `bytes` are out, and a socket that may not receive is left as it is. -/
structure TakenOut (tcp : TcpApi σ ι β) (x y : σ) (bytes : List β) : Prop where
  rx : tcp.rxBuffer x = bytes ++ tcp.rxBuffer y
  tx : tcp.txBuffer y = tcp.txBuffer x
  closing : tcp.closing y = tcp.closing x
  same : tcp.mayRecv x = false → y = x

theorem recvWithState_cases (h : tcp.Documented) (x : σ) (n : ℕ) :
    ∃ bytes y, tcp.recvWithState x n = some (bytes, tcp.mayRecv y, y) ∧
      TakenOut tcp x y bytes := by
  unfold TcpApi.recvWithState
  by_cases hc : tcp.canRecv x = true
  · have hmay := h.can_recv x hc
    obtain ⟨bytes, y, hy, hrx, htx, hclosing⟩ := h.recv_slice x n hmay
    rw [if_pos hc, hy]
    exact ⟨bytes, y, rfl, hrx, htx, hclosing, fun hm => absurd hmay (Bool.eq_false_iff.mp hm)⟩
  · rw [if_neg hc]
    exact ⟨[], x, rfl, rfl, rfl, rfl, fun _ => rfl⟩

/-- Data that went in; nothing else of the socket changed that matters to the reader. -/
structure PutIn (tcp : TcpApi σ ι β) (x y : σ) (data : List β) : Prop where
  tx : tcp.txBuffer y = tcp.txBuffer x ++ data
  rx : tcp.rxBuffer y = tcp.rxBuffer x
  mayRecv : tcp.mayRecv y = tcp.mayRecv x
  closing : tcp.closing y = tcp.closing x

theorem sendWithState_cases (h : tcp.Documented) (x : σ) (data : List β) :
    ∃ n y, tcp.sendWithState x data = some (n, tcp.maySend y, y) ∧ n ≤ data.length ∧
      PutIn tcp x y (data.take n) := by
  unfold TcpApi.sendWithState
  by_cases hc : tcp.canSend x = true
  · obtain ⟨n, y, hy, hn, htx, hrx, hmay, hclosing⟩ := h.send_slice x data (h.can_send x hc)
    rw [if_pos hc, hy]
    exact ⟨n, y, rfl, hn, htx, hrx, hmay, hclosing⟩
  · rw [if_neg hc]
    exact ⟨0, x, rfl, Nat.zero_le _, by simp, rfl, rfl, rfl⟩

/-! ### Changes that no poll has seen -/

/-- Some change is not seen by a poll, and it was kicked or is about to be by the writer. -/
def Unoffered (b : Board) (job : Option ℕ) : Prop :=
  ∃ i j, b.jobs[i]? = some j ∧ j.seen = false ∧ (j.announced = true ∨ job = some i)

theorem Unoffered.of_jobs_eq (h : Unoffered b job) (hj : c.jobs = b.jobs) : Unoffered c job := by
  unfold Unoffered
  rw [hj]
  exact h

theorem Unoffered.post (h : Unoffered b job) : Unoffered b.post job := by
  obtain ⟨i, j, hi, hseen, hkicked⟩ := h
  have hlt := (List.getElem?_eq_some_iff.mp hi).1
  exact ⟨i, j, (List.getElem?_append_left hlt).trans hi, hseen, hkicked⟩

theorem Unoffered.announce {job' : Option ℕ} {i : ℕ} (h : Unoffered b job)
    (hc : b.announce i = some c)
    (hjob : ∀ m, m ≠ i → job = some m → job' = some m) : Unoffered c job' := by
  obtain ⟨m, j, hm, hseen, hkicked⟩ := h
  obtain ⟨j', hj', rfl⟩ := Board.eq_of_announce hc
  unfold Unoffered
  rw [Board.jobs_notifyOne]
  by_cases hmi : m = i
  · obtain rfl := hmi
    obtain rfl := Option.some.inj (hm.symm.trans hj')
    exact ⟨m, { j with announced := true }, (getElem?_set_of_some hm m).trans (if_pos rfl), hseen,
      .inl rfl⟩
  · refine ⟨m, j, ?_, hseen, hkicked.imp_right (hjob m hmi)⟩
    rw [getElem?_set_of_some hj', if_neg (Ne.symm hmi)]
    exact hm

/-- A sleeping loop has seen every change but the one the writer is about to kick. -/
theorem not_unoffered_of_asleep (hb : b.Heard) (ha : b.asleep) : ¬ Unoffered b none := by
  rintro ⟨i, j, hi, hseen, hkicked⟩
  rw [hb.all_seen ha j (List.mem_of_getElem? hi) (hkicked.resolve_right nofun)] at hseen
  cases hseen

/-! ### The books of a connection -/

def Past.Fine (w : Past β) : Prop :=
  match w.outcome with
  | .ok => w.taken = w.data.length
  | .connectionClosed | .cancelled => w.taken < w.data.length
  | .shortWrite _ _ | .tcpSend => False

def Writer.Fine : Writer β → Prop
  | .idle => True
  | .looping data written | .kicking data written _ => written ≤ data.length
  | .awaiting data written => written < data.length

def Past.accepted (w : Past β) : List β := w.data.take w.taken

structure ReadBooks (tcp : TcpApi σ ι β) (s : State σ β) : Prop where
  arrived : s.arrived = s.delivered ++ s.lost ++ tcp.rxBuffer s.socket
  lost : s.lost ≠ [] → tcp.mayRecv s.socket = false
  unshut : s.shut = false → s.lost = [] ∧ tcp.closing s.socket = false
  finished : s.ended = true → tcp.mayRecv s.socket = false
  unfailed : s.readFailed = false

structure WriteBooks (tcp : TcpApi σ ι β) (s : State σ β) : Prop where
  released : s.accepted = s.released ++ tcp.txBuffer s.socket
  accepted : s.accepted = s.writes.flatMap Past.accepted ++ s.writer.taken
  writes : ∀ w ∈ s.writes, w.Fine
  writer : s.writer.Fine

def Offered (s : State σ β) : Prop :=
  s.accepted = s.offered ∨ Unoffered s.net.board s.writer.job

variable {s t : State σ β} {net : PollLoop.State σ}

theorem readBooks_init (c : Connected tcp) (now : ℕ) : ReadBooks tcp (.init tcp c now) :=
  ⟨rfl, (absurd rfl ·), fun _ => ⟨rfl, c.unclosed⟩, nofun, rfl⟩

theorem writeBooks_init (c : Connected tcp) (now : ℕ) : WriteBooks tcp (.init tcp c now) :=
  ⟨c.unwritten.symm, rfl, nofun, trivial⟩

theorem ReadBooks.setNet (net : PollLoop.State σ) (h : ReadBooks tcp s)
    (hrx : tcp.rxBuffer net.stack = tcp.rxBuffer s.socket)
    (hr : tcp.mayRecv net.stack = tcp.mayRecv s.socket)
    (hc : tcp.closing net.stack = tcp.closing s.socket) :
    ReadBooks tcp { s with net := net } where
  arrived := by
    change s.arrived = s.delivered ++ s.lost ++ tcp.rxBuffer net.stack
    rw [hrx]
    exact h.arrived
  lost hl := hr.trans (h.lost hl)
  unshut hs := ⟨(h.unshut hs).1, hc.trans (h.unshut hs).2⟩
  finished he := hr.trans (h.finished he)
  unfailed := h.unfailed

theorem WriteBooks.setNet (net : PollLoop.State σ) (h : WriteBooks tcp s)
    (htx : tcp.txBuffer net.stack = tcp.txBuffer s.socket) :
    WriteBooks tcp { s with net := net } where
  released := by
    change s.accepted = s.released ++ tcp.txBuffer net.stack
    rw [htx]
    exact h.released
  accepted := h.accepted
  writes := h.writes
  writer := h.writer

theorem WriteBooks.finished (h : WriteBooks tcp s) {taken : ℕ} {outcome : Outcome}
    (hw : s.writer.taken = data.take taken) (hfine : Past.Fine ⟨data, taken, outcome⟩) :
    WriteBooks tcp (s.writeOver data taken outcome) where
  released := h.released
  accepted := by
    rw [State.writeOver, List.flatMap_append, List.flatMap_singleton, Past.accepted, ← hw]
    exact h.accepted.trans (List.append_nil _).symm
  writes := List.forall_mem_append.mpr ⟨h.writes, List.forall_mem_singleton.mpr hfine⟩
  writer := trivial

theorem other_keeps {a : Other} (ha : s.net.step k (a.action s.socket) = some net) :
    net.stack = s.socket ∧
      (Unoffered s.net.board s.writer.job → Unoffered net.board s.writer.job) := by
  cases a with
  | tick d =>
    obtain rfl := Option.some.inj ha
    exact ⟨rfl, id⟩
  | change =>
    obtain rfl := Option.some.inj ha
    exact ⟨rfl, Unoffered.post⟩
  | kick i =>
    obtain ⟨b, hb, rfl⟩ := Option.map_eq_some_iff.mp ha
    exact ⟨rfl, fun h => h.announce hb fun _ _ hj => hj⟩
  | changeUnkicked =>
    obtain rfl := Option.some.inj ha
    exact ⟨rfl, id⟩
  | look =>
    simp only [Other.action, PollLoop.State.step] at ha
    split at ha
    · obtain rfl := Option.some.inj ha
      exact ⟨rfl, id⟩
    · cases ha
  | sleep =>
    simp only [Other.action, PollLoop.State.step] at ha
    split at ha
    · obtain rfl := Option.some.inj ha
      exact ⟨rfl, id⟩
    · cases ha
  | notified =>
    simp only [Other.action, PollLoop.State.step] at ha
    split at ha
    · obtain ⟨b, hb, rfl⟩ := Option.map_eq_some_iff.mp ha
      exact ⟨rfl, fun h => h.of_jobs_eq (Board.jobs_of_await hb)⟩
    · cases ha
  | elapsed =>
    simp only [Other.action, PollLoop.State.step] at ha
    split at ha
    · next sleep start _ =>
      by_cases hw : start + 1000 * sleep.dur ≤ s.net.now
      · rw [if_pos hw] at ha
        obtain ⟨b, hb, rfl⟩ := Option.map_eq_some_iff.mp ha
        exact ⟨rfl, fun h => h.of_jobs_eq (Board.jobs_of_leave hb)⟩
      · rw [if_neg hw] at ha
        cases ha
    · cases ha

structure Kept (tcp : TcpApi σ ι β) (s : State σ β) : Prop where
  read : ReadBooks tcp s
  write : WriteBooks tcp s
  offered : Offered s

theorem kept_init (c : Connected tcp) (now : ℕ) : Kept tcp (.init tcp c now) :=
  ⟨readBooks_init c now, writeBooks_init c now, .inl rfl⟩

theorem rxBuffer_of_closed (htcp : tcp.Documented) (h : tcp.mayRecv x = false) :
    tcp.rxBuffer x = [] := by
  by_contra hne
  rw [htcp.may_recv x hne] at h
  cases h

theorem thrownAway_append (rx data : List β) : State.thrownAway rx (rx ++ data) = [] := by
  rw [State.thrownAway, List.length_append, if_neg (by omega)]

theorem thrownAway_nil (rx : List β) : State.thrownAway rx [] = rx := by
  cases rx with
  | nil => rfl
  | cons b rx => exact if_pos (Nat.succ_pos _)

theorem ReadBooks.progress {i : ι} (htcp : tcp.Documented) (h : ReadBooks tcp s)
    (hx : net.stack = tcp.polled s.socket i) : ReadBooks tcp (s.progress tcp net) := by
  have hclosed (hm : tcp.mayRecv s.socket = false) : tcp.mayRecv net.stack = false := by
    rw [hx]
    exact htcp.poll_closed _ _ hm
  have hpoll := htcp.poll_received s.socket i
  rw [← hx] at hpoll
  rcases hpoll with ⟨data, hdata⟩ | ⟨hclosing, hnil, hmay⟩
  · have hlost : (s.progress tcp net).lost = s.lost := by
      change s.lost ++ State.thrownAway _ _ = s.lost
      rw [hdata, thrownAway_append, List.append_nil]
    refine ⟨?_, fun hl => ?_, fun hs => ⟨?_, ?_⟩, fun he => hclosed (h.finished he), h.unfailed⟩
    · change s.arrived ++ (tcp.rxBuffer net.stack).drop (tcp.rxBuffer s.socket).length =
        s.delivered ++ (s.progress tcp net).lost ++ tcp.rxBuffer net.stack
      rw [hlost, hdata, List.drop_left, h.arrived, List.append_assoc _ _ data]
    · rw [hlost] at hl
      exact hclosed (h.lost hl)
    · exact hlost.trans (h.unshut hs).1
    · change tcp.closing net.stack = false
      rw [hx]
      exact htcp.poll_closing _ _ (h.unshut hs).2
  · refine ⟨?_, fun _ => hmay, fun hs => ?_, fun _ => hmay, h.unfailed⟩
    · change s.arrived ++ (tcp.rxBuffer net.stack).drop (tcp.rxBuffer s.socket).length =
        s.delivered ++ (s.lost ++ State.thrownAway _ (tcp.rxBuffer net.stack)) ++
          tcp.rxBuffer net.stack
      rw [hnil, thrownAway_nil, List.drop_nil, List.append_nil, List.append_nil, h.arrived,
        List.append_assoc]
    · rw [(h.unshut hs).2] at hclosing
      cases hclosing

theorem Kept.progress {i : ι} (htcp : tcp.Documented) (h : Kept tcp s)
    (hx : net.stack = tcp.polled s.socket i) : Kept tcp (s.progress tcp net) where
  read := h.read.progress htcp hx
  write := by
    refine ⟨?_, h.write.accepted, h.write.writes, h.write.writer⟩
    change s.accepted = s.released ++ (tcp.txBuffer s.socket).take
      ((tcp.txBuffer s.socket).length - (tcp.txBuffer net.stack).length) ++ tcp.txBuffer net.stack
    obtain ⟨n, hn⟩ := htcp.poll_acknowledged s.socket i
    rw [hx, hn, List.append_assoc, List.length_drop]
    rcases Nat.le_total n (tcp.txBuffer s.socket).length with hle | hle
    · rw [Nat.sub_sub_self hle, List.take_append_drop]
      exact h.write.released
    · rw [Nat.sub_eq_zero_of_le hle, Nat.sub_zero, List.take_length, List.drop_eq_nil_of_le hle,
        List.append_nil]
      exact h.write.released
  offered := .inl rfl

theorem Kept.recv {bytes : List β} {reader : Reader} (htcp : tcp.Documented) (h : Kept tcp s)
    (hx : TakenOut tcp s.socket net.stack bytes) (hb : net.board = s.net.board)
    {ended : Bool} (hended : ended = true → tcp.mayRecv net.stack = false) :
    Kept tcp { s with
      net := net, reader := reader, ended := ended, delivered := s.delivered ++ bytes } where
  read := by
    refine ⟨?_, fun hl => ?_, fun hs => ?_, hended, h.read.unfailed⟩
    · change s.arrived = s.delivered ++ bytes ++ s.lost ++ tcp.rxBuffer net.stack
      by_cases hl : s.lost = []
      · rw [h.read.arrived, hl, hx.rx, List.append_nil, List.append_nil, List.append_assoc]
      · -- after a reset nothing is left to take out
        have hrx := hx.rx
        rw [rxBuffer_of_closed htcp (h.read.lost hl)] at hrx
        obtain ⟨rfl, hnil⟩ := List.append_eq_nil_iff.mp hrx.symm
        rw [h.read.arrived, rxBuffer_of_closed htcp (h.read.lost hl), hnil,
          List.append_nil s.delivered]
    · have hclosed := h.read.lost hl
      change tcp.mayRecv net.stack = false
      rw [hx.same hclosed]
      exact hclosed
    · exact ⟨(h.read.unshut hs).1, hx.closing.trans (h.read.unshut hs).2⟩
  write := by
    have hw := h.write.setNet net hx.tx
    exact ⟨hw.released, hw.accepted, hw.writes, hw.writer⟩
  offered := by
    change s.accepted = s.offered ∨ Unoffered net.board s.writer.job
    rw [hb]
    exact h.offered

theorem Kept.send {written : ℕ} (h : Kept tcp s) (hw : s.writer = .looping data written)
    (hn : written + n ≤ data.length)
    (hx : PutIn tcp s.socket net.stack ((data.drop written).take n))
    (hb : net.board = s.net.board.post) : Kept tcp { s with
      net := net, writer := .kicking data (written + n) s.net.board.jobs.length
      accepted := s.accepted ++ (data.drop written).take n } where
  read := by
    have hr := h.read.setNet net hx.rx hx.mayRecv hx.closing
    exact ⟨hr.arrived, hr.lost, hr.unshut, hr.finished, hr.unfailed⟩
  write := by
    refine ⟨?_, ?_, h.write.writes, hn⟩
    · change s.accepted ++ (data.drop written).take n = s.released ++ tcp.txBuffer net.stack
      rw [hx.tx, h.write.released, List.append_assoc]
    · have htaken : s.writer.taken = data.take written := by rw [hw, Writer.taken]
      rw [Writer.taken, List.take_add, h.write.accepted, htaken, List.append_assoc]
  offered := by
    refine .inr ⟨s.net.board.jobs.length, ⟨false, false⟩, ?_, rfl, .inr rfl⟩
    change net.board.jobs[s.net.board.jobs.length]? = _
    rw [hb]
    exact List.getElem?_concat_length

theorem Kept.kick {written i : ℕ} (h : Kept tcp s) (hw : s.writer = .kicking data written i)
    (hb : s.net.board.announce i = some b) : Kept tcp { s with
      net := { s.net with board := b }, writer := .looping data written } where
  read := ⟨h.read.arrived, h.read.lost, h.read.unshut, h.read.finished, h.read.unfailed⟩
  write := by
    have haccepted := h.write.accepted
    have hfine := h.write.writer
    rw [hw] at haccepted hfine
    exact ⟨h.write.released, haccepted, h.write.writes, hfine⟩
  offered := by
    refine h.offered.imp_right fun hu => hu.announce hb fun m hm hj => ?_
    rw [hw] at hj
    exact absurd (Option.some.inj hj).symm hm

theorem Kept.setReader {reader : Reader} (h : Kept tcp s) : Kept tcp { s with reader := reader } :=
  ⟨⟨h.read.arrived, h.read.lost, h.read.unshut, h.read.finished, h.read.unfailed⟩,
    ⟨h.write.released, h.write.accepted, h.write.writes, h.write.writer⟩, h.offered⟩

theorem Kept.setWriter {writer : Writer β} (h : Kept tcp s) (ht : writer.taken = s.writer.taken)
    (hf : writer.Fine) (hjob : s.writer.job = none) : Kept tcp { s with writer := writer } where
  read := ⟨h.read.arrived, h.read.lost, h.read.unshut, h.read.finished, h.read.unfailed⟩
  write := by
    refine ⟨h.write.released, ?_, h.write.writes, hf⟩
    rw [ht]
    exact h.write.accepted
  offered := by
    refine h.offered.imp_right fun hu => ?_
    obtain ⟨i, j, hi, hseen, hkicked⟩ := hu
    rw [hjob] at hkicked
    exact ⟨i, j, hi, hseen, .inl (hkicked.resolve_right nofun)⟩

theorem Kept.writeOver {taken : ℕ} {outcome : Outcome} (h : Kept tcp s)
    (hw : s.writer.taken = data.take taken) (hjob : s.writer.job = none)
    (hfine : Past.Fine ⟨data, taken, outcome⟩) : Kept tcp (s.writeOver data taken outcome) where
  read := ⟨h.read.arrived, h.read.lost, h.read.unshut, h.read.finished, h.read.unfailed⟩
  write := h.write.finished hw hfine
  offered := by
    have hoffered := h.offered
    unfold Offered at hoffered
    rw [hjob] at hoffered
    exact hoffered

theorem Kept.shutdown (h : Kept tcp s)
    (hrx : tcp.rxBuffer net.stack = tcp.rxBuffer s.socket)
    (htx : tcp.txBuffer net.stack = tcp.txBuffer s.socket)
    (hmay : tcp.mayRecv net.stack = tcp.mayRecv s.socket) (hb : net.board = s.net.board) :
    Kept tcp { s with net := net, shut := true } where
  read := by
    refine ⟨?_, fun hl => hmay.trans (h.read.lost hl), nofun,
      fun he => hmay.trans (h.read.finished he), h.read.unfailed⟩
    change s.arrived = s.delivered ++ s.lost ++ tcp.rxBuffer net.stack
    rw [hrx]
    exact h.read.arrived
  write := by
    have hw := h.write.setNet net htx
    exact ⟨hw.released, hw.accepted, hw.writes, hw.writer⟩
  offered := by
    change s.accepted = s.offered ∨ Unoffered net.board s.writer.job
    rw [hb]
    exact h.offered

/-! ### Steps -/

inductive Moved (tcp : TcpApi σ ι β) (s : State σ β) : State σ β → Prop
  | net {net : PollLoop.State σ} (hx : PutIn tcp s.socket net.stack [])
      (hkicks : Unoffered s.net.board s.writer.job → Unoffered net.board s.writer.job) :
      Moved tcp s { s with net := net }
  | progress {i : ι} {net : PollLoop.State σ} (hx : net.stack = tcp.polled s.socket i) :
      Moved tcp s (s.progress tcp net)
  | reader (reader : Reader) : Moved tcp s { s with reader := reader }
  | recv {bytes : List β} {reader : Reader} {ended : Bool} {net : PollLoop.State σ}
      (hx : TakenOut tcp s.socket net.stack bytes) (hb : net.board = s.net.board)
      (hlater : s.ended = true → ended = true)
      (hended : ended = true → tcp.mayRecv net.stack = false) : Moved tcp s { s with
        net := net, reader := reader, ended := ended, delivered := s.delivered ++ bytes }
  | writer {writer : Writer β} {net : PollLoop.State σ} (hx : PutIn tcp s.socket net.stack [])
      (hb : net.board = s.net.board) (ht : writer.taken = s.writer.taken) (hf : writer.Fine)
      (hjob : s.writer.job = none) : Moved tcp s { s with net := net, writer := writer }
  | send {data : List β} {written n : ℕ} {net : PollLoop.State σ}
      (hw : s.writer = .looping data written) (hn : written + n ≤ data.length)
      (hx : PutIn tcp s.socket net.stack ((data.drop written).take n))
      (hb : net.board = s.net.board.post) : Moved tcp s { s with
        net := net, writer := .kicking data (written + n) s.net.board.jobs.length
        accepted := s.accepted ++ (data.drop written).take n }
  | kick {data : List β} {written i : ℕ} {b : Board} (hw : s.writer = .kicking data written i)
      (hb : s.net.board.announce i = some b) :
      Moved tcp s { s with net := { s.net with board := b }, writer := .looping data written }
  | writeOver {data : List β} {taken : ℕ} {outcome : Outcome} {net : PollLoop.State σ}
      (hx : PutIn tcp s.socket net.stack []) (hb : net.board = s.net.board)
      (hw : s.writer.taken = data.take taken) (hjob : s.writer.job = none)
      (hfine : Past.Fine ⟨data, taken, outcome⟩) :
      Moved tcp s (State.writeOver { s with net := net } data taken outcome)
  | shutdown {net : PollLoop.State σ} (hrx : tcp.rxBuffer net.stack = tcp.rxBuffer s.socket)
      (htx : tcp.txBuffer net.stack = tcp.txBuffer s.socket)
      (hmay : tcp.mayRecv net.stack = tcp.mayRecv s.socket) (hb : net.board = s.net.board) :
      Moved tcp s { s with net := net, shut := true }

theorem PutIn.nothing (x : σ) : PutIn tcp x x [] := ⟨(List.append_nil _).symm, rfl, rfl, rfl⟩

theorem PutIn.same (s : State σ β) : PutIn tcp s.socket s.net.stack [] := .nothing _

theorem Kept.setNet (h : Kept tcp s) (hx : PutIn tcp s.socket net.stack [])
    (hkicks : Unoffered s.net.board s.writer.job → Unoffered net.board s.writer.job) :
    Kept tcp { s with net := net } :=
  ⟨h.read.setNet net hx.rx hx.mayRecv hx.closing,
    h.write.setNet net (hx.tx.trans (List.append_nil _)), h.offered.imp_right hkicks⟩

theorem Kept.moved (htcp : tcp.Documented) (h : Kept tcp s) (hm : Moved tcp s t) : Kept tcp t := by
  cases hm with
  | net hx hkicks => exact h.setNet hx hkicks
  | progress hx => exact h.progress htcp hx
  | reader reader => exact h.setReader
  | recv hx hb _ hended => exact h.recv htcp hx hb hended
  | writer hx hb ht hf hjob =>
    exact (h.setNet hx fun hu => hu.of_jobs_eq (by rw [hb])).setWriter ht hf hjob
  | send hw hn hx hb => exact h.send hw hn hx hb
  | kick hw hb => exact h.kick hw hb
  | writeOver hx hb hw hjob hfine =>
    exact (h.setNet hx fun hu => hu.of_jobs_eq (by rw [hb])).writeOver hw hjob hfine
  | shutdown hrx htx hmay hb => exact h.shutdown hrx htx hmay hb

theorem Moved.arrived_of_ended (htcp : tcp.Documented) (hm : Moved tcp s t) (h : Kept tcp s)
    (he : s.ended = true) : t.ended = true ∧ t.arrived = s.arrived ∧ t.lost = s.lost := by
  cases hm with
  | @progress i net hx =>
    have hclosed := htcp.poll_closed s.socket i (h.read.finished he)
    refine ⟨he, ?_, ?_⟩
    · rw [State.progress, hx, rxBuffer_of_closed htcp hclosed, List.drop_nil, List.append_nil]
    · rw [State.progress, hx, rxBuffer_of_closed htcp hclosed, thrownAway_nil,
        rxBuffer_of_closed htcp (h.read.finished he), List.append_nil]
  | recv hx hb hlater hended => exact ⟨hlater he, rfl, rfl⟩
  | net | reader | writer | send | kick | writeOver | shutdown => exact ⟨he, rfl, rfl⟩

variable {a : Action ι β}

theorem moved_of_recv (htcp : tcp.Documented) (hr : ReadBooks tcp s)
    (ha : (machine tcp k).step s .recv = some t) : Moved tcp s t := by
  simp only [machine, State.step] at ha
  split at ha
  · next n hreader =>
    obtain ⟨bytes, y, hy, hout⟩ := recvWithState_cases htcp s.socket n
    rw [hy] at ha
    obtain ⟨net, hnet, rfl⟩ := Option.map_eq_some_iff.mp ha
    obtain rfl := Option.some.inj hnet
    refine .recv hout rfl (fun he => by rw [he, Bool.true_or]) fun he => ?_
    rcases Bool.or_eq_true_iff.mp he with he | he
    · have hclosed := hr.finished he
      obtain rfl := hout.same hclosed
      exact hclosed
    · simpa using (Bool.and_eq_true_iff.mp he).2
  · cases ha

theorem moved_of_send (htcp : tcp.Documented) (hf : s.writer.Fine)
    (ha : (machine tcp k).step s .send = some t) : Moved tcp s t := by
  simp only [machine, State.step] at ha
  split at ha
  · next data written hw =>
    have hle : written ≤ data.length := by
      rw [hw] at hf
      exact hf
    have hjob : s.writer.job = none := by rw [hw]; rfl
    have htaken : s.writer.taken = data.take written := by rw [hw, Writer.taken]
    by_cases hlt : written < data.length
    · obtain ⟨n, y, hy, hn, hput⟩ := sendWithState_cases htcp s.socket (data.drop written)
      rw [if_pos hlt, hy] at ha
      cases n with
      | zero =>
        obtain ⟨net, hnet, rfl⟩ := Option.map_eq_some_iff.mp ha
        obtain rfl := Option.some.inj hnet
        split
        · exact .writer hput rfl htaken.symm hlt hjob
        · exact .writeOver hput rfl htaken hjob hlt
      | succ n =>
        obtain ⟨net, hnet, rfl⟩ := Option.map_eq_some_iff.mp ha
        obtain rfl := Option.some.inj hnet
        refine .send hw ?_ hput rfl
        rw [List.length_drop] at hn
        omega
    · rw [if_neg hlt] at ha
      obtain rfl := Option.some.inj ha
      have hall : written = data.length := by omega
      refine .writeOver (.same s) rfl htaken hjob ?_
      rw [writeAll, if_neg (not_not.mpr hall)]
      exact hall
  · cases ha

theorem moved_of_step (htcp : tcp.Documented) (h : Kept tcp s)
    (ha : (machine tcp k).step s a = some t) : Moved tcp s t := by
  have hf := h.write.writer
  cases a with
  | other a =>
    obtain ⟨_, ha⟩ := Option.ite_none_right_eq_some.mp ha
    obtain ⟨net, hnet, rfl⟩ := Option.map_eq_some_iff.mp ha
    obtain ⟨hstack, hunoffered⟩ := other_keeps hnet
    exact .net (hstack ▸ .nothing _) hunoffered
  | poll i =>
    simp only [machine, State.step] at ha
    obtain ⟨net, hnet, rfl⟩ := Option.map_eq_some_iff.mp ha
    obtain ⟨b, _, rfl⟩ := Option.map_eq_some_iff.mp hnet
    exact .progress (i := i) rfl
  | otherPoll i =>
    simp only [machine, State.step] at ha
    obtain ⟨net, hnet, rfl⟩ := Option.map_eq_some_iff.mp ha
    obtain rfl := Option.some.inj hnet
    exact .progress (i := i) rfl
  | recv => exact moved_of_recv htcp h.read ha
  | send => exact moved_of_send htcp hf ha
  | read _ | readAgain | dropRead =>
    simp only [machine, State.step] at ha
    split at ha
    · obtain rfl := Option.some.inj ha
      exact .reader _
    · cases ha
  | write data =>
    simp only [machine, State.step] at ha
    split at ha
    · next hw =>
      obtain rfl := Option.some.inj ha
      refine .writer (.same s) rfl ?_ (Nat.zero_le _) (by rw [hw]; rfl)
      rw [hw, Writer.taken, Writer.taken, List.take_zero]
    · cases ha
  | kick =>
    simp only [machine, State.step] at ha
    split at ha
    · next data written job hw =>
      obtain ⟨net, hnet, rfl⟩ := Option.map_eq_some_iff.mp ha
      obtain ⟨b, hb, rfl⟩ := Option.map_eq_some_iff.mp hnet
      exact .kick hw hb
    · cases ha
  | writeAgain =>
    simp only [machine, State.step] at ha
    split at ha
    · next data written hw =>
      obtain rfl := Option.some.inj ha
      rw [hw] at hf
      exact .writer (.same s) rfl (by rw [hw, Writer.taken, Writer.taken])
        (le_of_lt hf) (by rw [hw]; rfl)
    · cases ha
  | dropWrite =>
    simp only [machine, State.step] at ha
    split at ha
    · next data written hw =>
      obtain rfl := Option.some.inj ha
      rw [hw] at hf
      exact .writeOver (.same s) rfl (by rw [hw, Writer.taken]) (by rw [hw]; rfl)
        hf
    · cases ha
  | shutdown =>
    simp only [machine, State.step] at ha
    obtain ⟨net, hnet, rfl⟩ := Option.map_eq_some_iff.mp ha
    obtain rfl := Option.some.inj hnet
    obtain ⟨hrx, htx, hmay⟩ := htcp.close s.socket
    exact .shutdown hrx htx hmay rfl

theorem kept_of_reachable (htcp : tcp.Documented)
    (hs : (machine tcp k).Reachable (.init tcp conn now) s) : Kept tcp s :=
  hs.invariant (kept_init conn now) fun _ _ _ h ha => h.moved htcp (moved_of_step htcp h ha)

/-- Reads return what has arrived, in order and without a gap, whatever they ask for and wherever
they are dropped, and never fail. A read of zero bytes means that nothing is left to return and
that nothing arrives any more. Only after `shutdown` can unread bytes be lost. -/
theorem reads_in_order (htcp : tcp.Documented)
    (hs : (machine tcp k).Reachable (.init tcp conn now) s) :
    s.arrived = s.delivered ++ s.lost ++ tcp.rxBuffer s.socket ∧ s.readFailed = false ∧
    (s.shut = false → s.lost = []) ∧
    (s.ended = true → s.arrived = s.delivered ++ s.lost ∧
      ∀ t, (machine tcp k).Reachable s t → t.arrived = s.arrived ∧ t.delivered = s.delivered) := by
  have h := kept_of_reachable htcp hs
  have harrived (t : State σ β) (ht : Kept tcp t) (he : t.ended = true) :
      t.arrived = t.delivered ++ t.lost := by
    rw [ht.read.arrived, rxBuffer_of_closed htcp (ht.read.finished he), List.append_nil]
  refine ⟨h.read.arrived, h.read.unfailed, fun hu => (h.read.unshut hu).1, fun he =>
    ⟨harrived s h he, fun t ht => ?_⟩⟩
  have hlater : Kept tcp t ∧ t.ended = true ∧ t.arrived = s.arrived ∧ t.lost = s.lost := by
    refine ht.invariant
      (I := fun t => Kept tcp t ∧ t.ended = true ∧ t.arrived = s.arrived ∧ t.lost = s.lost)
      ⟨h, he, rfl, rfl⟩ fun u a v hu ha => ?_
    have hm := moved_of_step htcp hu.1 ha
    obtain ⟨hended, hsame, hlost⟩ := hm.arrived_of_ended htcp hu.1 hu.2.1
    exact ⟨hu.1.moved htcp hm, hended, hsame.trans hu.2.2.1, hlost.trans hu.2.2.2⟩
  obtain ⟨hkept, hended, hsame, hlost⟩ := hlater
  refine ⟨hsame, (List.append_left_inj s.lost).mp ?_⟩
  rw [← harrived s h he, ← hsame, harrived t hkept hended, hlost]

structure Sample where
  rx : List ℕ
  tx : List ℕ
  receiving : Bool
  sending : Bool
  closing : Bool

/-- What a poll finds; `expired` is the end of TIME-WAIT. -/
structure Sample.Poll where
  released : ℕ
  data : List ℕ
  receiving : Bool
  sending : Bool
  expired : Bool

def Sample.polled (x : Sample) (p : Sample.Poll) : Sample :=
  if x.closing && !x.receiving && p.expired then ⟨[], [], false, false, false⟩
  else ⟨x.rx ++ if x.receiving then p.data else [], x.tx.drop p.released,
    x.receiving && p.receiving, x.sending && p.sending, x.closing⟩

def sampleApi : TcpApi Sample Sample.Poll ℕ where
  mayRecv x := x.receiving || !x.rx.isEmpty
  canRecv x := !x.rx.isEmpty
  recvSlice x n :=
    if x.receiving || !x.rx.isEmpty then some (x.rx.take n, { x with rx := x.rx.drop n }) else none
  maySend x := x.sending
  canSend x := x.sending && decide (x.tx.length < 4)
  sendSlice x data :=
    if x.sending then some (min data.length (4 - x.tx.length),
      { x with tx := x.tx ++ data.take (min data.length (4 - x.tx.length)) })
    else none
  close x := { x with sending := false, closing := true }
  polled := Sample.polled
  rxBuffer := Sample.rx
  txBuffer := Sample.tx
  closing := Sample.closing

theorem sampleApi_documented : sampleApi.Documented where
  may_recv x hx := by simp [sampleApi, show x.rx ≠ [] from hx]
  can_recv x hx := by
    change (x.receiving || !x.rx.isEmpty) = true
    rw [show (!x.rx.isEmpty) = true from hx, Bool.or_true]
  recv_slice x n hx := ⟨_, _, if_pos hx, (List.take_append_drop n x.rx).symm, rfl, rfl⟩
  can_send x hx := (Bool.and_eq_true_iff.mp hx).1
  send_slice x data hx := ⟨_, _, if_pos hx, Nat.min_le_left _ _, rfl, rfl, rfl, rfl⟩
  close x := ⟨rfl, rfl, rfl⟩
  poll_received x p := by
    by_cases hexpired : (x.closing && !x.receiving && p.expired) = true
    · have hclosing : x.closing = true := by
        rw [Bool.and_assoc] at hexpired
        exact (Bool.and_eq_true_iff.mp hexpired).1
      right
      simp only [sampleApi, Sample.polled]
      rw [if_pos hexpired]
      exact ⟨hclosing, rfl, rfl⟩
    · left
      simp only [sampleApi, Sample.polled]
      rw [if_neg hexpired]
      exact ⟨_, rfl⟩
  poll_acknowledged x p := by
    simp only [sampleApi, Sample.polled]
    split
    · exact ⟨x.tx.length, List.drop_length.symm⟩
    · exact ⟨_, rfl⟩
  poll_closed x p hx := by
    obtain ⟨hr, hrx⟩ := Bool.or_eq_false_iff.mp hx
    have hnil : x.rx = [] := by simpa using hrx
    simp only [sampleApi, Sample.polled]
    split
    · rfl
    · simp [hr, hnil]
  poll_closing x p hx := by
    simp only [sampleApi, Sample.polled]
    split
    · rfl
    · exact hx

def sampleConnected : Connected sampleApi := ⟨⟨[], [], true, true, false⟩, rfl, rfl⟩

def sampleStack : PollLoop.Stack Sample := ⟨fun _ _ => none, fun _ => false⟩

/-- A read is dropped and the peer ends; after `shutdown` a reset throws away the byte 7. -/
theorem reads_in_order_dropped : ∃ s : State Sample ℕ, s.delivered = [5, 6] ∧ s.lost = [7] ∧
    s.ended = true ∧
    s.arrived = s.delivered ++ s.lost ++ sampleApi.rxBuffer s.socket ∧ s.readFailed = false ∧
    (s.shut = false → s.lost = []) ∧
    (s.ended = true → s.arrived = s.delivered ++ s.lost ∧
      ∀ t, (machine sampleApi sampleStack).Reachable s t →
        t.arrived = s.arrived ∧ t.delivered = s.delivered) := by
  have hrun := Machine.reachable_of_run (M := machine sampleApi sampleStack)
    (s := .init sampleApi sampleConnected 0)
    [.read 2, .recv, .dropRead, .shutdown, .otherPoll ⟨0, [5, 6, 7], false, true, false⟩, .read 2,
      .recv, .otherPoll ⟨0, [], false, true, true⟩, .read 2, .recv] rfl
  exact ⟨_, rfl, rfl, rfl, reads_in_order sampleApi_documented hrun⟩

/-- What `write_all` calls put in follows each other in the socket. One that succeeds has put in
all of its data, any other a shorter beginning of it; it fails only with `ConnectionClosed`. -/
theorem writes_in_order (htcp : tcp.Documented)
    (hs : (machine tcp k).Reachable (.init tcp conn now) s) :
    s.accepted = s.released ++ tcp.txBuffer s.socket ∧
    s.accepted = (s.writes.flatMap fun w => w.data.take w.taken) ++ s.writer.taken ∧
    ∀ w ∈ s.writes, w.taken ≤ w.data.length ∧ (w.outcome = .ok ↔ w.taken = w.data.length) ∧
      (w.outcome = .ok ∨ w.outcome = .connectionClosed ∨ w.outcome = .cancelled) := by
  have h := (kept_of_reachable htcp hs).write
  refine ⟨h.released, h.accepted, fun w hw => ?_⟩
  have hfine := h.writes w hw
  unfold Past.Fine at hfine
  cases ho : w.outcome with
  | ok =>
    rw [ho] at hfine
    exact ⟨le_of_eq hfine, iff_of_true rfl hfine, .inl rfl⟩
  | connectionClosed =>
    rw [ho] at hfine
    exact ⟨le_of_lt hfine, iff_of_false nofun (ne_of_lt hfine), .inr (.inl rfl)⟩
  | cancelled =>
    rw [ho] at hfine
    exact ⟨le_of_lt hfine, iff_of_false nofun (ne_of_lt hfine), .inr (.inr rfl)⟩
  | shortWrite _ _ | tcpSend =>
    rw [ho] at hfine
    exact hfine.elim

/-- Two writes through the buffer of four bytes, the second dropped. -/
theorem writes_in_order_twice : ∃ s : State Sample ℕ,
    s.writes = [⟨[1, 2, 3, 4, 5], 5, .ok⟩, ⟨[6, 7, 8], 2, .cancelled⟩] ∧
    s.accepted = s.released ++ sampleApi.txBuffer s.socket ∧
    s.accepted = (s.writes.flatMap fun w => w.data.take w.taken) ++ s.writer.taken ∧
    ∀ w ∈ s.writes, w.taken ≤ w.data.length ∧ (w.outcome = .ok ↔ w.taken = w.data.length) ∧
      (w.outcome = .ok ∨ w.outcome = .connectionClosed ∨ w.outcome = .cancelled) := by
  have hrun := Machine.reachable_of_run (M := machine sampleApi sampleStack)
    (s := .init sampleApi sampleConnected 0)
    [.write [1, 2, 3, 4, 5], .send, .kick, .send, .otherPoll ⟨3, [], true, true, false⟩,
      .writeAgain, .send, .kick, .send, .write [6, 7, 8], .send, .kick, .send, .dropWrite] rfl
  exact ⟨_, rfl, writes_in_order sampleApi_documented hrun⟩

theorem net_of_step (ha : (machine tcp k).step s a = some t) :
    t.net = s.net ∨ ∃ b, (PollLoop.machine k).step s.net b = some t.net := by
  have hmap {b : PollLoop.Action σ} {f : PollLoop.State σ → State σ β}
      (hf : ∀ net, (f net).net = net) (hb : (s.net.step k b).map f = some t) :
      t.net = s.net ∨ ∃ b, (PollLoop.machine k).step s.net b = some t.net := by
    obtain ⟨net, hnet, rfl⟩ := Option.map_eq_some_iff.mp hb
    exact .inr ⟨b, hnet.trans (congrArg some (hf net).symm)⟩
  cases a with
  | other a => exact hmap (fun _ => rfl) (Option.ite_none_right_eq_some.mp ha).2
  | poll _ | otherPoll _ | shutdown =>
    simp only [machine, State.step] at ha
    exact hmap (fun _ => rfl) ha
  | recv =>
    simp only [machine, State.step] at ha
    split at ha
    · split at ha
      · obtain rfl := Option.some.inj ha
        exact .inl rfl
      · exact hmap (fun _ => rfl) ha
    · cases ha
  | send =>
    simp only [machine, State.step] at ha
    split at ha
    · split at ha
      · split at ha
        · obtain rfl := Option.some.inj ha
          exact .inl rfl
        · refine hmap (fun net => ?_) ha
          split <;> rfl
        · exact hmap (fun _ => rfl) ha
      · obtain rfl := Option.some.inj ha
        exact .inl rfl
    · cases ha
  | kick =>
    simp only [machine, State.step] at ha
    split at ha
    · exact hmap (fun _ => rfl) ha
    · cases ha
  | read _ | readAgain | dropRead | write _ | writeAgain | dropWrite =>
    left
    simp only [machine, State.step] at ha
    split at ha
    · obtain rfl := Option.some.inj ha
      rfl
    · cases ha

theorem net_reachable (hs : (machine tcp k).Reachable (.init tcp conn now) s) :
    (PollLoop.machine k).Reachable (.init conn.socket now) s.net := by
  apply hs.invariant (I := fun s => (PollLoop.machine k).Reachable (.init conn.socket now) s.net)
    (Machine.Reachable.refl _)
  intro _ a _ ht ha
  rcases net_of_step ha with hsame | ⟨b, hb⟩
  · rw [hsame]
    exact ht
  · exact ht.next hb

/-- What `write` has put in does not wait for the timer: once its kick is out, a sleeping loop has
polled with it in the socket, and a loop that has not is on its way to a poll. -/
theorem accepted_is_polled (htcp : tcp.Documented)
    (hs : (machine tcp k).Reachable (.init tcp conn now) s) (hjob : s.writer.job = none) :
    (s.net.board.asleep → s.accepted = s.offered) ∧
    (s.accepted ≠ s.offered → ∀ after, ∃ t u,
      (PollLoop.machine k).Path PollLoop.Action.own s.net t ∧ t.now = s.net.now ∧
        (PollLoop.machine k).step t (.poll after) = some u) := by
  have hoffered := (kept_of_reachable htcp hs).offered
  unfold Offered at hoffered
  rw [hjob] at hoffered
  obtain ⟨_, hanswered⟩ := PollLoop.kick_answered (net_reachable hs)
  refine ⟨fun ha => hoffered.resolve_right ?_, fun hne after => ?_⟩
  · exact not_unoffered_of_asleep (PollLoop.inv_of_reachable (net_reachable hs)).heard ha
  · obtain ⟨i, j, hi, hseen, hkicked⟩ := hoffered.resolve_left hne
    obtain ⟨t, u, hpath, hnow, hpoll, _⟩ :=
      hanswered ⟨j, List.mem_of_getElem? hi, hkicked.resolve_right nofun, hseen⟩ after
    exact ⟨t, u, hpath, hnow, hpoll⟩

theorem accepted_is_polled_asleep : ∃ s : State Sample ℕ,
    s.accepted = [1, 2] ∧ s.offered = [] ∧ s.net.round = .sleeping ⟨0, 1000⟩ 0 ∧
    (s.net.board.asleep → s.accepted = s.offered) ∧
    (s.accepted ≠ s.offered → ∀ after, ∃ t u,
      (PollLoop.machine sampleStack).Path PollLoop.Action.own s.net t ∧ t.now = s.net.now ∧
        (PollLoop.machine sampleStack).step t (.poll after) = some u) := by
  have hrun := Machine.reachable_of_run (M := machine sampleApi sampleStack)
    (s := .init sampleApi sampleConnected 0)
    [.other .look, .other .sleep, .other .notified, .write [1, 2], .send, .kick] rfl
  exact ⟨_, rfl, rfl, rfl, accepted_is_polled sampleApi_documented hrun rfl⟩

end WarpRust.Netstack.Stream
