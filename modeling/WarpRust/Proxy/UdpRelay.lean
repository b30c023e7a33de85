import WarpRust.Library.Lists
import WarpRust.Library.Machine
import WarpRust.Proxy.UdpCodec

/-!
# The UDP association

`run_relay` as a machine of its three tasks. The address lock is only ever held between two
awaits, so taking it and what is done under it is one step; waiting for it is a state. A task
may end at any moment: by cancellation, an error, a panic or the abort at the end. `judged`,
`handed`, `oversized`, `queueFull`, `tunnelReceived` and `sent` are history, the two in the
middle with the length of the counter of that reason.
-/

namespace WarpRust.Proxy.UdpRelay
open Library

def c2tQueueDepth : ℕ := 64
def c2tMaxDatagram : ℕ := 8 * 1024 + 64
def recvBufferBytes : ℕ := 65535

/-- A datagram as `recv_from` returns it, with its arrival number at `relay_bind`. -/
structure Datagram where
  seq : ℕ
  src : SocketAddr
  bytes : Bytes
  fits : bytes.length ≤ recvBufferBytes
  deriving DecidableEq

structure TunnelDatagram where
  src : SocketAddr
  payload : Bytes
  deriving DecidableEq

structure Reply where
  dst : SocketAddr
  bytes : Bytes
  deriving DecidableEq

/-- The receiving side of client→tunnel, which never waits for a forward. -/
inductive C2t where
  | receiving
  | locking (d : Datagram)
  | ended
  deriving DecidableEq

inductive Forwarder where
  | receiving
  | forwarding (d : Datagram)
  | ended
  deriving DecidableEq

inductive T2c where
  | receiving
  | locking (r : TunnelDatagram)
  | sending (r : TunnelDatagram) (dst : SocketAddr)
  | ended
  deriving DecidableEq

structure State where
  clientAddr : Option SocketAddr
  c2t : C2t
  queue : List Datagram
  forwarder : Forwarder
  t2c : T2c
  framed : Bytes
  arrivals : ℕ
  judged : List Datagram
  handed : List Datagram
  oversized : List Datagram
  queueFull : List Datagram
  tunnelReceived : List TunnelDatagram
  sent : List Reply
  deriving DecidableEq

def State.init : State :=
  { clientAddr := none, c2t := .receiving, queue := [], forwarder := .receiving, t2c := .receiving,
    framed := [], arrivals := 0, judged := [], handed := [], oversized := [], queueFull := [],
    tunnelReceived := [], sent := [] }

namespace State

/-- The packet goes into the channel, or it is counted; a closed channel ends the task. -/
def trySend (s : State) (d : Datagram) : State :=
  if s.forwarder = .ended then { s with c2t := .ended }
  else if c2tQueueDepth ≤ s.queue.length then { s with queueFull := s.queueFull ++ [d] }
  else { s with queue := s.queue ++ [d] }

def judge (s : State) (d : Datagram) : State :=
  let s := { s with c2t := .receiving, judged := s.judged ++ [d] }
  if s.clientAddr.any (· ≠ d.src) then s
  else
    let s := { s with clientAddr := some d.src }
    if c2tMaxDatagram < d.bytes.length then { s with oversized := s.oversized ++ [d] }
    else s.trySend d

/-- The reply is framed for the pinned client, or dropped when there is none yet. -/
def address (s : State) (r : TunnelDatagram) : State :=
  match s.clientAddr with
  | none => { s with t2c := .receiving }
  | some dst => { s with framed := wrapSocks5Udp s.framed r.src r.payload, t2c := .sending r dst }

end State

inductive Task where
  | c2t
  | forwarder
  | t2c

inductive Action where
  | recv (src : SocketAddr) (bytes : Bytes)
  | lockC2t
  | forward
  | forwarded
  | recvTunnel (r : TunnelDatagram)
  | lockT2c
  | send (ok : Bool)
  | endTask (t : Task)

def step (allowedClientIp : IpAddr) (s : State) : Action → Option State
  | .recv src bytes =>
    match s.c2t with
    | .receiving =>
      if h : bytes.length ≤ recvBufferBytes then
        let d : Datagram := ⟨s.arrivals, src, bytes, h⟩
        let s := { s with arrivals := s.arrivals + 1 }
        if src.ip ≠ allowedClientIp then some { s with judged := s.judged ++ [d] }
        else some { s with c2t := .locking d }
      else none
    | _ => none
  | .lockC2t =>
    match s.c2t with
    | .locking d => some (s.judge d)
    | _ => none
  | .forward =>
    match s.forwarder, s.queue with
    | .receiving, d :: rest =>
      some { s with forwarder := .forwarding d, queue := rest, handed := s.handed ++ [d] }
    | _, _ => none
  | .forwarded =>
    match s.forwarder with
    | .forwarding _ => some { s with forwarder := .receiving }
    | _ => none
  | .recvTunnel r =>
    match s.t2c with
    | .receiving => some { s with t2c := .locking r, tunnelReceived := s.tunnelReceived ++ [r] }
    | _ => none
  | .lockT2c =>
    match s.t2c with
    | .locking r => some (s.address r)
    | _ => none
  | .send ok =>
    match s.t2c with
    | .sending _ dst =>
      if ok then some { s with t2c := .receiving, sent := s.sent ++ [⟨dst, s.framed⟩] }
      else some { s with t2c := .ended }
    | _ => none
  | .endTask .c2t => some { s with c2t := .ended }
  | .endTask .forwarder => some { s with forwarder := .ended }
  | .endTask .t2c => some { s with t2c := .ended }

def machine (allowedClientIp : IpAddr) : Machine State Action := ⟨step allowedClientIp⟩

def State.Lives (s : State) : Prop := s.c2t ≠ .ended ∧ s.forwarder ≠ .ended ∧ s.t2c ≠ .ended

inductive Step (ip : IpAddr) (s : State) : State → Prop
  | foreign (d : Datagram) : s.c2t = .receiving → d.seq = s.arrivals → d.src.ip ≠ ip →
      Step ip s { s with arrivals := s.arrivals + 1, judged := s.judged ++ [d] }
  | recv (d : Datagram) : s.c2t = .receiving → d.seq = s.arrivals → d.src.ip = ip →
      Step ip s { s with arrivals := s.arrivals + 1, c2t := .locking d }
  | judge (d : Datagram) : s.c2t = .locking d → Step ip s (s.judge d)
  | forward (d : Datagram) (rest : List Datagram) : s.forwarder = .receiving → s.queue = d :: rest →
      Step ip s { s with forwarder := .forwarding d, queue := rest, handed := s.handed ++ [d] }
  | forwarded (d : Datagram) : s.forwarder = .forwarding d →
      Step ip s { s with forwarder := .receiving }
  | recvTunnel (r : TunnelDatagram) : s.t2c = .receiving →
      Step ip s { s with t2c := .locking r, tunnelReceived := s.tunnelReceived ++ [r] }
  | address (r : TunnelDatagram) : s.t2c = .locking r → Step ip s (s.address r)
  | send (r : TunnelDatagram) (dst : SocketAddr) : s.t2c = .sending r dst →
      Step ip s { s with t2c := .receiving, sent := s.sent ++ [⟨dst, s.framed⟩] }
  | endC2t : Step ip s { s with c2t := .ended }
  | endForwarder : Step ip s { s with forwarder := .ended }
  | endT2c : Step ip s { s with t2c := .ended }

theorem step_cases {ip : IpAddr} {s s' : State} {a : Action} (ha : step ip s a = some s') :
    Step ip s s' := by
  cases a with
  | recv src bytes =>
    simp only [step] at ha
    split at ha
    · next hc2t =>
      split at ha
      · next hfits =>
        split at ha
        · next hip =>
          obtain rfl := Option.some.inj ha
          exact .foreign ⟨s.arrivals, src, bytes, hfits⟩ hc2t rfl hip
        · next hip =>
          obtain rfl := Option.some.inj ha
          exact .recv ⟨s.arrivals, src, bytes, hfits⟩ hc2t rfl (not_not.mp hip)
      · cases ha
    · cases ha
  | lockC2t =>
    simp only [step] at ha
    split at ha
    · next d hd =>
      obtain rfl := Option.some.inj ha
      exact .judge d hd
    · cases ha
  | forward =>
    simp only [step] at ha
    split at ha
    · next d rest hfwd hqueue =>
      obtain rfl := Option.some.inj ha
      exact .forward d rest hfwd hqueue
    · cases ha
  | forwarded =>
    simp only [step] at ha
    split at ha
    · next d hd =>
      obtain rfl := Option.some.inj ha
      exact .forwarded d hd
    · cases ha
  | recvTunnel r =>
    simp only [step] at ha
    split at ha
    · next ht2c =>
      obtain rfl := Option.some.inj ha
      exact .recvTunnel r ht2c
    · cases ha
  | lockT2c =>
    simp only [step] at ha
    split at ha
    · next r hr =>
      obtain rfl := Option.some.inj ha
      exact .address r hr
    · cases ha
  | send ok =>
    simp only [step] at ha
    split at ha
    · next r dst hsending =>
      split at ha
      · obtain rfl := Option.some.inj ha
        exact .send r dst hsending
      · obtain rfl := Option.some.inj ha
        exact .endT2c
    · cases ha
  | endTask t =>
    cases t with
    | c2t =>
      obtain rfl := Option.some.inj ha
      exact .endC2t
    | forwarder =>
      obtain rfl := Option.some.inj ha
      exact .endForwarder
    | t2c =>
      obtain rfl := Option.some.inj ha
      exact .endT2c

def fromAddr (client : Option SocketAddr) (l : List Datagram) : List Datagram :=
  l.filter fun d => client = some d.src

def State.fromClient (s : State) : List Datagram := fromAddr s.clientAddr s.judged

def firstFrom (ip : IpAddr) (l : List Datagram) : Option SocketAddr :=
  (l.find? fun d => d.src.ip = ip).map Datagram.src

def C2t.inHand : C2t → List Datagram
  | .locking d => [d]
  | _ => []

def T2c.inHand : T2c → List TunnelDatagram
  | .locking r | .sending r _ => [r]
  | _ => []

def Reply.Carries (client : Option SocketAddr) (x : Reply) (r : TunnelDatagram) : Prop :=
  client = some x.dst ∧ x.bytes = (UdpTarget.ofAddr r.src).encode ++ r.payload

structure Inv (ip : IpAddr) (s : State) : Prop where
  pinned : s.clientAddr = firstFrom ip s.judged
  numbered : s.judged.map Datagram.seq = List.range s.judged.length
  inHand : ∀ d ∈ s.c2t.inHand, d.src.ip = ip ∧ d.seq = s.judged.length
  arrived : s.c2t ≠ .ended → s.arrivals = s.judged.length + s.c2t.inHand.length
  order : (s.handed ++ s.queue).Sublist s.fromClient
  accounted : s.forwarder ≠ .ended →
    (s.handed ++ s.queue ++ s.oversized ++ s.queueFull).Perm s.fromClient
  depth : s.queue.length ≤ c2tQueueDepth
  size : ∀ d ∈ s.queue, d.bytes.length ≤ c2tMaxDatagram
  framing : ∀ r dst, s.t2c = .sending r dst → Reply.Carries s.clientAddr ⟨dst, s.framed⟩ r
  replies : ∃ ds : List TunnelDatagram, (ds ++ s.t2c.inHand).Sublist s.tunnelReceived ∧
    List.Forall₂ (Reply.Carries s.clientAddr) s.sent ds

variable {ip : IpAddr} {s s' : State} {d : Datagram} {l : List Datagram}

theorem firstFrom_ip {a : SocketAddr} (h : firstFrom ip l = some a) : a.ip = ip := by
  obtain ⟨d, hd, rfl⟩ := Option.map_eq_some_iff.mp h
  have hip := List.find?_some hd
  simpa using hip

theorem firstFrom_eq_none : firstFrom ip l = none ↔ ∀ d ∈ l, d.src.ip ≠ ip := by
  simp [firstFrom]

theorem firstFrom_append_of_some {a : SocketAddr} (h : firstFrom ip l = some a)
    (k : List Datagram) :
    firstFrom ip (l ++ k) = some a := by
  obtain ⟨d, hd, rfl⟩ := Option.map_eq_some_iff.mp h
  simp [firstFrom, List.find?_append, hd]

theorem firstFrom_append_foreign (hd : d.src.ip ≠ ip) :
    firstFrom ip (l ++ [d]) = firstFrom ip l := by
  simp [firstFrom, List.find?_append, hd]

theorem firstFrom_append_first (h : firstFrom ip l = none) (hd : d.src.ip = ip) :
    firstFrom ip (l ++ [d]) = some d.src := by
  have hnone : (l.find? fun d => d.src.ip = ip) = none := Option.map_eq_none_iff.mp h
  simp [firstFrom, List.find?_append, hnone, hd]

theorem fromAddr_append_other {client : Option SocketAddr} (h : client ≠ some d.src) :
    fromAddr client (l ++ [d]) = fromAddr client l := by
  simp [fromAddr, List.filter_append, h]

/-- Accepting a datagram appends it to those of the client: whoever was there before the
address was pinned came from another host. -/
theorem fromAddr_append_accepted (hd : d.src.ip = ip)
    (h : firstFrom ip l = none ∨ firstFrom ip l = some d.src) :
    fromAddr (some d.src) (l ++ [d]) = fromAddr (firstFrom ip l) l ++ [d] := by
  have hlast : fromAddr (some d.src) [d] = [d] := by simp [fromAddr]
  rw [fromAddr, List.filter_append, ← fromAddr, ← fromAddr, hlast]
  rcases h with hnone | hsome
  · have hleft : fromAddr (some d.src) l = [] := by
      apply List.filter_eq_nil_iff.mpr
      intro e he heq
      have hsrc : d.src = e.src := Option.some.inj (of_decide_eq_true heq)
      exact firstFrom_eq_none.mp hnone e he (hsrc ▸ hd)
    have hright : fromAddr none l = [] := by
      apply List.filter_eq_nil_iff.mpr
      simp
    rw [hleft, hnone, hright]
  · rw [hsome]

theorem Inv.init (ip : IpAddr) : Inv ip .init where
  pinned := rfl
  numbered := rfl
  inHand := nofun
  arrived _ := rfl
  order := .slnil
  accounted _ := .nil
  depth := Nat.zero_le _
  size := nofun
  framing := nofun
  replies := ⟨[], .slnil, .nil⟩

theorem numbered_append (h : l.map Datagram.seq = List.range l.length) (hd : d.seq = l.length) :
    (l ++ [d]).map Datagram.seq = List.range (l ++ [d]).length := by
  rw [List.map_append, h, List.length_append, List.length_singleton, List.range_succ]
  exact congrArg (fun n => List.range l.length ++ [n]) hd

theorem Inv.arrivals_eq (h : Inv ip s) (hc2t : s.c2t = .receiving) :
    s.arrivals = s.judged.length := h.arrived (by rw [hc2t]; nofun) |>.trans (by rw [hc2t]; rfl)

theorem Inv.foreign (h : Inv ip s) (hc2t : s.c2t = .receiving) (hseq : d.seq = s.arrivals)
    (hd : d.src.ip ≠ ip) :
    Inv ip { s with arrivals := s.arrivals + 1, judged := s.judged ++ [d] } := by
  have hlen := h.arrivals_eq hc2t
  have hclient : s.clientAddr ≠ some d.src := by
    rw [h.pinned]
    exact fun heq => hd (firstFrom_ip heq)
  have hfrom : fromAddr s.clientAddr (s.judged ++ [d]) = s.fromClient :=
    fromAddr_append_other hclient
  refine ⟨?_, numbered_append h.numbered (hseq.trans hlen), ?_, fun _ => ?_, ?_, ?_, h.depth,
    h.size, h.framing, h.replies⟩
  · rw [firstFrom_append_foreign hd]
    exact h.pinned
  · simp only [hc2t, C2t.inHand]
    nofun
  · simp only [hc2t, C2t.inHand, hlen, List.length_append, List.length_singleton, List.length_nil,
      Nat.add_zero]
  · rw [State.fromClient, hfrom]
    exact h.order
  · rw [State.fromClient, hfrom]
    exact h.accounted

theorem Inv.recv (h : Inv ip s) (hc2t : s.c2t = .receiving) (hseq : d.seq = s.arrivals)
    (hd : d.src.ip = ip) : Inv ip { s with arrivals := s.arrivals + 1, c2t := .locking d } := by
  have hlen := h.arrivals_eq hc2t
  refine ⟨h.pinned, h.numbered, ?_, fun _ => ?_, h.order, h.accounted, h.depth, h.size, h.framing,
    h.replies⟩
  · simpa only [C2t.inHand, List.forall_mem_singleton] using ⟨hd, hseq.trans hlen⟩
  · simp only [C2t.inHand, hlen, List.length_singleton]

theorem Reply.Carries.mono {client client' : Option SocketAddr} {x : Reply} {r : TunnelDatagram}
    (h : Reply.Carries client x r) (hc : ∀ a, client = some a → client' = some a) :
    Reply.Carries client' x r := ⟨hc _ h.1, h.2⟩

theorem Inv.locked (h : Inv ip s) (hc2t : s.c2t = .locking d) :
    d.src.ip = ip ∧ d.seq = s.judged.length ∧ s.arrivals = s.judged.length + 1 := by
  have hd := h.inHand d (by rw [hc2t]; exact List.mem_singleton_self d)
  have harrived := h.arrived (by rw [hc2t]; nofun)
  rw [hc2t] at harrived
  exact ⟨hd.1, hd.2, harrived⟩

theorem Inv.judgeOther (h : Inv ip s) (hc2t : s.c2t = .locking d) {a : SocketAddr}
    (ha : s.clientAddr = some a) (hne : a ≠ d.src) :
    Inv ip { s with c2t := .receiving, judged := s.judged ++ [d] } := by
  obtain ⟨-, hseq, harrivals⟩ := h.locked hc2t
  have hother : s.clientAddr ≠ some d.src := by
    rw [ha]
    exact fun heq => hne (Option.some.inj heq)
  have hfrom : fromAddr s.clientAddr (s.judged ++ [d]) = s.fromClient :=
    fromAddr_append_other hother
  refine ⟨?_, numbered_append h.numbered hseq, nofun, fun _ => ?_, ?_, ?_, h.depth, h.size,
    h.framing, h.replies⟩
  · rw [firstFrom_append_of_some (h.pinned.symm.trans ha)]
    exact ha
  · simpa [C2t.inHand] using harrivals
  · rw [State.fromClient, hfrom]
    exact h.order
  · rw [State.fromClient, hfrom]
    exact h.accounted

structure Accepted (ip : IpAddr) (s : State) (d : Datagram) : Prop where
  pinned : some d.src = firstFrom ip (s.judged ++ [d])
  kept : ∀ a, s.clientAddr = some a → some d.src = some a
  fromClient : fromAddr (some d.src) (s.judged ++ [d]) = s.fromClient ++ [d]

theorem Inv.accepted (h : Inv ip s) (hc2t : s.c2t = .locking d)
    (hclient : s.clientAddr = none ∨ s.clientAddr = some d.src) : Accepted ip s d := by
  obtain ⟨hip, -⟩ := h.locked hc2t
  refine ⟨?_, ?_, ?_⟩
  · rcases hclient with hnone | hsome
    · exact (firstFrom_append_first (h.pinned.symm.trans hnone) hip).symm
    · exact (firstFrom_append_of_some (h.pinned.symm.trans hsome) _).symm
  · intro a ha
    rcases hclient with hnone | hsome
    · rw [hnone] at ha
      cases ha
    · exact hsome.symm.trans ha
  · rw [State.fromClient, h.pinned]
    rw [h.pinned] at hclient
    exact fromAddr_append_accepted hip hclient

theorem Inv.settle (h : Inv ip s) (hc2t : s.c2t = .locking d) (hacc : Accepted ip s d) {c2t : C2t}
    (hc : c2t = .receiving ∨ c2t = .ended) {queue oversized queueFull : List Datagram}
    (horder : (s.handed ++ queue).Sublist (s.fromClient ++ [d]))
    (haccounted : s.forwarder ≠ .ended →
      (s.handed ++ queue ++ oversized ++ queueFull).Perm (s.fromClient ++ [d]))
    (hdepth : queue.length ≤ c2tQueueDepth) (hsize : ∀ e ∈ queue, e.bytes.length ≤ c2tMaxDatagram) :
    Inv ip { s with
      c2t, judged := s.judged ++ [d], clientAddr := some d.src, queue, oversized, queueFull } := by
  obtain ⟨-, hseq, harrivals⟩ := h.locked hc2t
  have hin : c2t.inHand = [] := by
    rcases hc with rfl | rfl <;> rfl
  obtain ⟨ds, hsub, hall⟩ := h.replies
  refine ⟨hacc.pinned, numbered_append h.numbered hseq, ?_, fun _ => ?_, ?_, ?_, hdepth, hsize,
    fun r dst hr => (h.framing r dst hr).mono hacc.kept,
    ⟨ds, hsub, hall.imp fun _ _ hx => hx.mono hacc.kept⟩⟩
  · rw [hin]
    nofun
  · simpa [hin] using harrivals
  · rw [State.fromClient, hacc.fromClient]
    exact horder
  · rw [State.fromClient, hacc.fromClient]
    exact haccounted

theorem Inv.judge (h : Inv ip s) (hc2t : s.c2t = .locking d) : Inv ip (s.judge d) := by
  have horder : (s.handed ++ s.queue).Sublist (s.fromClient ++ [d]) :=
    h.order.trans (List.sublist_append_left _ _)
  by_cases hother : s.clientAddr.any (· ≠ d.src) = true
  · obtain ⟨a, ha, hne⟩ := (Option.any_eq_true _ _).mp hother
    simp only [State.judge, if_pos hother]
    exact h.judgeOther hc2t ha (of_decide_eq_true hne)
  have hclient : s.clientAddr = none ∨ s.clientAddr = some d.src := by
    cases hc : s.clientAddr with
    | none => exact .inl rfl
    | some a => simpa [hc] using hother
  have hacc := h.accepted hc2t hclient
  by_cases hsize : c2tMaxDatagram < d.bytes.length
  · simp only [State.judge, if_neg hother, if_pos hsize]
    refine h.settle hc2t hacc (.inl rfl) horder (fun hf => ?_) h.depth h.size
    rw [← List.append_assoc]
    exact (perm_append_middle _ _ _).trans ((h.accounted hf).append_right [d])
  by_cases hclosed : s.forwarder = .ended
  · simp only [State.judge, if_neg hother, if_neg hsize, State.trySend, if_pos hclosed]
    exact h.settle hc2t hacc (.inr rfl) horder (fun hf => absurd hclosed hf) h.depth h.size
  by_cases hfull : c2tQueueDepth ≤ s.queue.length
  · simp only [State.judge, if_neg hother, if_neg hsize, State.trySend, if_neg hclosed,
      if_pos hfull]
    refine h.settle hc2t hacc (.inl rfl) horder (fun hf => ?_) h.depth h.size
    rw [← List.append_assoc]
    exact (h.accounted hf).append_right [d]
  · simp only [State.judge, if_neg hother, if_neg hsize, State.trySend, if_neg hclosed,
      if_neg hfull]
    refine h.settle hc2t hacc (.inl rfl) ?_ (fun hf => ?_) ?_ ?_
    · rw [← List.append_assoc]
      exact h.order.append (List.Sublist.refl [d])
    · have hperm := h.accounted hf
      rw [List.append_assoc] at hperm
      rw [← List.append_assoc, List.append_assoc _ s.oversized]
      exact (perm_append_middle _ _ _).trans (hperm.append_right [d])
    · rw [List.length_append]
      exact not_le.mp hfull
    · simp only [List.forall_mem_append, List.forall_mem_singleton]
      exact ⟨h.size, not_lt.mp hsize⟩

theorem Inv.forward (h : Inv ip s) {rest : List Datagram} (hfwd : s.forwarder = .receiving)
    (hqueue : s.queue = d :: rest) :
    Inv ip { s with forwarder := .forwarding d, queue := rest, handed := s.handed ++ [d] } := by
  have hmoved : s.handed ++ [d] ++ rest = s.handed ++ s.queue := by
    rw [hqueue, List.append_assoc, List.singleton_append]
  have hdepth := h.depth
  have hsize := h.size
  rw [hqueue] at hdepth hsize
  refine ⟨h.pinned, h.numbered, h.inHand, h.arrived, ?_, fun _ => ?_,
    (Nat.le_succ _).trans hdepth, fun e he => hsize e (List.mem_cons_of_mem d he), h.framing,
    h.replies⟩
  · exact hmoved ▸ h.order
  · exact hmoved ▸ h.accounted (by rw [hfwd]; nofun)

theorem Inv.address (h : Inv ip s) {r : TunnelDatagram} (hr : s.t2c = .locking r) :
    Inv ip (s.address r) := by
  obtain ⟨ds, hsub, hall⟩ := h.replies
  rw [hr] at hsub
  cases hc : s.clientAddr with
  | none =>
    have hdropped : s.address r = { s with t2c := .receiving } := by rw [State.address, hc]
    rw [hdropped]
    refine ⟨h.pinned, h.numbered, h.inHand, h.arrived, h.order, h.accounted, h.depth, h.size, nofun,
      ds, ?_, hall⟩
    exact (List.append_sublist_append_left ds).mpr (List.nil_sublist [r]) |>.trans hsub
  | some dst =>
    have hframed : s.address r = { s with
        framed := wrapSocks5Udp s.framed r.src r.payload, t2c := .sending r dst } := by
      rw [State.address, hc]
    rw [hframed]
    refine ⟨h.pinned, h.numbered, h.inHand, h.arrived, h.order, h.accounted, h.depth, h.size, ?_,
      ds, hsub, hall⟩
    intro r' dst' hsending
    obtain ⟨rfl, rfl⟩ := T2c.sending.inj hsending
    exact ⟨hc, wrap_eq_encode _ _ _⟩

theorem Inv.send (h : Inv ip s) {r : TunnelDatagram} {dst : SocketAddr}
    (hr : s.t2c = .sending r dst) :
    Inv ip { s with t2c := .receiving, sent := s.sent ++ [⟨dst, s.framed⟩] } := by
  obtain ⟨ds, hsub, hall⟩ := h.replies
  rw [hr] at hsub
  refine ⟨h.pinned, h.numbered, h.inHand, h.arrived, h.order, h.accounted, h.depth, h.size, nofun,
    ds ++ [r], ?_, ?_⟩
  · simpa only [T2c.inHand, List.append_nil] using hsub
  · exact List.rel_append hall (.cons (h.framing r dst hr) .nil)

theorem Inv.step (h : Inv ip s) (hs : Step ip s s') : Inv ip s' := by
  cases hs with
  | foreign d hc2t hseq hd => exact h.foreign hc2t hseq hd
  | recv d hc2t hseq hd => exact h.recv hc2t hseq hd
  | judge d hc2t => exact h.judge hc2t
  | forward d rest hfwd hqueue => exact h.forward hfwd hqueue
  | forwarded d hd =>
    exact ⟨h.pinned, h.numbered, h.inHand, h.arrived, h.order,
      fun _ => h.accounted (by rw [hd]; nofun), h.depth, h.size, h.framing, h.replies⟩
  | recvTunnel r ht2c =>
    obtain ⟨ds, hsub, hall⟩ := h.replies
    simp only [ht2c, T2c.inHand, List.append_nil] at hsub
    exact ⟨h.pinned, h.numbered, h.inHand, h.arrived, h.order, h.accounted, h.depth, h.size, nofun,
      ds, hsub.append (List.Sublist.refl [r]), hall⟩
  | address r hr => exact h.address hr
  | send r dst hr => exact h.send hr
  | endC2t =>
    exact ⟨h.pinned, h.numbered, nofun, fun hc => absurd rfl hc, h.order, h.accounted, h.depth,
      h.size, h.framing, h.replies⟩
  | endForwarder =>
    exact ⟨h.pinned, h.numbered, h.inHand, h.arrived, h.order, fun hf => absurd rfl hf, h.depth,
      h.size, h.framing, h.replies⟩
  | endT2c =>
    obtain ⟨ds, hsub, hall⟩ := h.replies
    refine ⟨h.pinned, h.numbered, h.inHand, h.arrived, h.order, h.accounted, h.depth, h.size, nofun,
      ds, ?_, hall⟩
    simp only [T2c.inHand, List.append_nil]
    exact (List.sublist_append_left ds _).trans hsub

theorem Inv.reachable (h : (machine ip).Reachable .init s) : Inv ip s :=
  h.invariant (Inv.init ip) fun _ _ _ ht ha => ht.step (step_cases ha)

theorem judged_grows (hs : Step ip s s') : s.judged <+: s'.judged := by
  cases hs with
  | foreign d => exact List.prefix_append _ _
  | judge d =>
    have hjudged : (s.judge d).judged = s.judged ++ [d] := by
      simp only [State.judge, State.trySend]
      split_ifs <;> rfl
    rw [hjudged]
    exact List.prefix_append _ _
  | address r =>
    have hjudged : (s.address r).judged = s.judged := by
      unfold State.address
      split <;> rfl
    rw [hjudged]
  | _ => exact List.prefix_rfl

theorem Inv.clientAddr_stable (h : Inv ip s) (h' : Inv ip s') (hgrows : s.judged <+: s'.judged)
    {a : SocketAddr} (ha : s.clientAddr = some a) : s'.clientAddr = some a := by
  obtain ⟨k, hk⟩ := hgrows
  rw [h'.pinned, ← hk]
  exact firstFrom_append_of_some (h.pinned.symm.trans ha) k

structure Association (ip : IpAddr) (s : State) : Prop where
  pinned : s.clientAddr = firstFrom ip s.judged
  numbered : s.judged.map Datagram.seq = List.range s.judged.length
  arrived : s.c2t ≠ .ended → s.arrivals = s.judged.length + s.c2t.inHand.length
  source : ∀ d ∈ s.handed, s.clientAddr = some d.src
  order : s.handed.Sublist s.fromClient
  once : s.handed.Pairwise fun d e => d.seq < e.seq
  accounted : s.Lives →
    (s.handed ++ (s.queue ++ (s.oversized ++ s.queueFull))).Perm s.fromClient
  depth : s.queue.length ≤ 64
  replies : ∃ ds : List TunnelDatagram, ds.Sublist s.tunnelReceived ∧
    List.Forall₂ (Reply.Carries s.clientAddr) s.sent ds

theorem Inv.correct (h : Inv ip s) : Association ip s := by
  have horder : s.handed.Sublist s.fromClient := (List.sublist_append_left _ _).trans h.order
  have hfrom : s.fromClient.Sublist s.judged := List.filter_sublist
  have hsorted : s.judged.Pairwise fun d e => d.seq < e.seq := by
    have hrange := List.pairwise_lt_range (n := s.judged.length)
    rw [← h.numbered] at hrange
    exact List.pairwise_map.mp hrange
  obtain ⟨ds, hsub, hall⟩ := h.replies
  refine ⟨h.pinned, h.numbered, h.arrived, fun d hd => ?_, horder,
    hsorted.sublist (horder.trans hfrom),
    fun hl => ?_, h.depth, ds, (List.sublist_append_left _ _).trans hsub, hall⟩
  · exact of_decide_eq_true (List.mem_filter.mp (horder.subset hd)).2
  · simpa only [List.append_assoc] using h.accounted hl.2.1

theorem association {t : State} (hs : (machine ip).Reachable .init s)
    (ht : (machine ip).Reachable s t) :
    Association ip s ∧ ∀ a, s.clientAddr = some a → t.clientAddr = some a := by
  have hinv := Inv.reachable hs
  refine ⟨hinv.correct, fun a ha => ?_⟩
  have hboth : Inv ip t ∧ s.judged <+: t.judged := by
    apply ht.invariant (I := fun t => Inv ip t ∧ s.judged <+: t.judged) ⟨hinv, List.prefix_rfl⟩
    rintro t a u ⟨ht, hgrows⟩ ha
    have hstep := step_cases ha
    exact ⟨ht.step hstep, hgrows.trans (judged_grows hstep)⟩
  exact hinv.clientAddr_stable hboth.1 hboth.2 ha

theorem association_exchange : ∃ s : State, s.handed.length = 1 ∧ s.sent.length = 1 ∧
    Association (.v4 0x7f000001) s ∧ ∀ a, s.clientAddr = some a → s.clientAddr = some a := by
  have hrun : ∃ s ∈ (machine (.v4 0x7f000001)).run .init
      [.recv (.v4 0x0a000001 9) [1], .recv (.v4 0x7f000001 5000) [2], .lockC2t, .forward,
        .recvTunnel ⟨.v4 0x08080808 53, [3]⟩, .lockT2c, .send true],
      s.handed.length = 1 ∧ s.sent.length = 1 := by decide +kernel
  obtain ⟨s, hs, hhanded, hsent⟩ := hrun
  exact ⟨s, hhanded, hsent, association (Machine.reachable_of_run _ hs) (.refl s)⟩

end WarpRust.Proxy.UdpRelay
