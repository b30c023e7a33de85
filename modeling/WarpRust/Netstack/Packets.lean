import Mathlib.Algebra.Order.Ring.Nat
import WarpRust.Library.Lists
import WarpRust.Library.Machine

/-!
# Packets between smoltcp and WireGuard

`VirtualDevice` with its two queues, any number of threads inside `NetStack::poll`, the two
channels of the tunnel and the loops at their other ends. A poll drains the transmit queue
under the lock and sends outside it; what the channel does not take goes back to the front.
smoltcp is the environment: under the lock it takes and makes packets through the device.
-/

namespace WarpRust.Netstack.Packets
open Library

variable {π : Type*}

def maxDeviceQueuePackets : ℕ := 8192

def channelCapacity : ℕ := 8192

structure VirtualDevice (π : Type*) where
  rxQueue : List π
  txQueue : List π

namespace VirtualDevice

def pushRx (d : VirtualDevice π) (packet : π) : Bool × VirtualDevice π :=
  if maxDeviceQueuePackets ≤ d.rxQueue.length then (false, d)
  else (true, { d with rxQueue := d.rxQueue ++ [packet] })

def drainTx (d : VirtualDevice π) : List π × VirtualDevice π :=
  (d.txQueue, { d with txQueue := [] })

def prependTx (d : VirtualDevice π) (packets : List π) : VirtualDevice π :=
  { d with txQueue := packets.foldr List.cons d.txQueue }

theorem prependTx_eq (d : VirtualDevice π) (packets : List π) :
    d.prependTx packets = { d with txQueue := packets ++ d.txQueue } := by
  simp [prependTx]

end VirtualDevice

inductive Poller (π : Type*) where
  | sending (packets : List π)
  | givingBack (unsent : List π)

def Poller.packets : Poller π → List π
  | sending packets => packets
  | givingBack unsent => unsent

inductive DeviceCall (π : Type*) where
  | receive (reply : Option π)
  | transmit (packet : π)

/-- `sends` records what `run_send_loop` took and whether `send_ip_packet` succeeded;
`produced`, `consumed` and `decrypted` what smoltcp put into the device and took out of it and
what the tunnel received. -/
structure State (π : Type*) where
  device : VirtualDevice π
  pollers : List (Poller π)
  wgTx : List π
  wgTxClosed : Bool
  incoming : List π
  sends : List (π × Bool)
  lost : List π
  rxDropped : List π
  backpressure : ℕ
  txDropped : ℕ
  produced : List π
  consumed : List π
  decrypted : List π

namespace State

def init : State π := ⟨⟨[], []⟩, [], [], false, [], [], [], [], 0, 0, [], [], []⟩

def call (s : State π) : DeviceCall π → State π
  | .receive reply =>
    if maxDeviceQueuePackets ≤ s.device.txQueue.length then s
    else
      match s.device.rxQueue with
      | [] => s
      | packet :: rxQueue =>
        { s with
          device := ⟨rxQueue, s.device.txQueue ++ reply.toList⟩
          consumed := s.consumed ++ [packet]
          produced := s.produced ++ reply.toList }
  | .transmit packet =>
    if maxDeviceQueuePackets ≤ s.device.txQueue.length then s
    else
      { s with
        device := { s.device with txQueue := s.device.txQueue ++ [packet] }
        produced := s.produced ++ [packet] }

def pushRxPacket (s : State π) (packet : π) : State π :=
  let (accepted, device) := s.device.pushRx packet
  { s with
    device := device
    rxDropped := if accepted then s.rxDropped else s.rxDropped ++ [packet] }

def trySend (s : State π) (i : ℕ) : List π → State π
  | [] => { s with pollers := s.pollers.eraseIdx i }
  | packet :: packets =>
    if s.wgTxClosed then
      { s with
        pollers := s.pollers.eraseIdx i
        lost := s.lost ++ packet :: packets
        txDropped := s.txDropped + 1 }
    else if s.wgTx.length < channelCapacity then
      { s with
        pollers := s.pollers.set i (.sending packets)
        wgTx := s.wgTx ++ [packet] }
    else
      { s with
        pollers := s.pollers.set i (.givingBack (packet :: packets))
        backpressure := s.backpressure + 1 }

end State

inductive Action (π : Type*) where
  | poll (calls : List (DeviceCall π))
  | pollInterface (calls : List (DeviceCall π))
  | next (i : ℕ)
  | sendLoop (ok : Bool)
  | closeOutgoing
  | receiveLoop (packet : π)
  | rxLoop

namespace State

def step (s : State π) : Action π → Option (State π)
  | .poll calls =>
    let s := calls.foldl call s
    let (txPackets, device) := s.device.drainTx
    some { s with device := device, pollers := s.pollers ++ [.sending txPackets] }
  -- the rounds of `flush_pending_fragments`
  | .pollInterface calls => some (calls.foldl call s)
  | .next i =>
    match s.pollers[i]? with
    | some (.sending packets) => some (s.trySend i packets)
    | some (.givingBack unsent) =>
      some { s with device := s.device.prependTx unsent, pollers := s.pollers.eraseIdx i }
    | none => none
  -- a failed send is logged and the loop goes on
  | .sendLoop ok =>
    match s.wgTx with
    | packet :: wgTx => some { s with wgTx := wgTx, sends := s.sends ++ [(packet, ok)] }
    | [] => none
  | .closeOutgoing => some { s with wgTxClosed := true }
  -- the send waits for room in the channel
  | .receiveLoop packet =>
    if s.incoming.length < channelCapacity then
      some { s with incoming := s.incoming ++ [packet], decrypted := s.decrypted ++ [packet] }
    else none
  | .rxLoop =>
    match s.incoming with
    | packet :: incoming => some (State.pushRxPacket { s with incoming := incoming } packet)
    | [] => none

def inHand (s : State π) : List π := s.pollers.flatMap Poller.packets

def taken (s : State π) : List π := s.sends.map Prod.fst

def sent (s : State π) : List π := (s.sends.filter Prod.snd).map Prod.fst

/-- All packets on their way and those taken by the send loop, the furthest first. -/
def onTheWay (s : State π) : List π := s.taken ++ s.wgTx ++ s.inHand ++ s.device.txQueue

end State

def machine (π : Type*) : Machine (State π) (Action π) := ⟨State.step⟩

variable {s t u : State π} {a : Action π} {c : DeviceCall π} {i : ℕ}

/-! ### What a step does -/

structure Made (s t : State π) (packets : List π) : Prop where
  txQueue : t.device.txQueue = s.device.txQueue ++ packets
  produced : t.produced = s.produced ++ packets
  length : t.device.txQueue.length ≤ max s.device.txQueue.length maxDeviceQueuePackets
  same : t.pollers = s.pollers ∧ t.wgTx = s.wgTx ∧ t.wgTxClosed = s.wgTxClosed ∧
    t.sends = s.sends ∧ t.lost = s.lost

theorem Made.refl (s : State π) : Made s s [] :=
  ⟨by simp, by simp, le_max_left _ _, rfl, rfl, rfl, rfl, rfl⟩

theorem Made.trans {p q : List π} (h : Made s t p) (k : Made t u q) : Made s u (p ++ q) := by
  obtain ⟨h₁, h₂, h₃, h₄, h₅⟩ := h.same
  obtain ⟨k₁, k₂, k₃, k₄, k₅⟩ := k.same
  refine ⟨?_, ?_, k.length.trans (max_le h.length (le_max_right _ _)), k₁.trans h₁,
    k₂.trans h₂, k₃.trans h₃, k₄.trans h₄, k₅.trans h₅⟩
  · rw [k.txQueue, h.txQueue, List.append_assoc]
  · rw [k.produced, h.produced, List.append_assoc]

theorem call_full (c : DeviceCall π) (h : maxDeviceQueuePackets ≤ s.device.txQueue.length) :
    s.call c = s := by
  cases c <;> exact if_pos h

theorem made_call (s : State π) (c : DeviceCall π) : ∃ packets, Made s (s.call c) packets := by
  by_cases hfull : maxDeviceQueuePackets ≤ s.device.txQueue.length
  · rw [call_full c hfull]
    exact ⟨[], .refl s⟩
  · cases c with
    | receive reply =>
      simp only [State.call, if_neg hfull]
      cases s.device.rxQueue with
      | nil => exact ⟨[], .refl s⟩
      | cons packet rxQueue =>
        refine ⟨reply.toList, rfl, rfl, ?_, rfl, rfl, rfl, rfl, rfl⟩
        have hreply : reply.toList.length ≤ 1 := by cases reply <;> simp
        simp only [List.length_append]
        omega
    | transmit packet =>
      simp only [State.call, if_neg hfull]
      refine ⟨[packet], rfl, rfl, ?_, rfl, rfl, rfl, rfl, rfl⟩
      simp only [List.length_append, List.length_singleton]
      omega

theorem made_calls (calls : List (DeviceCall π)) (s : State π) :
    ∃ packets, Made s (calls.foldl State.call s) packets := by
  induction calls generalizing s with
  | nil => exact ⟨[], .refl s⟩
  | cons c calls ih =>
    obtain ⟨p, hp⟩ := made_call s c
    obtain ⟨q, hq⟩ := ih (s.call c)
    exact ⟨p ++ q, hp.trans hq⟩

theorem Made.onTheWay {packets : List π} (h : Made s t packets) :
    t.onTheWay = s.onTheWay ++ packets := by
  obtain ⟨hp, hw, _, hs, _⟩ := h.same
  simp only [State.onTheWay, State.taken, State.inHand, hp, hw, hs, h.txQueue, List.append_assoc]

theorem step_poll {calls : List (DeviceCall π)} (h : (machine π).step s (.poll calls) = some t) :
    ∃ u packets, Made s u packets ∧ t = { u with
      device := { u.device with txQueue := [] }
      pollers := u.pollers ++ [.sending u.device.txQueue] } := by
  obtain ⟨packets, hmade⟩ := made_calls calls s
  exact ⟨_, packets, hmade, (Option.some.inj h).symm⟩

theorem poll_onTheWay (u : State π) : State.onTheWay { u with
    device := { u.device with txQueue := [] }
    pollers := u.pollers ++ [.sending u.device.txQueue] } = u.onTheWay := by
  simp [State.onTheWay, State.taken, State.inHand, Poller.packets, List.append_assoc]

theorem inHand_eq {p : Poller π} (hi : s.pollers[i]? = some p) :
    s.inHand.Perm (p.packets ++ (s.pollers.eraseIdx i).flatMap Poller.packets) := by
  simpa [State.inHand] using ((perm_cons_eraseIdx hi).symm.flatMap_right Poller.packets)

theorem inHand_set {p q : Poller π} (hi : s.pollers[i]? = some p) :
    ((s.pollers.set i q).flatMap Poller.packets).Perm
      (q.packets ++ (s.pollers.eraseIdx i).flatMap Poller.packets) := by
  simpa using (perm_cons_set (y := q) hi).flatMap_right Poller.packets

inductive Next (s t : State π) (i : ℕ) : Prop
  | returned (hi : s.pollers[i]? = some (.sending []))
      (ht : t = { s with pollers := s.pollers.eraseIdx i })
  | closed (packets : List π) (hi : s.pollers[i]? = some (.sending packets))
      (hc : s.wgTxClosed = true)
      (ht : t = { s with
        pollers := s.pollers.eraseIdx i
        lost := s.lost ++ packets
        txDropped := s.txDropped + 1 })
  | sent (packet : π) (packets : List π) (hi : s.pollers[i]? = some (.sending (packet :: packets)))
      (hroom : s.wgTx.length < channelCapacity)
      (ht : t = { s with
        pollers := s.pollers.set i (.sending packets)
        wgTx := s.wgTx ++ [packet] })
  | full (packets : List π) (hi : s.pollers[i]? = some (.sending packets))
      (hfull : channelCapacity ≤ s.wgTx.length)
      (ht : t = { s with
        pollers := s.pollers.set i (.givingBack packets)
        backpressure := s.backpressure + 1 })
  | gaveBack (unsent : List π) (hi : s.pollers[i]? = some (.givingBack unsent))
      (ht : t = { s with
        device := { s.device with txQueue := unsent ++ s.device.txQueue }
        pollers := s.pollers.eraseIdx i })

theorem step_next (h : (machine π).step s (.next i) = some t) : Next s t i := by
  change (match s.pollers[i]? with
    | some (.sending packets) => some (s.trySend i packets)
    | some (.givingBack unsent) =>
      some { s with device := s.device.prependTx unsent, pollers := s.pollers.eraseIdx i }
    | none => none) = some t at h
  cases hi : s.pollers[i]? with
  | none => simp [hi] at h
  | some p =>
    cases p with
    | givingBack unsent =>
      simp only [hi, Option.some.injEq] at h
      refine .gaveBack unsent hi (h.symm.trans ?_)
      rw [VirtualDevice.prependTx_eq]
    | sending packets =>
      simp only [hi, Option.some.injEq] at h
      cases packets with
      | nil => exact .returned hi h.symm
      | cons packet packets =>
        unfold State.trySend at h
        dsimp only at h
        split at h
        · exact .closed _ hi ‹_› h.symm
        · split at h
          · exact .sent packet packets hi ‹_› h.symm
          · exact .full _ hi (Nat.not_lt.mp ‹_›) h.symm

theorem step_sendLoop {ok : Bool} (h : (machine π).step s (.sendLoop ok) = some t) :
    ∃ packet wgTx, s.wgTx = packet :: wgTx ∧
      t = { s with wgTx := wgTx, sends := s.sends ++ [(packet, ok)] } := by
  obtain ⟨device, pollers, wgTx⟩ := s
  cases wgTx with
  | nil => cases h
  | cons packet wgTx => exact ⟨packet, wgTx, rfl, (Option.some.inj h).symm⟩

theorem onTheWay_sendLoop {packet : π} {wgTx : List π} {ok : Bool} (hw : s.wgTx = packet :: wgTx) :
    State.onTheWay { s with wgTx := wgTx, sends := s.sends ++ [(packet, ok)] } = s.onTheWay := by
  simp [State.onTheWay, State.taken, State.inHand, hw]

theorem step_rxLoop (h : (machine π).step s .rxLoop = some t) :
    ∃ packet incoming, s.incoming = packet :: incoming ∧
      t = State.pushRxPacket { s with incoming := incoming } packet := by
  obtain ⟨device, pollers, wgTx, wgTxClosed, incoming⟩ := s
  cases incoming with
  | nil => cases h
  | cons packet incoming => exact ⟨packet, incoming, rfl, (Option.some.inj h).symm⟩

theorem pushRxPacket_room (packet : π) (h : s.device.rxQueue.length < maxDeviceQueuePackets) :
    s.pushRxPacket packet =
      { s with device := { s.device with rxQueue := s.device.rxQueue ++ [packet] } } := by
  rw [State.pushRxPacket, VirtualDevice.pushRx, if_neg (Nat.not_le.mpr h)]
  rfl

theorem pushRxPacket_full (packet : π) (h : ¬ s.device.rxQueue.length < maxDeviceQueuePackets) :
    s.pushRxPacket packet = { s with rxDropped := s.rxDropped ++ [packet] } := by
  rw [State.pushRxPacket, VirtualDevice.pushRx, if_pos (Nat.not_lt.mp h)]
  rfl

theorem pushRxPacket_tx (s : State π) (packet : π) :
    (s.pushRxPacket packet).onTheWay = s.onTheWay ∧
      (s.pushRxPacket packet).produced = s.produced ∧
      (s.pushRxPacket packet).lost = s.lost ∧
      (s.pushRxPacket packet).wgTxClosed = s.wgTxClosed ∧
      (s.pushRxPacket packet).wgTx = s.wgTx ∧
      (s.pushRxPacket packet).pollers = s.pollers ∧
      (s.pushRxPacket packet).device.txQueue = s.device.txQueue := by
  by_cases h : s.device.rxQueue.length < maxDeviceQueuePackets
  · rw [pushRxPacket_room packet h]
    exact ⟨rfl, rfl, rfl, rfl, rfl, rfl, rfl⟩
  · rw [pushRxPacket_full packet h]
    exact ⟨rfl, rfl, rfl, rfl, rfl, rfl, rfl⟩

/-! ### Each packet once -/

/-- Every packet smoltcp made is on its way or taken exactly once, or was lost to a closed
channel. -/
structure Conserved (s : State π) : Prop where
  produced : s.produced.Perm (s.onTheWay ++ s.lost)
  lost : s.wgTxClosed = false → s.lost = []
  wgTx : s.wgTx.length ≤ channelCapacity

theorem Conserved.made {packets : List π} (hs : Conserved s) (h : Made s t packets) :
    Conserved t := by
  obtain ⟨_, hw, hc, _, hl⟩ := h.same
  refine ⟨?_, by rw [hc, hl]; exact hs.lost, by rw [hw]; exact hs.wgTx⟩
  rw [h.produced, h.onTheWay, hl]
  refine (hs.produced.append_right packets).trans ?_
  simpa [List.append_assoc] using List.perm_append_comm.append_left s.onTheWay

theorem Conserved.next (hs : Conserved s) (h : Next s t i) : Conserved t := by
  classical
  have hcount := fun x => hs.produced.count_eq x
  simp only [State.onTheWay, State.taken, List.count_append] at hcount
  cases h with
  | returned hi ht =>
    obtain rfl := ht
    refine ⟨List.perm_iff_count.mpr fun x => ?_, hs.lost, hs.wgTx⟩
    have hx := hcount x
    have hhand := (inHand_eq hi).count_eq x
    simp only [State.onTheWay, State.taken, State.inHand, Poller.packets, List.count_append,
      List.count_nil] at *
    omega
  | closed packets hi hc ht =>
    obtain rfl := ht
    refine ⟨List.perm_iff_count.mpr fun x => ?_, fun ho => ?_, hs.wgTx⟩
    · have hx := hcount x
      have hhand := (inHand_eq hi).count_eq x
      simp only [State.onTheWay, State.taken, State.inHand, Poller.packets, List.count_append] at *
      omega
    · rw [hc] at ho
      cases ho
  | sent packet packets hi hroom ht =>
    obtain rfl := ht
    refine ⟨List.perm_iff_count.mpr fun x => ?_, hs.lost, ?_⟩
    · have hx := hcount x
      have hhand := (inHand_eq hi).count_eq x
      have hset := (inHand_set (q := .sending packets) hi).count_eq x
      simp only [State.onTheWay, State.taken, State.inHand, Poller.packets, List.count_append,
        List.count_cons, List.count_nil] at *
      omega
    · rw [List.length_append]
      exact hroom
  | full packets hi hfull ht =>
    obtain rfl := ht
    refine ⟨List.perm_iff_count.mpr fun x => ?_, hs.lost, hs.wgTx⟩
    have hx := hcount x
    have hhand := (inHand_eq hi).count_eq x
    have hset := (inHand_set (q := .givingBack packets) hi).count_eq x
    simp only [State.onTheWay, State.taken, State.inHand, Poller.packets, List.count_append] at *
    omega
  | gaveBack unsent hi ht =>
    obtain rfl := ht
    refine ⟨List.perm_iff_count.mpr fun x => ?_, hs.lost, hs.wgTx⟩
    have hx := hcount x
    have hhand := (inHand_eq hi).count_eq x
    simp only [State.onTheWay, State.taken, State.inHand, Poller.packets, List.count_append] at *
    omega

theorem Conserved.step (hs : Conserved s) (h : (machine π).step s a = some t) : Conserved t := by
  cases a with
  | poll calls =>
    obtain ⟨u, packets, hmade, rfl⟩ := step_poll h
    have hu := hs.made hmade
    exact ⟨by rw [poll_onTheWay]; exact hu.produced, hu.lost, hu.wgTx⟩
  | pollInterface calls =>
    obtain ⟨packets, hmade⟩ := made_calls calls s
    obtain rfl := Option.some.inj h
    exact hs.made hmade
  | next i => exact hs.next (step_next h)
  | sendLoop ok =>
    obtain ⟨packet, wgTx, hw, rfl⟩ := step_sendLoop h
    have hlen := hs.wgTx
    rw [hw, List.length_cons] at hlen
    refine ⟨?_, hs.lost, Nat.le_of_succ_le hlen⟩
    rw [onTheWay_sendLoop hw]
    exact hs.produced
  | closeOutgoing =>
    obtain rfl := Option.some.inj h
    exact ⟨hs.produced, fun ho => Bool.noConfusion ho, hs.wgTx⟩
  | receiveLoop packet =>
    obtain ⟨_, rfl⟩ := of_guarded h
    exact ⟨hs.produced, hs.lost, hs.wgTx⟩
  | rxLoop =>
    obtain ⟨packet, incoming, _, rfl⟩ := step_rxLoop h
    obtain ⟨hway, hp, hl, hc, hw, _⟩ := pushRxPacket_tx { s with incoming := incoming } packet
    refine ⟨?_, ?_, ?_⟩
    · rw [hway, hp, hl]
      exact hs.produced
    · rw [hc, hl]
      exact hs.lost
    · rw [hw]
      exact hs.wgTx

theorem Conserved.init : Conserved (State.init : State π) :=
  ⟨.nil, fun _ => rfl, Nat.zero_le _⟩

def Poller.rank : Poller π → ℕ
  | sending packets => 2 * packets.length + 1
  | givingBack unsent => 5 * unsent.length + 1

def State.rank (s : State π) : ℕ :=
  s.wgTx.length + (s.pollers.map Poller.rank).sum + 4 * s.device.txQueue.length

structure Draining (s t : State π) : Prop where
  produced : t.produced = s.produced
  wgTxClosed : t.wgTxClosed = s.wgTxClosed
  sends : ∃ packets : List π, t.sends = s.sends ++ packets.map (·, true)

theorem Draining.refl (s : State π) : Draining s s := ⟨rfl, rfl, [], by simp⟩

theorem Draining.trans (h : Draining s t) (k : Draining t u) : Draining s u := by
  obtain ⟨p, hp⟩ := h.sends
  obtain ⟨q, hq⟩ := k.sends
  refine ⟨k.produced.trans h.produced, k.wgTxClosed.trans h.wgTxClosed, p ++ q, ?_⟩
  rw [hq, hp, List.map_append, List.append_assoc]

def Alone (x : Taken (State π) (Action π)) : Prop :=
  ∀ calls, x.action = .poll calls → x.before.pollers = []

/-- The packets on their way are the ones made, in the order they were made. -/
structure InOrder (s : State π) : Prop where
  produced : s.wgTxClosed = false → s.produced = s.onTheWay
  pollers : s.pollers.length ≤ 1

theorem InOrder.made {packets : List π} (hs : InOrder s) (h : Made s t packets) : InOrder t := by
  obtain ⟨hp, _, hc, _, _⟩ := h.same
  refine ⟨fun ho => ?_, by rw [hp]; exact hs.pollers⟩
  rw [h.produced, h.onTheWay, hs.produced (hc ▸ ho)]

theorem pollers_eq {p : Poller π} (hl : s.pollers.length ≤ 1) (hi : s.pollers[i]? = some p) :
    i = 0 ∧ s.pollers = [p] := by
  obtain ⟨hlt, rfl⟩ := List.getElem?_eq_some_iff.mp hi
  have hone : s.pollers.length = 1 := by omega
  obtain ⟨x, hx⟩ := List.length_eq_one_iff.mp hone
  have hzero : i = 0 := by omega
  subst hzero
  simp [hx]

theorem InOrder.next (hs : InOrder s) (h : Next s t i) : InOrder t := by
  have hprod := hs.produced
  cases h with
  | returned hi ht =>
    obtain ⟨rfl, hp⟩ := pollers_eq hs.pollers hi
    obtain rfl := ht
    refine ⟨fun ho => ?_, by simp [hp]⟩
    simpa [State.onTheWay, State.taken, State.inHand, Poller.packets, hp] using hprod ho
  | closed packets hi hc ht =>
    obtain ⟨rfl, hp⟩ := pollers_eq hs.pollers hi
    obtain rfl := ht
    refine ⟨fun ho => ?_, by simp [hp]⟩
    rw [hc] at ho
    cases ho
  | sent packet packets hi hroom ht =>
    obtain ⟨rfl, hp⟩ := pollers_eq hs.pollers hi
    obtain rfl := ht
    refine ⟨fun ho => ?_, by simp [hp]⟩
    simpa [State.onTheWay, State.taken, State.inHand, Poller.packets, hp] using hprod ho
  | full packets hi hfull ht =>
    obtain ⟨rfl, hp⟩ := pollers_eq hs.pollers hi
    obtain rfl := ht
    refine ⟨fun ho => ?_, by simp [hp]⟩
    simpa [State.onTheWay, State.taken, State.inHand, Poller.packets, hp] using hprod ho
  | gaveBack unsent hi ht =>
    obtain ⟨rfl, hp⟩ := pollers_eq hs.pollers hi
    obtain rfl := ht
    refine ⟨fun ho => ?_, by simp [hp]⟩
    simpa [State.onTheWay, State.taken, State.inHand, Poller.packets, hp] using hprod ho

theorem InOrder.step (hs : InOrder s) (halone : Alone ⟨s, a, t⟩)
    (h : (machine π).step s a = some t) : InOrder t := by
  cases a with
  | poll calls =>
    obtain ⟨u, packets, hmade, rfl⟩ := step_poll h
    have hu := hs.made hmade
    have hnone : u.pollers = [] := hmade.same.1.trans (halone calls rfl)
    exact ⟨fun ho => (hu.produced ho).trans (poll_onTheWay u).symm, by simp [hnone]⟩
  | pollInterface calls =>
    obtain ⟨packets, hmade⟩ := made_calls calls s
    obtain rfl := Option.some.inj h
    exact hs.made hmade
  | next i => exact hs.next (step_next h)
  | sendLoop ok =>
    obtain ⟨packet, wgTx, hw, rfl⟩ := step_sendLoop h
    refine ⟨fun ho => ?_, hs.pollers⟩
    rw [onTheWay_sendLoop hw]
    exact hs.produced ho
  | closeOutgoing =>
    obtain rfl := Option.some.inj h
    exact ⟨fun ho => Bool.noConfusion ho, hs.pollers⟩
  | receiveLoop packet =>
    obtain ⟨_, rfl⟩ := of_guarded h
    exact ⟨hs.produced, hs.pollers⟩
  | rxLoop =>
    obtain ⟨packet, incoming, _, rfl⟩ := step_rxLoop h
    obtain ⟨hway, hp, _, hc, _, hpollers, _⟩ :=
      pushRxPacket_tx { s with incoming := incoming } packet
    refine ⟨fun ho => ?_, by rw [hpollers]; exact hs.pollers⟩
    rw [hway, hp]
    exact hs.produced (hc ▸ ho)

theorem InOrder.init : InOrder (State.init : State π) := ⟨fun _ => rfl, Nat.zero_le 1⟩

def overlapping (x : Taken (State π) (Action π)) : Bool :=
  match x.action with
  | .poll _ | .pollInterface _ => !x.before.inHand.isEmpty
  | _ => false

def State.unsent (s : State π) : ℕ := s.inHand.length + s.device.txQueue.length

theorem Made.unsent_le {packets : List π} (h : Made s t packets) :
    t.unsent ≤ s.unsent + maxDeviceQueuePackets ∧
      (s.inHand = [] → t.unsent ≤ max s.unsent maxDeviceQueuePackets) := by
  have hhand : t.inHand = s.inHand := by rw [State.inHand, h.same.1, State.inHand]
  have hlen := h.length
  rw [State.unsent, State.unsent, hhand]
  constructor
  · omega
  · intro hnone
    rw [hnone]
    simpa using hlen

theorem poll_unsent (u : State π) : State.unsent { u with
    device := { u.device with txQueue := [] }
    pollers := u.pollers ++ [.sending u.device.txQueue] } = u.unsent := by
  simp [State.unsent, State.inHand, Poller.packets]

theorem next_unsent (h : Next s t i) : t.unsent ≤ s.unsent := by
  cases h with
  | returned hi ht | closed _ hi _ ht | gaveBack _ hi ht =>
    obtain rfl := ht
    have hhand := (inHand_eq hi).length_eq
    simp only [State.unsent, State.inHand, Poller.packets, List.length_append, List.length_nil]
      at hhand ⊢
    omega
  | sent packet packets hi _ ht =>
    obtain rfl := ht
    have hhand := (inHand_eq hi).length_eq
    have hset := (inHand_set (q := .sending packets) hi).length_eq
    simp only [State.unsent, State.inHand, Poller.packets, List.length_append, List.length_cons]
      at hhand hset ⊢
    omega
  | full packets hi _ ht =>
    obtain rfl := ht
    have hhand := (inHand_eq hi).length_eq
    have hset := (inHand_set (q := .givingBack packets) hi).length_eq
    simp only [State.unsent, State.inHand, Poller.packets, List.length_append] at hhand hset ⊢
    omega

theorem made_unsent {packets : List π} {n : ℕ} (hs : s.unsent ≤ maxDeviceQueuePackets * (1 + n))
    (h : Made s t packets) :
    t.unsent ≤ maxDeviceQueuePackets * (1 + (n + (!s.inHand.isEmpty).toNat)) := by
  obtain ⟨hany, hnone⟩ := h.unsent_le
  cases hp : s.inHand with
  | nil =>
    have hle := hnone hp
    simp only [List.isEmpty_nil, Bool.not_true, Bool.toNat_false, Nat.add_zero]
    refine hle.trans (max_le hs ?_)
    exact Nat.le_mul_of_pos_right _ (by omega)
  | cons packet packets =>
    simp only [List.isEmpty_cons, Bool.not_false, Bool.toNat_true]
    rw [← Nat.add_assoc, Nat.mul_add, Nat.mul_one]
    omega

theorem step_unsent {n : ℕ} (hs : s.unsent ≤ maxDeviceQueuePackets * (1 + n))
    (h : (machine π).step s a = some t) :
    t.unsent ≤ maxDeviceQueuePackets * (1 + (n + (overlapping ⟨s, a, t⟩).toNat)) := by
  cases a with
  | poll calls =>
    obtain ⟨u, packets, hmade, rfl⟩ := step_poll h
    rw [poll_unsent]
    exact made_unsent hs hmade
  | pollInterface calls =>
    obtain ⟨packets, hmade⟩ := made_calls calls s
    obtain rfl := Option.some.inj h
    exact made_unsent hs hmade
  | next i => exact (next_unsent (step_next h)).trans hs
  | sendLoop ok =>
    obtain ⟨packet, wgTx, _, rfl⟩ := step_sendLoop h
    exact hs
  | closeOutgoing =>
    obtain rfl := Option.some.inj h
    exact hs
  | receiveLoop packet =>
    obtain ⟨_, rfl⟩ := of_guarded h
    exact hs
  | rxLoop =>
    obtain ⟨packet, incoming, _, rfl⟩ := step_rxLoop h
    obtain ⟨_, _, _, _, _, hpollers, htx⟩ := pushRxPacket_tx { s with incoming := incoming } packet
    rw [State.unsent, State.inHand, hpollers, htx]
    exact hs

theorem exec_unsent {l : List (Taken (State π) (Action π))} (h : (machine π).Exec .init l s) :
    s.unsent ≤ maxDeviceQueuePackets * (1 + l.countP overlapping) := by
  induction h with
  | nil => exact Nat.zero_le _
  | @snoc l t u a _ ha ih =>
    have hstep := step_unsent ih ha
    rw [List.countP_append, List.countP_singleton]
    cases hov : overlapping ⟨t, a, u⟩ <;> simpa [hov] using hstep

theorem transmit_fills (packet : π) (n : ℕ) (s : State π)
    (h : s.device.txQueue.length + n ≤ maxDeviceQueuePackets) :
    ((List.replicate n (.transmit packet)).foldl State.call s).device.txQueue.length =
        s.device.txQueue.length + n ∧
      ((List.replicate n (.transmit packet)).foldl State.call s).pollers = s.pollers := by
  induction n generalizing s with
  | zero => exact ⟨rfl, rfl⟩
  | succ n ih =>
    have hroom : ¬ maxDeviceQueuePackets ≤ s.device.txQueue.length := by omega
    have hlen : (s.call (.transmit packet)).device.txQueue.length =
        s.device.txQueue.length + 1 := by
      simp [State.call, if_neg hroom]
    have hpollers : (s.call (.transmit packet)).pollers = s.pollers := by
      simp [State.call, if_neg hroom]
    obtain ⟨hq, hp⟩ := ih (s.call (.transmit packet)) (by omega)
    rw [List.replicate_succ, List.foldl_cons, hq, hp]
    exact ⟨by omega, hpollers⟩

theorem exists_poll_full (packet : π) {n : ℕ} (hn : n ≤ maxDeviceQueuePackets)
    (h : s.device.txQueue = []) :
    ∃ calls t, (machine π).step s (.poll calls) = some t ∧ t.device.txQueue = [] ∧
      t.inHand.length = s.inHand.length + n := by
  obtain ⟨hlen, hpollers⟩ := transmit_fills packet n s (by simpa [h] using hn)
  refine ⟨.replicate n (.transmit packet), _, rfl, rfl, ?_⟩
  simp only [State.inHand, hpollers, List.flatMap_append, List.length_append,
    List.flatMap_singleton, Poller.packets, hlen, h, List.length_nil, Nat.zero_add]

theorem exists_unsent (packet : π) (k : ℕ) :
    ∃ l s, (machine π).Exec .init l s ∧ l.countP overlapping = k ∧ s.device.txQueue = [] ∧
      s.inHand.length = maxDeviceQueuePackets * (1 + k) := by
  induction k with
  | zero =>
    obtain ⟨calls, t, ha, htx, hhand⟩ := exists_poll_full (s := State.init) packet le_rfl rfl
    exact ⟨_, t, .snoc .nil ha, rfl, htx, hhand⟩
  | succ k ih =>
    obtain ⟨l, s, hl, hcount, htx, hlen⟩ := ih
    obtain ⟨calls, t, ha, htx', hhand⟩ := exists_poll_full packet le_rfl htx
    have hne : s.inHand ≠ [] := by
      rintro hnil
      rw [hnil, maxDeviceQueuePackets] at hlen
      simp at hlen
    have hov : overlapping ⟨s, .poll calls, t⟩ = true := by simp [overlapping, hne]
    refine ⟨_, t, .snoc hl ha, ?_, htx', ?_⟩
    · rw [List.countP_append, hcount, List.countP_singleton, if_pos hov]
    · rw [hhand, hlen, Nat.add_comm 1, Nat.add_comm 1, ← Nat.mul_succ]

/-- Before the channel wait at most `MAX_DEVICE_QUEUE_PACKETS` packets, and as many again for
each time smoltcp was polled while another thread had packets in hand. With every number of
such polls that many can wait. -/
theorem unsent_bounded :
    (∀ l s, (machine π).Exec .init l s →
      s.unsent ≤ maxDeviceQueuePackets * (1 + l.countP overlapping)) ∧
    ∀ (_ : π) (k : ℕ), ∃ l s, (machine π).Exec .init l s ∧ l.countP overlapping = k ∧
      s.unsent = maxDeviceQueuePackets * (1 + k) := by
  refine ⟨fun l s h => exec_unsent h, fun packet k => ?_⟩
  obtain ⟨l, s, hl, hcount, htx, hhand⟩ := exists_unsent packet k
  exact ⟨l, s, hl, hcount, by rw [State.unsent, htx, hhand]; rfl⟩

theorem unsent_bounded_sending :
    ∃ s : State ℕ, s.inHand = [2] ∧ s.unsent ≤ maxDeviceQueuePackets * (1 + 0) := by
  have hrun : (machine ℕ).Exec .init [⟨_, .poll [.transmit 1, .transmit 2], _⟩, ⟨_, .next 0, _⟩]
      _ :=
    .cons rfl (.cons rfl .nil)
  exact ⟨_, rfl, unsent_bounded.1 _ _ hrun⟩

/-! ### The receive side -/

structure Received (s : State π) : Prop where
  order : (s.consumed ++ s.device.rxQueue ++ s.incoming).Sublist s.decrypted
  all : s.decrypted.Perm (s.consumed ++ s.device.rxQueue ++ s.incoming ++ s.rxDropped)
  rxQueue : s.device.rxQueue.length ≤ maxDeviceQueuePackets
  incoming : s.incoming.length ≤ channelCapacity

theorem call_rx (s : State π) (c : DeviceCall π) :
    (s.call c).consumed ++ (s.call c).device.rxQueue = s.consumed ++ s.device.rxQueue ∧
      (s.call c).device.rxQueue.length ≤ s.device.rxQueue.length ∧
      (s.call c).incoming = s.incoming ∧ (s.call c).rxDropped = s.rxDropped ∧
      (s.call c).decrypted = s.decrypted := by
  by_cases hfull : maxDeviceQueuePackets ≤ s.device.txQueue.length
  · rw [call_full c hfull]
    exact ⟨rfl, le_rfl, rfl, rfl, rfl⟩
  · cases c with
    | transmit packet => simp [State.call, if_neg hfull]
    | receive reply =>
      simp only [State.call, if_neg hfull]
      cases hrx : s.device.rxQueue with
      | nil => simp [hrx]
      | cons packet rxQueue => simp

theorem calls_rx (calls : List (DeviceCall π)) (hs : Received s) :
    Received (calls.foldl State.call s) ∧ (calls.foldl State.call s).rxDropped = s.rxDropped := by
  induction calls generalizing s with
  | nil => exact ⟨hs, rfl⟩
  | cons c calls ih =>
    obtain ⟨heq, hlen, hin, hdrop, hdec⟩ := call_rx s c
    have hc : Received (s.call c) := by
      refine ⟨?_, ?_, hlen.trans hs.rxQueue, hin ▸ hs.incoming⟩
      · rw [heq, hin, hdec]
        exact hs.order
      · rw [heq, hin, hdec, hdrop]
        exact hs.all
    obtain ⟨hr, hd⟩ := ih hc
    exact ⟨hr, hd.trans hdrop⟩

theorem next_rx (h : Next s t i) : t.consumed = s.consumed ∧
    t.device.rxQueue = s.device.rxQueue ∧ t.incoming = s.incoming ∧
      t.rxDropped = s.rxDropped ∧ t.decrypted = s.decrypted := by
  cases h <;> (subst_vars; exact ⟨rfl, rfl, rfl, rfl, rfl⟩)

theorem Received.step (hs : Received s) (h : (machine π).step s a = some t) : Received t ∧
    (t.rxDropped ≠ s.rxDropped → s.device.rxQueue.length = maxDeviceQueuePackets) := by
  classical
  cases a with
  | poll calls =>
    obtain ⟨hr, hd⟩ := calls_rx calls hs
    obtain rfl := Option.some.inj h
    exact ⟨⟨hr.order, hr.all, hr.rxQueue, hr.incoming⟩, fun hne => absurd hd hne⟩
  | pollInterface calls =>
    obtain ⟨hr, hd⟩ := calls_rx calls hs
    obtain rfl := Option.some.inj h
    exact ⟨hr, fun hne => absurd hd hne⟩
  | next i =>
    obtain ⟨hc, hq, hin, hd, hdec⟩ := next_rx (step_next h)
    refine ⟨⟨?_, ?_, hq ▸ hs.rxQueue, hin ▸ hs.incoming⟩, fun hne => absurd hd hne⟩
    · rw [hc, hq, hin, hdec]
      exact hs.order
    · rw [hc, hq, hin, hdec, hd]
      exact hs.all
  | sendLoop ok =>
    obtain ⟨packet, wgTx, _, rfl⟩ := step_sendLoop h
    exact ⟨⟨hs.order, hs.all, hs.rxQueue, hs.incoming⟩, fun hne => absurd rfl hne⟩
  | closeOutgoing =>
    obtain rfl := Option.some.inj h
    exact ⟨⟨hs.order, hs.all, hs.rxQueue, hs.incoming⟩, fun hne => absurd rfl hne⟩
  | receiveLoop packet =>
    obtain ⟨hroom, rfl⟩ := of_guarded h
    refine ⟨⟨?_, ?_, hs.rxQueue, ?_⟩, fun hne => absurd rfl hne⟩
    · simpa [List.append_assoc] using hs.order.append_right [packet]
    · refine List.perm_iff_count.mpr fun x => ?_
      have hx := hs.all.count_eq x
      simp only [List.count_append] at hx ⊢
      omega
    · rw [List.length_append]
      exact hroom
  | rxLoop =>
    obtain ⟨packet, incoming, hin, rfl⟩ := step_rxLoop h
    have horder := hs.order
    have hall := hs.all
    have hlen := hs.incoming
    rw [hin] at horder hall hlen
    by_cases hroom : s.device.rxQueue.length < maxDeviceQueuePackets
    · rw [pushRxPacket_room (s := { s with incoming := incoming }) packet hroom]
      refine ⟨⟨?_, ?_, ?_, Nat.le_of_succ_le hlen⟩, fun hne => absurd rfl hne⟩
      · simpa [List.append_assoc] using horder
      · simpa [List.append_assoc] using hall
      · rw [List.length_append]
        exact hroom
    · rw [pushRxPacket_full (s := { s with incoming := incoming }) packet hroom]
      refine ⟨⟨?_, ?_, hs.rxQueue, Nat.le_of_succ_le hlen⟩, fun _ =>
        le_antisymm hs.rxQueue (Nat.not_lt.mp hroom)⟩
      · exact ((List.sublist_cons_self packet incoming).append_left _).trans horder
      · refine List.perm_iff_count.mpr fun x => ?_
        have hx := hall.count_eq x
        simp only [List.count_append, List.count_cons, List.count_nil] at hx ⊢
        omega

/-- The receive queue and its channel are bounded and in order, and a packet is dropped at a
full receive queue only. -/
theorem received_in_order (h : (machine π).Reachable .init s) : Received s ∧
    ∀ a t, (machine π).step s a = some t → t.rxDropped ≠ s.rxDropped →
      s.device.rxQueue.length = maxDeviceQueuePackets := by
  have hs : Received s := h.invariant ⟨.slnil, .nil, Nat.zero_le _, Nat.zero_le _⟩
    fun _ _ _ hr ha => (hr.step ha).1
  exact ⟨hs, fun a t ha => (hs.step ha).2⟩

theorem received_in_order_queued :
    ∃ s : State ℕ, s.device.rxQueue = [1] ∧ Received s ∧
      ∀ a t, (machine ℕ).step s a = some t → t.rxDropped ≠ s.rxDropped →
        s.device.rxQueue.length = maxDeviceQueuePackets :=
  ⟨_, rfl, received_in_order
    (Machine.reachable_of_run [.receiveLoop 1, .receiveLoop 2, .rxLoop] rfl)⟩

end WarpRust.Netstack.Packets
