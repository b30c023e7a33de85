import Mathlib.Algebra.Order.BigOperators.Group.List
import WarpRust.Config.Admission
import WarpRust.Library.Lists
import WarpRust.Proxy.UdpRelay

/-!
# Buffers at full load

What each use of a connection slot allocates, against the capacity of the start-up check.
The capacity counts every slot as a TCP relay and adds the extra dial attempts; a UDP
association has buffers of its own, whose sizes no configuration field sets.
-/

namespace WarpRust.Proxy
open Config Library

/-- The buffers of one association: `buf` of the receiving side, `buf_v4`, `buf_v6` when the
tunnel has IPv6, and the queue, as the lengths of its datagrams. -/
structure UdpBuffers where
  hasIpv6 : Bool
  queue : List ℕ
  depth : queue.length ≤ UdpRelay.c2tQueueDepth
  size : ∀ n ∈ queue, n ≤ UdpRelay.c2tMaxDatagram

def UdpBuffers.bytes (u : UdpBuffers) : ℕ :=
  UdpRelay.recvBufferBytes + UdpRelay.recvBufferBytes +
    (if u.hasIpv6 then UdpRelay.recvBufferBytes else 0) + u.queue.sum

inductive SlotUse where
  | handshaking
  | dialing (attempts : ℕ)
  | relaying
  | udpAssociation (u : UdpBuffers)

namespace SlotUse

def bytes (w : WarpConfig) (l : LimitsConfig) : SlotUse → ℕ
  | handshaking => 0
  | dialing attempts => attempts * (2 * w.tcpBufferSize)
  | relaying => 2 * w.tcpBufferSize + 2 * l.relayBufferSize
  | udpAssociation u => u.bytes

def isDialing : SlotUse → Bool
  | dialing _ => true
  | _ => false

end SlotUse

structure Load (l : LimitsConfig) where
  slots : List SlotUse
  connections : slots.length ≤ l.maxConcurrentConnections
  pending : slots.countP SlotUse.isDialing ≤ l.maxPendingDials
  parallel : ∀ n, .dialing n ∈ slots → n ≤ l.maxParallelDials

def Load.bytes {l : LimitsConfig} (load : Load l) (w : WarpConfig) : ℕ :=
  (load.slots.map (SlotUse.bytes w l)).sum

/-- Three receive buffers and a full queue. -/
def udpSlotBytes : ℕ := 724989

theorem UdpBuffers.bytes_le (u : UdpBuffers) : u.bytes ≤ udpSlotBytes := by
  have hqueue : u.queue.sum ≤ 64 * (8 * 1024 + 64) := by
    calc u.queue.sum ≤ u.queue.length * (8 * 1024 + 64) := List.sum_le_card_nsmul _ _ u.size
      _ ≤ 64 * (8 * 1024 + 64) := Nat.mul_le_mul_right _ u.depth
  unfold UdpBuffers.bytes UdpRelay.recvBufferBytes udpSlotBytes
  split <;> omega

def UdpBuffers.full : UdpBuffers where
  hasIpv6 := true
  queue := List.replicate 64 (8 * 1024 + 64)
  depth := by decide
  size := by
    intro n hn
    exact (List.eq_of_mem_replicate hn).le

theorem UdpBuffers.bytes_full : UdpBuffers.full.bytes = udpSlotBytes := by
  rw [UdpBuffers.bytes, UdpBuffers.full, List.sum_replicate]
  rfl

/-- A mixed load is at most one of the two pure ones: a slot is worth at most `m`, a dialing
slot at most `p`, and at most `pending` of the `conc` slots dial. -/
theorem mix_le {d n conc pending p m b : ℕ} (hd : d ≤ pending) (hn : d + n ≤ conc)
    (hslots : conc * m ≤ b) (hdials : pending * p + (conc - pending) * m ≤ b) :
    d * p + n * m ≤ b := by
  rcases le_total p m with hpm | hmp
  · calc d * p + n * m ≤ d * m + n * m := Nat.add_le_add_right (Nat.mul_le_mul_left d hpm) _
      _ = (d + n) * m := (Nat.add_mul d n m).symm
      _ ≤ conc * m := Nat.mul_le_mul_right m hn
      _ ≤ b := hslots
  · obtain ⟨k, rfl⟩ := Nat.exists_eq_add_of_le hd
    have hrest : n ≤ k + (conc - (d + k)) := by omega
    calc d * p + n * m ≤ d * p + (k + (conc - (d + k))) * m :=
          Nat.add_le_add_left (Nat.mul_le_mul_right m hrest) _
      _ = d * p + k * m + (conc - (d + k)) * m := by ring
      _ ≤ d * p + k * p + (conc - (d + k)) * m :=
          Nat.add_le_add_right (Nat.add_le_add_left (Nat.mul_le_mul_left k hmp) _) _
      _ = (d + k) * p + (conc - (d + k)) * m := by ring
      _ ≤ b := hdials

section
variable {w : WarpConfig} {l : LimitsConfig} {slot : ℕ} {f : SlotUse → ℕ}

def Load.udp (l : LimitsConfig) (dials : ℕ) (hd : dials ≤ l.maxPendingDials)
    (hp : l.maxPendingDials ≤ l.maxConcurrentConnections) : Load l where
  slots := List.replicate dials (.dialing l.maxParallelDials) ++
    List.replicate (l.maxConcurrentConnections - dials) (.udpAssociation .full)
  connections := by
    rw [List.length_append, List.length_replicate, List.length_replicate]
    omega
  pending := by
    simpa [List.countP_append, List.countP_replicate, SlotUse.isDialing] using hd
  parallel := by
    intro n hn
    rcases List.mem_append.mp hn with hn | hn
    · cases List.eq_of_mem_replicate hn
      exact le_rfl
    · cases List.eq_of_mem_replicate hn

/-- What a slot of `slot` bytes takes beyond a relay is covered by the dial surcharge alone, or
by the relay buffers of the slots that dial. -/
structure Covered (slot : ℕ) (w : WarpConfig) (l : LimitsConfig) : Prop where
  slots : slot * l.maxConcurrentConnections ≤
    (2 * w.tcpBufferSize + 2 * l.relayBufferSize) * l.maxConcurrentConnections +
      2 * w.tcpBufferSize * (l.maxParallelDials - 1) * l.maxPendingDials
  dials : slot * (l.maxConcurrentConnections - l.maxPendingDials) +
      2 * w.tcpBufferSize * l.maxPendingDials ≤
    (2 * w.tcpBufferSize + 2 * l.relayBufferSize) * l.maxConcurrentConnections

/-- The start-up check covers the buffers of `run_relay`. -/
def UdpCovered (w : WarpConfig) (l : LimitsConfig) : Prop := Covered udpSlotBytes w l

theorem attempts_eq (hl : l.InRange) :
    l.maxPendingDials * (l.maxParallelDials * (2 * w.tcpBufferSize)) =
      2 * w.tcpBufferSize * (l.maxParallelDials - 1) * l.maxPendingDials +
        2 * w.tcpBufferSize * l.maxPendingDials := by
  obtain ⟨k, hk⟩ := Nat.exists_eq_add_of_le hl.parallel.1
  rw [hk, Nat.add_sub_cancel_left]
  ring

theorem Load.sum_le (load : Load l) (hdial : ∀ n, f (.dialing n) = n * (2 * w.tcpBufferSize))
    (hother : ∀ x, x.isDialing = false →
      f x ≤ max (2 * w.tcpBufferSize + 2 * l.relayBufferSize) slot) {b : ℕ}
    (hslots : l.maxConcurrentConnections *
      max (2 * w.tcpBufferSize + 2 * l.relayBufferSize) slot ≤ b)
    (hdials : l.maxPendingDials * (l.maxParallelDials * (2 * w.tcpBufferSize)) +
      (l.maxConcurrentConnections - l.maxPendingDials) *
        max (2 * w.tcpBufferSize + 2 * l.relayBufferSize) slot ≤ b) :
    (load.slots.map f).sum ≤ b := by
  have hcount := List.countP_le_length (p := SlotUse.isDialing) (l := load.slots)
  have hconn := load.connections
  refine (sum_map_le_countP load.slots ?_ fun x _ => hother x).trans
    (mix_le load.pending (by omega) hslots hdials)
  intro x hx hd
  cases x with
  | dialing n =>
    rw [hdial]
    exact Nat.mul_le_mul_right _ (load.parallel n hx)
  | handshaking | relaying | udpAssociation u => cases hd

theorem Load.sum_udp (hdial : ∀ n, f (.dialing n) = n * (2 * w.tcpBufferSize))
    (hfull : f (.udpAssociation .full) = slot) {dials : ℕ} (hd : dials ≤ l.maxPendingDials)
    (hp : l.maxPendingDials ≤ l.maxConcurrentConnections) :
    ((Load.udp l dials hd hp).slots.map f).sum =
      dials * (l.maxParallelDials * (2 * w.tcpBufferSize)) +
        (l.maxConcurrentConnections - dials) * slot := by
  simp [Load.udp, hdial, hfull]

theorem sum_le_iff (hl : l.InRange) (hdial : ∀ n, f (.dialing n) = n * (2 * w.tcpBufferSize))
    (hfull : f (.udpAssociation .full) = slot)
    (hother : ∀ x, x.isDialing = false →
      f x ≤ max (2 * w.tcpBufferSize + 2 * l.relayBufferSize) slot) :
    (∀ load : Load l, (load.slots.map f).sum ≤ bufferBytes w l) ↔ Covered slot w l := by
  have hp := hl.pending.2
  have hattempts := attempts_eq (w := w) hl
  constructor
  · intro hall
    have hslots := hall (.udp l 0 (Nat.zero_le _) hp)
    have hdials := hall (.udp l l.maxPendingDials le_rfl hp)
    rw [Load.sum_udp hdial hfull, bufferBytes] at hslots hdials
    rw [Nat.zero_mul, Nat.zero_add, Nat.sub_zero] at hslots
    refine ⟨by rwa [Nat.mul_comm], ?_⟩
    rw [Nat.mul_comm slot]
    omega
  · intro hcovered
    have hslots := hcovered.slots
    have hdials := hcovered.dials
    rw [Nat.mul_comm slot] at hslots hdials
    intro load
    apply load.sum_le hdial hother
    · rw [bufferBytes]
      rcases max_choice (2 * w.tcpBufferSize + 2 * l.relayBufferSize) slot with hm | hm
      · rw [hm, Nat.mul_comm]
        exact Nat.le_add_right _ _
      · rw [hm]
        exact hslots
    · rw [bufferBytes, hattempts]
      rcases max_choice (2 * w.tcpBufferSize + 2 * l.relayBufferSize) slot with hm | hm
      · have hdialing : 2 * w.tcpBufferSize * l.maxPendingDials ≤
            l.maxPendingDials * (2 * w.tcpBufferSize + 2 * l.relayBufferSize) := by
          rw [Nat.mul_comm]
          exact Nat.mul_le_mul_left _ (Nat.le_add_right _ _)
        have hall : l.maxPendingDials * (2 * w.tcpBufferSize + 2 * l.relayBufferSize) +
            (l.maxConcurrentConnections - l.maxPendingDials) *
              (2 * w.tcpBufferSize + 2 * l.relayBufferSize) =
            (2 * w.tcpBufferSize + 2 * l.relayBufferSize) * l.maxConcurrentConnections := by
          rw [← Nat.add_mul, Nat.add_sub_cancel' hp, Nat.mul_comm]
        rw [hm]
        omega
      · rw [hm]
        omega

theorem load_le_iff (hl : l.InRange) :
    (∀ load : Load l, load.bytes w ≤ bufferBytes w l) ↔ UdpCovered w l := by
  refine sum_le_iff hl (fun _ => rfl) UdpBuffers.bytes_full ?_
  intro x hx
  cases x with
  | dialing n => cases hx
  | handshaking => exact Nat.zero_le _
  | relaying => exact le_max_left _ _
  | udpAssociation u => exact u.bytes_le.trans (le_max_right _ _)

end

/-- For an accepted configuration on a machine whose memory is known. -/
theorem memoryBudget_iff {h : HostFacts} {cfg : Config} {isContainer trustedHostNet : Bool}
    {total : ℕ} (hv : cfg.validateWith h isContainer trustedHostNet = .ok ())
    (htotal : h.totalSystemMemoryBytes = some total) :
    ((∀ load : Load cfg.limits, load.bytes cfg.warp ≤ capacity cfg.warp cfg.limits) ∧
      (capacity cfg.warp cfg.limits : ℚ) / total < 4 / 5) ↔ UdpCovered cfg.warp cfg.limits := by
  have hb := buffers_inRange hv
  have hl := limits_inRange hv
  have hfits := bufferBytes_fits hv htotal
  have hpos : 0 < total := by omega
  rw [ratio_lt_iff hb hl hpos, capacity_eq hb hl, load_le_iff hl]
  exact and_iff_left hfits

theorem memoryBudget_iff_default :
    ((∀ load : Load (Config.default (some 8589934592)).limits,
        load.bytes (Config.default (some 8589934592)).warp ≤
          capacity (Config.default (some 8589934592)).warp
            (Config.default (some 8589934592)).limits) ∧
      (capacity (Config.default (some 8589934592)).warp
        (Config.default (some 8589934592)).limits : ℚ) / (8589934592 : ℕ) < 4 / 5) ↔
    UdpCovered (Config.default (some 8589934592)).warp (Config.default (some 8589934592)).limits :=
  memoryBudget_iff ((default_validateWith_ok_iff false false false).mpr (by decide)) rfl

/-- The defaults of an 8 GiB machine with every slot an association. -/
theorem memoryBudget_exceeded : ¬ ∀ (h : HostFacts) (cfg : Config)
    (isContainer trustedHostNet : Bool) (total : ℕ),
    cfg.validateWith h isContainer trustedHostNet = .ok () → h.totalSystemMemoryBytes = some total →
    ∀ load : Load cfg.limits, load.bytes cfg.warp ≤ capacity cfg.warp cfg.limits := by
  intro hall
  have hl := default_limits_inRange (some 8589934592)
  have hv := (default_validateWith_ok_iff false false false).mpr
    (by decide : 587202560 < 8589934592)
  have hle := hall _ _ _ _ _ hv rfl (.udp _ 0 (Nat.zero_le _) hl.pending.2)
  rw [Load.bytes, Load.sum_udp (fun _ => rfl) UdpBuffers.bytes_full,
    capacity_eq (default_buffersInRange _) hl, default_bufferBytes] at hle
  have hconn : (Config.default (some 8589934592)).limits.maxConcurrentConnections = 13107 := by
    decide
  have hconn' : defaultMaxConcurrentConnections (some 8589934592) = 13107 := by decide
  rw [hconn, hconn', udpSlotBytes] at hle
  omega

/-! ### With the sockets of the netstack -/

def udpPktSlots : ℕ := 32

def udpPayloadBytes : ℕ := 1500 * udpPktSlots

def udpSocketBytes : ℕ := udpPayloadBytes + udpPayloadBytes

def UdpBuffers.held (u : UdpBuffers) : ℕ :=
  u.bytes + udpSocketBytes + if u.hasIpv6 then udpSocketBytes else 0

def SlotUse.held (w : WarpConfig) (l : LimitsConfig) : SlotUse → ℕ
  | .udpAssociation u => u.held
  | x => x.bytes w l

def Load.held {l : LimitsConfig} (load : Load l) (w : WarpConfig) : ℕ :=
  (load.slots.map (SlotUse.held w l)).sum

end WarpRust.Proxy
