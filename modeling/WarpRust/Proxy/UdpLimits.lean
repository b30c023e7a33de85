import WarpRust.Config
import WarpRust.Proxy.UdpRelay

/-!
# The two size limits of a datagram

`max_payload_for` of the netstack on the payload, and the filter of the receive loop on the
whole packet, header included. They agree for every address and for most names.
-/

namespace WarpRust.Proxy
open Library Checked

def fragmentationBufferSize : ℕ := 8192
def ipv4HeaderBytes : ℕ := 20
def ipv6HeaderBytes : ℕ := 40
def udpHeaderBytes : ℕ := 8

def maxPayloadFor (mtu : ℕ) : SocketAddr → ℕ
  | .v4 _ _ => fragmentationBufferSize - (ipv4HeaderBytes + udpHeaderBytes)
  | .v6 _ _ _ _ => mtu - (ipv6HeaderBytes + udpHeaderBytes)

namespace UdpTarget

def ResolvesTo : UdpTarget → SocketAddr → Prop
  | v4 ip port, dest => dest = .v4 ip port
  | v6 ip port flowinfo scopeId, dest => dest = .v6 ip port flowinfo scopeId
  | domain _ port, dest => dest.port = port

theorem length_encode (t : UdpTarget) : t.encode.length = 5 + t.address.length := by
  simp only [encode, u16ToBeBytes, List.length_append, List.length_cons, List.length_nil,
    length_toBe]
  omega

@[simp] theorem length_address_v4 (ip : BitVec 32) (port : BitVec 16) :
    (v4 ip port).address.length = 5 := by
  rw [address, List.length_cons, IpAddr.ipv4Octets, length_toBe]

@[simp] theorem length_address_v6 (ip : BitVec 128) (port : BitVec 16)
    (flowinfo scopeId : BitVec 32) :
    (v6 ip port flowinfo scopeId).address.length = 17 := by
  rw [address, List.length_cons, IpAddr.ipv6Octets, length_toBe]

@[simp] theorem length_address_domain (host : String) (port : BitVec 16) :
    (domain host port).address.length = 2 + host.utf8ByteSize := by
  rw [address, List.length_cons, List.length_cons, length_utf8Bytes]
  omega

/-- A name leaves room for its payload below the filter. -/
def LeavesRoom (t : UdpTarget) (payload : Bytes) : Prop :=
  ∀ host port, t = domain host port → host.utf8ByteSize + payload.length ≤ 8249

end UdpTarget

namespace UdpRelay

theorem judge_oversized_iff {s : State} {d : Datagram} :
    (s.judge d).oversized = s.oversized ↔
      (∃ a, s.clientAddr = some a ∧ a ≠ d.src) ∨ d.bytes.length ≤ c2tMaxDatagram := by
  have hkept (s : State) : (s.trySend d).oversized = s.oversized := by
    unfold State.trySend
    split_ifs <;> rfl
  by_cases hother : s.clientAddr.any (· ≠ d.src) = true
  · have hsrc : ∃ a, s.clientAddr = some a ∧ a ≠ d.src := by
      obtain ⟨a, ha, hne⟩ := (Option.any_eq_true _ _).mp hother
      exact ⟨a, ha, of_decide_eq_true hne⟩
    simp only [State.judge, if_pos hother]
    exact iff_of_true trivial (.inl hsrc)
  have hsrc : ¬ ∃ a, s.clientAddr = some a ∧ a ≠ d.src := by
    rintro ⟨a, ha, hne⟩
    exact hother ((Option.any_eq_true _ _).mpr ⟨a, ha, decide_eq_true hne⟩)
  rw [or_iff_right hsrc]
  by_cases hsize : c2tMaxDatagram < d.bytes.length
  · simp only [State.judge, if_neg hother, if_pos hsize]
    refine iff_of_false (fun heq => ?_) (not_le.mpr hsize)
    exact List.cons_ne_nil d [] (List.append_right_eq_self.mp heq)
  · simp only [State.judge, if_neg hother, if_neg hsize, hkept]
    exact iff_of_true trivial (not_lt.mp hsize)

section
variable {h : HostFacts} {cfg : Config} {isContainer trustedHostNet : Bool} {d : Datagram}
  {r : ParsedUdp} {dest : SocketAddr}

/-- Only a name can push a packet that the netstack would carry over the filter. -/
theorem fits_filter_iff (hv : Config.validateWith h cfg isContainer trustedHostNet = .ok ())
    (hparse : parseSocks5UdpHeader d.bytes = ok r) (hdest : r.target.ResolvesTo dest)
    (hfits : r.payload.length ≤ maxPayloadFor cfg.warp.mtu dest) :
    d.bytes.length ≤ c2tMaxDatagram ↔ r.target.LeavesRoom r.payload := by
  have hmtu : cfg.warp.mtu ≤ 1420 := Config.mtu_le hv
  have hmax : r.payload.length ≤ 8164 := by
    apply hfits.trans
    cases dest with
    | v4 => exact le_rfl
    | v6 =>
      rw [maxPayloadFor]
      omega
  rw [(parse_eq_ok_iff.mp hparse).2.2, List.length_append, UdpTarget.length_encode, c2tMaxDatagram]
  obtain ⟨target, payload⟩ := r
  cases target with
  | v4 ip port =>
    rw [UdpTarget.length_address_v4]
    exact iff_of_true (by simp only at hmax ⊢; omega) nofun
  | v6 ip port =>
    rw [UdpTarget.length_address_v6]
    exact iff_of_true (by simp only at hmax ⊢; omega) nofun
  | domain host port =>
    rw [UdpTarget.length_address_domain]
    constructor
    · intro hlen host' port' heq
      obtain ⟨rfl, -⟩ := UdpTarget.domain.inj heq
      omega
    · intro hroom
      have hlen := hroom host port rfl
      omega

theorem oversize_filter_iff (hv : Config.validateWith h cfg isContainer trustedHostNet = .ok ())
    (hparse : parseSocks5UdpHeader d.bytes = ok r) (hdest : r.target.ResolvesTo dest)
    (hfits : r.payload.length ≤ maxPayloadFor cfg.warp.mtu dest) (s : State) :
    (s.judge d).oversized = s.oversized ↔
      (∃ a, s.clientAddr = some a ∧ a ≠ d.src) ∨ r.target.LeavesRoom r.payload := by
  rw [judge_oversized_iff, fits_filter_iff hv hparse hdest hfits]

end

def packet (src : SocketAddr) (t : UdpTarget) (payload : Bytes)
    (hfits : (t.encode ++ payload).length ≤ recvBufferBytes) : Datagram :=
  ⟨0, src, t.encode ++ payload, hfits⟩

theorem oversize_filter_iff_address :
    ∃ d : Datagram, d.bytes.length = 8174 ∧
      ((State.init.judge d).oversized = State.init.oversized ↔
        (∃ a, State.init.clientAddr = some a ∧ a ≠ d.src) ∨
          (UdpTarget.v4 0x01020304 53).LeavesRoom (List.replicate 8164 0)) := by
  have hfits : ((UdpTarget.v4 0x01020304 53).encode ++ List.replicate 8164 0).length ≤
      recvBufferBytes := by
    simp only [List.length_append, UdpTarget.length_encode, UdpTarget.length_address_v4,
      List.length_replicate]
    decide
  refine ⟨packet (.v4 0x7f000001 5000) _ _ hfits, ?_, ?_⟩
  · simp only [packet, List.length_append, UdpTarget.length_encode, UdpTarget.length_address_v4,
      List.length_replicate]
  · refine oversize_filter_iff (r := ⟨.v4 0x01020304 53, List.replicate 8164 0⟩)
      (d := packet _ _ _ hfits) Config.default_valid
      (parse_eq_ok_iff.mpr ⟨trivial, by decide, rfl⟩) rfl ?_ State.init
    simp only [List.length_replicate]
    decide

/-- A name of 200 bytes that resolves to an IPv4 address, and the largest payload for it. -/
theorem oversize_filter_stricter : ¬ ∀ (h : HostFacts) (cfg : Config)
    (isContainer trustedHostNet : Bool)
    (ip : IpAddr) (s : State) (d : Datagram) (r : ParsedUdp) (dest : SocketAddr),
    Config.validateWith h cfg isContainer trustedHostNet = .ok () →
    (machine ip).Reachable .init s → parseSocks5UdpHeader d.bytes = ok r →
    r.target.ResolvesTo dest → r.payload.length ≤ maxPayloadFor cfg.warp.mtu dest →
    (s.judge d).oversized = s.oversized := by
  intro hall
  let label := List.replicate 63 'a'
  let host : String := .ofList (label ++ '.' :: label ++ '.' :: label ++ '.' :: "internal".toList)
  have hhost : host.utf8ByteSize = 200 := by decide +kernel
  have hlen : ((UdpTarget.domain host 53).encode ++ List.replicate 8164 0).length = 8371 := by
    simp only [List.length_append, UdpTarget.length_encode, UdpTarget.length_address_domain, hhost,
      List.length_replicate]
  have hfits : ((UdpTarget.domain host 53).encode ++ List.replicate 8164 0).length ≤
      recvBufferBytes := by
    rw [hlen]
    decide
  have hcarried : (UdpTarget.domain host 53).Carried := by
    rw [UdpTarget.Carried, hhost]
    decide
  have hkept := hall ⟨false, none⟩ (Config.default none) false false (.v4 0x7f000001) .init
    (packet (.v4 0x7f000001 5000) _ _ hfits) ⟨.domain host 53, List.replicate 8164 0⟩
    (.v4 0x01020304 53) Config.default_valid (.refl _)
    (parse_eq_ok_iff.mpr ⟨hcarried, by decide, rfl⟩) rfl
    (by simp only [List.length_replicate]; decide)
  rcases judge_oversized_iff.mp hkept with ⟨a, ha, _⟩ | hsize
  · cases ha
  · rw [packet, hlen] at hsize
    exact absurd hsize (by decide)

end UdpRelay
end WarpRust.Proxy
