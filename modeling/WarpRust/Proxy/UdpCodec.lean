import WarpRust.Basic
import WarpRust.Library.Bytes

/-!
# The SOCKS5 UDP header

`parseSocks5UdpHeader` indexes the packet as the source does. `UdpTarget.encode` is the
header a target stands for, for all three address types; the code itself only ever writes
the two of a socket address.
-/

namespace WarpRust.Proxy
open Library Checked
open IpAddr (ipv4Octets ipv6Octets)

inductive UdpTarget where
  | v4 (ip : BitVec 32) (port : BitVec 16)
  | v6 (ip : BitVec 128) (port : BitVec 16) (flowinfo scopeId : BitVec 32)
  | domain (host : String) (port : BitVec 16)
  deriving DecidableEq

structure ParsedUdp where
  target : UdpTarget
  payload : Bytes
  deriving DecidableEq

def hexDigits (b : UInt8) : String :=
  .ofList [(b.toNat / 16).digitChar, (b.toNat % 16).digitChar]

def parseV4 (rest : Bytes) : Checked Error ParsedUdp := do
  reject (rest.length < 6) (.ofStr "SOCKS5 UDP v4 header truncated")
  let ip := ofBe 32 [← index rest 0, ← index rest 1, ← index rest 2, ← index rest 3]
  let port := u16FromBeBytes (← index rest 4) (← index rest 5)
  reject (port == 0) (.ofStr "SOCKS5 UDP destination port must be non-zero")
  return ⟨.v4 ip port, ← sliceFrom rest 6⟩

def parseDomain (rest : Bytes) : Checked Error ParsedUdp := do
  reject rest.isEmpty (.ofStr "SOCKS5 UDP domain header truncated")
  let dlen := (← index rest 0).toNat
  reject (dlen == 0) (.ofStr "SOCKS5 UDP domain must be non-empty")
  reject (rest.length < 1 + dlen + 2) (.ofStr "SOCKS5 UDP domain header truncated")
  match fromUtf8 (← slice rest 1 (1 + dlen)) with
  | none => err (.ofStr "SOCKS5 UDP domain not utf8")
  | some host =>
    let port := u16FromBeBytes (← index rest (1 + dlen)) (← index rest (1 + dlen + 1))
    reject (port == 0) (.ofStr "SOCKS5 UDP destination port must be non-zero")
    return ⟨.domain host port, ← sliceFrom rest (1 + dlen + 2)⟩

def parseV6 (rest : Bytes) : Checked Error ParsedUdp := do
  reject (rest.length < 18) (.ofStr "SOCKS5 UDP v6 header truncated")
  let ip := ofBe 128 (← slice rest 0 16)
  let port := u16FromBeBytes (← index rest 16) (← index rest 17)
  reject (port == 0) (.ofStr "SOCKS5 UDP destination port must be non-zero")
  return ⟨.v6 ip port 0 0, ← sliceFrom rest 18⟩

def parseSocks5UdpHeader (buf : Bytes) : Checked Error ParsedUdp := do
  reject (buf.length < 4) (.ofStr "SOCKS5 UDP packet too short")
  reject ((← index buf 0) != 0 || (← index buf 1) != 0)
    (.ofStr "SOCKS5 UDP reserved bytes must be zero")
  reject ((← index buf 2) != 0) (.ofStr "SOCKS5 UDP fragmentation not supported")
  let atyp ← index buf 3
  let rest ← sliceFrom buf 4
  match atyp.toNat with
  | 0x01 => parseV4 rest
  | 0x03 => parseDomain rest
  | 0x04 => parseV6 rest
  | _ => err (.ofStr ("unknown ATYP 0x" ++ hexDigits atyp))

/-- The previous content of the reused buffer is cleared first. -/
def wrapSocks5Udp (out : Bytes) (src : SocketAddr) (payload : Bytes) : Bytes :=
  let out := out.take 0
  match src with
  | .v4 ip port => out ++ [0, 0, 0, 1] ++ ipv4Octets ip ++ u16ToBeBytes port ++ payload
  | .v6 ip port _ _ => out ++ [0, 0, 0, 4] ++ ipv6Octets ip ++ u16ToBeBytes port ++ payload

namespace UdpTarget

def port : UdpTarget → BitVec 16
  | v4 _ port => port
  | v6 _ port _ _ => port
  | domain _ port => port

def ofAddr : SocketAddr → UdpTarget
  | .v4 ip port => v4 ip port
  | .v6 ip port flowinfo scopeId => v6 ip port flowinfo scopeId

/-- Address type and address, as they stand between the fragment byte and the port. -/
def address : UdpTarget → Bytes
  | v4 ip _ => 1 :: ipv4Octets ip
  | v6 ip _ _ _ => 4 :: ipv6Octets ip
  | domain host _ => 3 :: UInt8.ofNat host.utf8ByteSize :: utf8Bytes host

def encode (t : UdpTarget) : Bytes := [0, 0, 0] ++ t.address ++ u16ToBeBytes t.port

/-- What the header can carry: no zone of an IPv6 address, a host of 1 to 255 bytes. -/
def Carried : UdpTarget → Prop
  | v4 _ _ => True
  | v6 _ _ flowinfo scopeId => flowinfo = 0 ∧ scopeId = 0
  | domain host _ => 1 ≤ host.utf8ByteSize ∧ host.utf8ByteSize ≤ 255

end UdpTarget

inductive AddressBytes : UInt8 → Bytes → Prop
  | v4 {addr : Bytes} (h : addr.length = 4) : AddressBytes 1 addr
  | domain {len : UInt8} {host : Bytes} (hpos : 1 ≤ len.toNat) (hlen : host.length = len.toNat)
      (hutf8 : ValidUtf8 host) : AddressBytes 3 (len :: host)
  | v6 {addr : Bytes} (h : addr.length = 16) : AddressBytes 4 addr

/-- `00 00 00 atyp addr port data` -/
def HeaderGrammar (b : Bytes) : Prop :=
  ∃ (atyp : UInt8) (addr port data : Bytes), b = 0 :: 0 :: 0 :: atyp :: (addr ++ port ++ data) ∧
    AddressBytes atyp addr ∧ port.length = 2 ∧ beNat port ≠ 0

/-- How all three address types end once the header is complete. -/
def parsed (t : UdpTarget) (data : Bytes) : Checked Error ParsedUdp :=
  if t.port = 0 then err (.ofStr "SOCKS5 UDP destination port must be non-zero") else ok ⟨t, data⟩

theorem parsed_eq_ok {t : UdpTarget} {data : Bytes} {r : ParsedUdp} :
    parsed t data = ok r ↔ t.port ≠ 0 ∧ r = ⟨t, data⟩ := by
  unfold parsed
  split
  · simp_all
  · simp_all [eq_comm]

theorem parsed_ne_panic {t : UdpTarget} {data : Bytes} : parsed t data ≠ panic := by
  unfold parsed
  split <;> nofun

theorem checkPort_eq {t : UdpTarget} {data : Bytes} :
    (reject (t.port == 0) (.ofStr "SOCKS5 UDP destination port must be non-zero") >>=
      fun _ => ok (⟨t, data⟩ : ParsedUdp)) = parsed t data := by
  unfold parsed
  split
  · rename_i hzero
    rw [hzero]
    rfl
  · rename_i hport
    rw [beq_eq_false_iff_ne.mpr hport]
    rfl

theorem exists_split (rest : Bytes) (n : ℕ) (h : n + 2 ≤ rest.length) :
    ∃ (addr : Bytes) (p q : UInt8) (data : Bytes),
      rest = addr ++ p :: q :: data ∧ addr.length = n := by
  have hlen : 2 ≤ (rest.drop n).length := by
    rw [List.length_drop]
    omega
  match htail : rest.drop n, hlen with
  | p :: q :: data, _ =>
    refine ⟨rest.take n, p, q, data, ?_, List.length_take_of_le (by omega)⟩
    rw [← htail, List.take_append_drop]

theorem read_port {addr : Bytes} {n : ℕ} (hn : addr.length = n) (p q : UInt8) (data : Bytes) :
    (index (addr ++ p :: q :: data) n : Checked Error UInt8) = ok p ∧
    (index (addr ++ p :: q :: data) (n + 1) : Checked Error UInt8) = ok q ∧
    (sliceFrom (addr ++ p :: q :: data) (n + 2) : Checked Error Bytes) = ok data := by
  subst hn
  refine ⟨?_, ?_, ?_⟩
  · rw [index_append le_rfl, Nat.sub_self]
    rfl
  · rw [index_append (Nat.le_add_right _ _), Nat.add_sub_cancel_left]
    rfl
  · rw [sliceFrom_eq_ok (by simp), List.append_cons, List.append_cons, List.drop_left' (by simp)]

theorem not_short {addr : Bytes} {n : ℕ} (hn : addr.length = n) (p q : UInt8) (data : Bytes) :
    decide ((addr ++ p :: q :: data).length < n + 2) = false := by
  simp [hn]

section
variable {addr : Bytes} (p q : UInt8) (data : Bytes)

theorem parseV4_eq (haddr : addr.length = 4) :
    parseV4 (addr ++ p :: q :: data) = parsed (.v4 (ofBe 32 addr) (ofBe 16 [p, q])) data := by
  obtain ⟨hp, hq, hdata⟩ := read_port haddr p q data
  rw [← checkPort_eq]
  match addr, haddr with
  | [a, b, c, d], haddr =>
    simp only [parseV4, not_short haddr p q data, reject_false, ok_bind, hp, hq, hdata, pure_eq]
    rfl

theorem parseV4_cases (rest : Bytes) : (∃ e, parseV4 rest = err e) ∨
    ∃ (addr : Bytes) (p q : UInt8) (data : Bytes),
      rest = addr ++ p :: q :: data ∧ addr.length = 4 := by
  by_cases hlen : rest.length < 6
  · exact .inl ⟨_, by rw [parseV4, decide_eq_true hlen]; rfl⟩
  · exact .inr (exists_split _ 4 (not_lt.mp hlen))

theorem parseV6_eq (haddr : addr.length = 16) :
    parseV6 (addr ++ p :: q :: data) = parsed (.v6 (ofBe 128 addr) (ofBe 16 [p, q]) 0 0) data := by
  obtain ⟨hp, hq, hdata⟩ := read_port haddr p q data
  have hip : (slice (addr ++ p :: q :: data) 0 16 : Checked Error Bytes) = ok addr := by
    rw [slice_eq_ok (Nat.zero_le _) (by simp [haddr]), ← haddr, List.take_left]
    rfl
  rw [← checkPort_eq]
  simp only [parseV6, not_short haddr p q data, reject_false, ok_bind, hip, hp, hq, hdata, pure_eq]
  rfl

theorem parseV6_cases (rest : Bytes) : (∃ e, parseV6 rest = err e) ∨
    ∃ (addr : Bytes) (p q : UInt8) (data : Bytes),
      rest = addr ++ p :: q :: data ∧ addr.length = 16 := by
  by_cases hlen : rest.length < 18
  · exact .inl ⟨_, by rw [parseV6, decide_eq_true hlen]; rfl⟩
  · exact .inr (exists_split _ 16 (not_lt.mp hlen))

theorem parseDomain_eq {len : UInt8} {host : Bytes} (hpos : 1 ≤ len.toNat)
    (hlen : host.length = len.toNat) :
    parseDomain (len :: host ++ p :: q :: data) =
      match fromUtf8 host with
      | none => err (.ofStr "SOCKS5 UDP domain not utf8")
      | some name => parsed (.domain name (ofBe 16 [p, q])) data := by
  have hhost : (len :: host).length = 1 + len.toNat := by
    rw [List.length_cons, hlen, Nat.add_comm]
  obtain ⟨hp, hq, hdata⟩ := read_port hhost p q data
  have hslice : (slice (len :: host ++ p :: q :: data) 1 (1 + len.toNat) : Checked Error Bytes) =
      ok host := by
    rw [slice_eq_ok (Nat.le_add_right _ _) (by rw [List.length_append, hhost]; omega), ← hhost,
      List.take_left]
    rfl
  have hfirst : (index (len :: host ++ p :: q :: data) 0 : Checked Error UInt8) = ok len := rfl
  have hempty : (len :: host ++ p :: q :: data).isEmpty = false := rfl
  have hne : (len.toNat == 0) = false := beq_eq_false_iff_ne.mpr (by omega)
  simp only [parseDomain, hempty, hfirst, reject_false, ok_bind, hne, not_short hhost, hslice]
  cases fromUtf8 host with
  | none => rfl
  | some name =>
    simp only [hp, hq, hdata, ok_bind, pure_eq, ← checkPort_eq]
    rfl

theorem parseDomain_cases (rest : Bytes) : (∃ e, parseDomain rest = err e) ∨
    ∃ (len : UInt8) (name : String) (p q : UInt8) (data : Bytes),
      rest = len :: utf8Bytes name ++ p :: q :: data ∧ 1 ≤ len.toNat ∧
      (utf8Bytes name).length = len.toNat := by
  cases rest with
  | nil => exact .inl ⟨_, rfl⟩
  | cons len tail =>
    by_cases hzero : len.toNat = 0
    · left
      refine ⟨.ofStr "SOCKS5 UDP domain must be non-empty", ?_⟩
      simp only [parseDomain, List.isEmpty_cons, reject_false, ok_bind, index_zero, hzero]
      rfl
    by_cases hshort : (len :: tail).length < 1 + len.toNat + 2
    · left
      refine ⟨.ofStr "SOCKS5 UDP domain header truncated", ?_⟩
      simp only [parseDomain, List.isEmpty_cons, reject_false, ok_bind, index_zero,
        beq_eq_false_iff_ne.mpr hzero, decide_eq_true hshort]
      rfl
    · rw [List.length_cons] at hshort
      obtain ⟨host, p, q, data, rfl, hlen⟩ := exists_split tail len.toNat (by omega)
      have heq := parseDomain_eq p q data (by omega) hlen
      cases hname : fromUtf8 host with
      | none =>
        rw [hname] at heq
        exact .inl ⟨_, heq⟩
      | some name =>
        have hbytes := utf8Bytes_of_fromUtf8 hname
        exact .inr ⟨len, name, p, q, data, by rw [hbytes]; rfl, by omega, by rw [hbytes, hlen]⟩

end

theorem parse_header (atyp : UInt8) (rest : Bytes) :
    parseSocks5UdpHeader (0 :: 0 :: 0 :: atyp :: rest) =
      match atyp.toNat with
      | 0x01 => parseV4 rest
      | 0x03 => parseDomain rest
      | 0x04 => parseV6 rest
      | _ => err (.ofStr ("unknown ATYP 0x" ++ hexDigits atyp)) := by
  have hlen : decide ((0 :: 0 :: 0 :: atyp :: rest).length < 4) = false := by simp
  have hrest : (sliceFrom (0 :: 0 :: 0 :: atyp :: rest) 4 : Checked Error Bytes) = ok rest :=
    sliceFrom_eq_ok (by simp)
  simp only [parseSocks5UdpHeader, hlen, reject_false, ok_bind, index_zero, index_succ, hrest]
  rfl

theorem encode_append {t : UdpTarget} {p q : UInt8} {data : Bytes}
    (hport : ofBe 16 [p, q] = t.port) :
    t.encode ++ data = 0 :: 0 :: 0 :: (t.address ++ p :: q :: data) := by
  simp [UdpTarget.encode, u16ToBeBytes, ← hport, toBe_ofBe (k := 2) rfl (b := [p, q]) rfl]

theorem parse_encode {t : UdpTarget} (ht : t.Carried) (data : Bytes) :
    parseSocks5UdpHeader (t.encode ++ data) = parsed t data := by
  obtain ⟨p, q, -, hport⟩ := exists_toBe_pair t.port
  rw [encode_append hport]
  cases t with
  | v4 ip port =>
    have h := parseV4_eq p q data (length_toBe ip)
    rw [hport, ofBe_toBe (k := 4) rfl] at h
    exact (parse_header 1 _).trans h
  | v6 ip port flowinfo scopeId =>
    have h := parseV6_eq p q data (length_toBe ip)
    rw [hport, ofBe_toBe (k := 16) rfl] at h
    obtain ⟨rfl, rfl⟩ := ht
    exact (parse_header 4 _).trans h
  | domain host port =>
    have hlen : (UInt8.ofNat host.utf8ByteSize).toNat = host.utf8ByteSize := by
      rw [UInt8.toNat_ofNat']
      exact Nat.mod_eq_of_lt (Nat.lt_succ_of_le ht.2)
    have hpos : 1 ≤ (UInt8.ofNat host.utf8ByteSize).toNat := hlen.symm ▸ ht.1
    have h := parseDomain_eq p q data hpos ((length_utf8Bytes host).trans hlen.symm)
    rw [hport, fromUtf8_utf8Bytes] at h
    exact (parse_header 3 _).trans h

theorem parse_cases (b : Bytes) : (∃ e, parseSocks5UdpHeader b = err e) ∨
    ∃ (t : UdpTarget) (data : Bytes), t.Carried ∧ b = t.encode ++ data := by
  by_cases hshort : b.length < 4
  · left
    refine ⟨.ofStr "SOCKS5 UDP packet too short", ?_⟩
    rw [parseSocks5UdpHeader, decide_eq_true hshort]
    rfl
  match b, hshort, not_lt.mp hshort with
  | b₀ :: b₁ :: b₂ :: atyp :: rest, hshort, _ =>
    by_cases hreserved : (b₀ != 0 || b₁ != 0) = true
    · left
      refine ⟨.ofStr "SOCKS5 UDP reserved bytes must be zero", ?_⟩
      simp only [parseSocks5UdpHeader, decide_eq_false hshort, reject_false, ok_bind, index_zero,
        index_succ, hreserved]
      rfl
    by_cases hfrag : (b₂ != 0) = true
    · left
      refine ⟨.ofStr "SOCKS5 UDP fragmentation not supported", ?_⟩
      simp only [parseSocks5UdpHeader, decide_eq_false hshort, Bool.eq_false_iff.mpr hreserved,
        reject_false, ok_bind, index_zero, index_succ, hfrag]
      rfl
    simp only [Bool.or_eq_true, bne_iff_ne, not_or, not_not] at hreserved hfrag
    obtain ⟨rfl, rfl⟩ := hreserved
    subst hfrag
    rw [parse_header]
    split
    · rename_i hatyp
      obtain rfl : atyp = 1 := UInt8.toNat_inj.mp hatyp
      refine (parseV4_cases rest).imp_right ?_
      rintro ⟨addr, p, q, data, rfl, haddr⟩
      refine ⟨.v4 (ofBe 32 addr) (ofBe 16 [p, q]), data, trivial, ?_⟩
      rw [encode_append rfl, UdpTarget.address, ipv4Octets, toBe_ofBe (k := 4) rfl haddr]
      rfl
    · rename_i hatyp
      obtain rfl : atyp = 3 := UInt8.toNat_inj.mp hatyp
      refine (parseDomain_cases rest).imp_right ?_
      rintro ⟨len, host, p, q, data, rfl, hpos, hlen⟩
      rw [length_utf8Bytes] at hlen
      have hlt := len.toNat_lt
      refine ⟨.domain host (ofBe 16 [p, q]), data, ⟨by omega, by omega⟩, ?_⟩
      rw [encode_append rfl, UdpTarget.address, hlen, UInt8.ofNat_toNat]
      rfl
    · rename_i hatyp
      obtain rfl : atyp = 4 := UInt8.toNat_inj.mp hatyp
      refine (parseV6_cases rest).imp_right ?_
      rintro ⟨addr, p, q, data, rfl, haddr⟩
      refine ⟨.v6 (ofBe 128 addr) (ofBe 16 [p, q]) 0 0, data, ⟨rfl, rfl⟩, ?_⟩
      rw [encode_append rfl, UdpTarget.address, ipv6Octets, toBe_ofBe (k := 16) rfl haddr]
      rfl
    · exact .inl ⟨_, rfl⟩

theorem parse_ne_panic (b : Bytes) : parseSocks5UdpHeader b ≠ panic := by
  rcases parse_cases b with ⟨e, he⟩ | ⟨t, data, ht, rfl⟩
  · rw [he]
    nofun
  · rw [parse_encode ht]
    exact parsed_ne_panic

theorem parse_eq_ok_iff {b : Bytes} {r : ParsedUdp} : parseSocks5UdpHeader b = ok r ↔
    r.target.Carried ∧ r.target.port ≠ 0 ∧ b = r.target.encode ++ r.payload := by
  constructor
  · intro h
    rcases parse_cases b with ⟨e, he⟩ | ⟨t, data, ht, rfl⟩
    · rw [he] at h
      cases h
    · rw [parse_encode ht] at h
      obtain ⟨hport, rfl⟩ := parsed_eq_ok.mp h
      exact ⟨ht, hport, rfl⟩
  · rintro ⟨ht, hport, rfl⟩
    rw [parse_encode ht]
    exact parsed_eq_ok.mpr ⟨hport, rfl⟩

theorem wrap_eq_encode (out : Bytes) (src : SocketAddr) (payload : Bytes) :
    wrapSocks5Udp out src payload = (UdpTarget.ofAddr src).encode ++ payload := by
  cases src <;>
    simp [wrapSocks5Udp, UdpTarget.ofAddr, UdpTarget.encode, UdpTarget.address, UdpTarget.port]

theorem addressBytes_iff {atyp : UInt8} {addr : Bytes} (port : BitVec 16) :
    AddressBytes atyp addr ↔
      ∃ t : UdpTarget, t.Carried ∧ t.port = port ∧ t.address = atyp :: addr := by
  constructor
  · intro h
    cases h with
    | v4 haddr =>
      exact ⟨.v4 (ofBe 32 addr) port, trivial, rfl,
        congrArg (1 :: ·) (toBe_ofBe (k := 4) rfl haddr)⟩
    | v6 haddr =>
      exact ⟨.v6 (ofBe 128 addr) port 0 0, ⟨rfl, rfl⟩, rfl,
        congrArg (4 :: ·) (toBe_ofBe (k := 16) rfl haddr)⟩
    | @domain len host hpos hlen hutf8 =>
      obtain ⟨name, hname⟩ := fromUtf8_isSome hutf8
      obtain rfl := utf8Bytes_of_fromUtf8 hname
      rw [length_utf8Bytes] at hlen
      have hlt := len.toNat_lt
      refine ⟨.domain name port, ⟨by omega, by omega⟩, rfl, ?_⟩
      rw [UdpTarget.address, hlen, UInt8.ofNat_toNat]
  · rintro ⟨t, ht, -, haddr⟩
    cases t with
    | v4 ip _ =>
      obtain ⟨rfl, rfl⟩ := List.cons.inj haddr
      exact .v4 (length_toBe ip)
    | v6 ip _ _ _ =>
      obtain ⟨rfl, rfl⟩ := List.cons.inj haddr
      exact .v6 (length_toBe ip)
    | domain host _ =>
      obtain ⟨rfl, rfl⟩ := List.cons.inj haddr
      have hlen : (UInt8.ofNat host.utf8ByteSize).toNat = host.utf8ByteSize := by
        rw [UInt8.toNat_ofNat']
        exact Nat.mod_eq_of_lt (Nat.lt_succ_of_le ht.2)
      exact .domain (hlen.symm ▸ ht.1) hlen.symm (utf8Bytes_valid host)

theorem headerGrammar_iff {b : Bytes} : HeaderGrammar b ↔
    ∃ (t : UdpTarget) (data : Bytes), t.Carried ∧ t.port ≠ 0 ∧ b = t.encode ++ data := by
  constructor
  · rintro ⟨atyp, addr, port, data, rfl, haddr, hlen, hne⟩
    obtain ⟨p, q, rfl⟩ := List.length_eq_two.mp hlen
    obtain ⟨t, ht, hport, haddress⟩ := (addressBytes_iff (ofBe 16 [p, q])).mp haddr
    refine ⟨t, data, ht, ?_, ?_⟩
    · rwa [hport, ne_eq, ofBe_eq_zero_iff (k := 2) rfl hlen]
    · rw [encode_append hport.symm, haddress]
      simp
  · rintro ⟨t, data, ht, hne, rfl⟩
    obtain ⟨p, q, -, hport⟩ := exists_toBe_pair t.port
    obtain ⟨atyp, addr, haddress⟩ : ∃ atyp addr, t.address = atyp :: addr := by
      cases t <;> exact ⟨_, _, rfl⟩
    refine ⟨atyp, addr, [p, q], data, ?_, ?_, rfl, ?_⟩
    · rw [encode_append hport, haddress]
      simp
    · exact (addressBytes_iff t.port).mpr ⟨t, ht, rfl, haddress⟩
    · rwa [← hport, ne_eq, ofBe_eq_zero_iff (k := 2) rfl rfl] at hne

def ZoneFree : SocketAddr → Prop
  | .v4 _ _ => True
  | .v6 _ _ flowinfo scopeId => flowinfo = 0 ∧ scopeId = 0

theorem udpCodec :
    (∀ b, parseSocks5UdpHeader b ≠ panic ∧
      ((∃ r, parseSocks5UdpHeader b = ok r) ↔ HeaderGrammar b) ∧
      ∀ r, parseSocks5UdpHeader b = ok r → r.target.encode ++ r.payload = b) ∧
    ∀ (out : Bytes) (src : SocketAddr) (payload : Bytes), src.port ≠ 0 → ZoneFree src →
      parseSocks5UdpHeader (wrapSocks5Udp out src payload) = ok ⟨.ofAddr src, payload⟩ := by
  constructor
  · intro b
    refine ⟨parse_ne_panic b, ?_, fun r hr => (parse_eq_ok_iff.mp hr).2.2.symm⟩
    rw [headerGrammar_iff]
    constructor
    · rintro ⟨r, hr⟩
      exact ⟨r.target, r.payload, parse_eq_ok_iff.mp hr⟩
    · rintro ⟨t, data, ht⟩
      exact ⟨⟨t, data⟩, parse_eq_ok_iff.mpr ht⟩
  · intro out src payload hport hzone
    rw [parse_eq_ok_iff, wrap_eq_encode]
    cases src with
    | v4 ip port => exact ⟨trivial, hport, rfl⟩
    | v6 ip port flowinfo scopeId => exact ⟨hzone, hport, rfl⟩

theorem udpCodec_reply :
    parseSocks5UdpHeader (wrapSocks5Udp [255] (.v4 0x01020304 53) [7, 8]) =
      ok ⟨.v4 0x01020304 53, [7, 8]⟩ :=
  udpCodec.2 [255] (.v4 0x01020304 53) [7, 8] (by decide) trivial

end WarpRust.Proxy
