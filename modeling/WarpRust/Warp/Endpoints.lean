import WarpRust.Tunnel.Failover
import Mathlib.Data.List.DropRight

/-!
# Endpoints of a fresh configuration

`resolve_peer_endpoints` of `warp-wireguard-gen`: what the resolver of the system says about the
host of the API's endpoint, with the API's own addresses behind it. The first one becomes the
active endpoint of the configuration that `connect_candidate` and all later failovers start from.
-/

namespace WarpRust.Warp
open Library Tunnel

structure Endpoint where
  host : String
  v4 : String
  v6 : String

/-- `parse` of the address types of the standard library. -/
structure AddrParse where
  socketAddr : List Char → Option SocketAddr
  ipAddr : List Char → Option IpAddr

/-- The code points with the property `White_Space`. -/
def isWhitespace (c : Char) : Bool :=
  let n := c.toNat
  (9 ≤ n && n ≤ 13) || n = 0x20 || n = 0x85 || n = 0xa0 || n = 0x1680 ||
    (0x2000 ≤ n && n ≤ 0x200a) || n = 0x2028 || n = 0x2029 || n = 0x202f || n = 0x205f || n = 0x3000

def trim (s : List Char) : List Char :=
  (s.dropWhile isWhitespace).rdropWhile isWhitespace

def afterLast (sep : Char) (s : List Char) : Option (List Char) :=
  if sep ∈ s then some (s.reverse.takeWhile (· ≠ sep)).reverse else none

def digit (c : Char) : Option ℕ :=
  if 48 ≤ c.toNat ∧ c.toNat ≤ 57 then some (c.toNat - 48) else none

def digits : ℕ → List Char → Option ℕ
  | n, [] => some n
  | n, c :: s =>
    match digit c with
    | some d => if n * 10 + d < 2 ^ 16 then digits (n * 10 + d) s else none
    | none => none

/-- `u16::from_str`: digits after an optional plus sign, without an overflow. -/
def parseU16 (s : List Char) : Option (BitVec 16) :=
  let s := if s.head? = some '+' then s.tail else s
  if s = [] then none else (digits 0 s).map (BitVec.ofNat 16)

def defaultPort : BitVec 16 := 2408#16

def endpointPort (endpoint : Endpoint) : BitVec 16 :=
  (((afterLast ':' endpoint.host.toList).bind fun p => parseU16 (trim p)).filter (· ≠ 0)).getD
    defaultPort

def pushUnique (candidates : List SocketAddr) (candidate : SocketAddr) : List SocketAddr :=
  if candidate ∈ candidates then candidates else candidates ++ [candidate]

def parseApiEndpoint (parse : AddrParse) (raw : String) (port : BitVec 16) : Option SocketAddr :=
  let raw := trim raw.toList
  if raw = [] then none
  else
    match parse.socketAddr raw with
    | some socket => some (.new socket.ip port)
    | none => (parse.ipAddr raw).map (SocketAddr.new · port)

def candidatesEmpty (endpoint : Endpoint) : Error :=
  .warpApi [.lit "Failed to parse endpoint: ", .lit "DNS/API endpoint candidates empty: host='",
    .lit endpoint.host, .lit "' v4='", .lit endpoint.v4, .lit "' v6='", .lit endpoint.v6, .lit "'"]

def mergeEndpointCandidates (parse : AddrParse) (dnsCandidates : List SocketAddr)
    (endpoint : Endpoint) : Except Error (List SocketAddr) :=
  let candidates := dnsCandidates.foldl pushUnique []
  let port := endpointPort endpoint
  let candidates := (parseApiEndpoint parse endpoint.v4 port).elim candidates
    (pushUnique candidates)
  let candidates := (parseApiEndpoint parse endpoint.v6 port).elim candidates
    (pushUnique candidates)
  if candidates = [] then .error (candidatesEmpty endpoint) else .ok candidates

/-- What `lookup_host` comes to within its five seconds. -/
inductive HostLookup where
  | timedOut
  | found (addrs : List SocketAddr)
  | failed (e : Text)

def HostLookup.addrs : HostLookup → List SocketAddr
  | found addrs => addrs
  | _ => []

def resolvePeerEndpoints (parse : AddrParse) (lookup : HostLookup) (endpoint : Endpoint) :
    Except Error (List SocketAddr) :=
  mergeEndpointCandidates parse (lookup.addrs.foldl pushUnique []) endpoint

/-- The configuration of `get_config`; without a first candidate its index would panic. -/
def withEndpoints (cfg : WireGuardConfig) (candidates : List SocketAddr) : Option WireGuardConfig :=
  candidates.head?.map fun first =>
    { cfg with peerEndpoint := first, peerEndpointCandidates := candidates }

/-! ### Text -/

/-- `t` is `s` without the white space around it. -/
structure Trimmed (s t : List Char) : Prop where
  around : ∃ pre post, s = pre ++ t ++ post ∧ (∀ c ∈ pre, isWhitespace c = true) ∧
    ∀ c ∈ post, isWhitespace c = true
  first : ∀ c, t.head? = some c → isWhitespace c = false
  last : ∀ c, t.getLast? = some c → isWhitespace c = false

theorem trimmed_trim (s : List Char) : Trimmed s (trim s) where
  around := by
    refine ⟨s.takeWhile isWhitespace, (s.dropWhile isWhitespace).rtakeWhile isWhitespace, ?_,
      fun c hc => List.mem_takeWhile_imp hc, fun c hc => List.mem_rtakeWhile_imp hc⟩
    rw [List.append_assoc, trim, List.rdropWhile_append_rtakeWhile, List.takeWhile_append_dropWhile]
  first := by
    intro c hc
    obtain ⟨t, ht⟩ := List.head?_eq_some_iff.mp hc
    obtain ⟨post, hpost⟩ : trim s <+: s.dropWhile isWhitespace := List.rdropWhile_prefix _ _
    have hnot := List.head?_dropWhile_not isWhitespace s
    rw [← hpost, ht] at hnot
    exact eq_false_of_ne_true (by simpa using hnot)
  last := by
    intro c hc
    have hne : trim s ≠ [] := List.ne_nil_of_mem (List.mem_of_getLast? hc)
    have hnot := List.rdropWhile_last_not isWhitespace (s.dropWhile isWhitespace) hne
    rw [List.getLast?_eq_some_getLast hne] at hc
    obtain rfl := Option.some.inj hc
    exact eq_false_of_ne_true hnot

theorem Trimmed.trim_eq {s t : List Char} (h : Trimmed s t) : trim s = t := by
  obtain ⟨pre, post, rfl, hpre, hpost⟩ := h.around
  rw [trim, List.append_assoc, List.dropWhile_append_of_pos hpre]
  cases t with
  | nil => rw [List.nil_append, List.dropWhile_eq_nil_iff.mpr hpost, List.rdropWhile_nil]
  | cons c t =>
    have hlast : (c :: t).rdropWhile isWhitespace = c :: t := by
      rw [List.rdropWhile_eq_self_iff]
      intro hne
      simp [h.last _ (List.getLast?_eq_some_getLast hne)]
    rw [List.cons_append, List.dropWhile_cons_of_neg (by simp [h.first c rfl]), ← List.cons_append,
      List.rdropWhile, List.reverse_append,
      List.dropWhile_append_of_pos fun x hx => hpost x (List.mem_reverse.mp hx)]
    exact hlast

def Numeral (t : List Char) (n : ℕ) : Prop :=
  ∃ ds, (t = ds ∨ t = '+' :: ds) ∧ ds ≠ [] ∧ (∀ c ∈ ds, c.isDigit = true) ∧
    n = Nat.ofDigitChars 10 ds 0

theorem toNat_of_isDigit {c : Char} (h : c.isDigit = true) : 48 ≤ c.toNat ∧ c.toNat ≤ 57 := by
  simpa [Char.isDigit, UInt32.le_iff_toNat_le] using h

theorem digit_eq {c : Char} (h : c.isDigit = true) : digit c = some (c.toNat - 48) :=
  if_pos (toNat_of_isDigit h)

theorem isDigit_of_digit {c : Char} {d : ℕ} (h : digit c = some d) : c.isDigit = true := by
  unfold digit at h
  split at h
  · next hc => simpa [Char.isDigit, UInt32.le_iff_toNat_le] using hc
  · cases h

theorem digits_eq_some_iff {n m : ℕ} {s : List Char} (hn : n < 2 ^ 16) : digits n s = some m ↔
    (∀ c ∈ s, c.isDigit = true) ∧ m = Nat.ofDigitChars 10 s n ∧ m < 2 ^ 16 := by
  induction s generalizing n with
  | nil =>
    rw [digits, Nat.ofDigitChars_nil, Option.some_inj]
    constructor
    · rintro rfl
      exact ⟨by simp, rfl, hn⟩
    · exact fun h => h.2.1.symm
  | cons c s ih =>
    have hgrow (k : ℕ) : k ≤ Nat.ofDigitChars 10 s k := by
      rw [Nat.ofDigitChars_eq_ofDigitChars_zero]
      exact (Nat.le_mul_of_pos_left k (Nat.pow_pos (by decide))).trans (Nat.le_add_right _ _)
    rw [digits, Nat.ofDigitChars_cons, List.forall_mem_cons, Nat.mul_comm n 10]
    cases hd : digit c with
    | none =>
      simp only [reduceCtorEq, false_iff]
      rintro ⟨⟨hc, _⟩, _⟩
      rw [digit_eq hc] at hd
      cases hd
    | some d =>
      have hc := isDigit_of_digit hd
      obtain rfl : d = c.toNat - 48 := Option.some.inj (hd.symm.trans (digit_eq hc))
      change (if 10 * n + (c.toNat - 48) < 2 ^ 16 then _ else _) = _ ↔ (_ ∧ _) ∧
        m = Nat.ofDigitChars 10 s (10 * n + (c.toNat - 48)) ∧ _
      split
      · next hlt => rw [ih hlt, and_iff_right hc]
      · next hge =>
        simp only [reduceCtorEq, false_iff]
        rintro ⟨_, rfl, hm⟩
        exact hge ((hgrow _).trans_lt hm)

theorem parseU16_eq_some_iff {t : List Char} {port : BitVec 16} : parseU16 t = some port ↔
    ∃ n, Numeral t n ∧ n < 2 ^ 16 ∧ port = BitVec.ofNat 16 n := by
  have hread {ds : List Char} (hne : ds ≠ []) :
      (if ds = [] then none else (digits 0 ds).map (BitVec.ofNat 16)) = some port ↔
        ∃ n, ((∀ c ∈ ds, c.isDigit = true) ∧ n = Nat.ofDigitChars 10 ds 0 ∧ n < 2 ^ 16) ∧
          port = BitVec.ofNat 16 n := by
    rw [if_neg hne, Option.map_eq_some_iff]
    exact exists_congr fun n => and_congr (digits_eq_some_iff (by decide)) eq_comm
  constructor
  · intro h
    obtain ⟨ds, ht, hds⟩ : ∃ ds, (t = ds ∨ t = '+' :: ds) ∧
        (if ds = [] then none else (digits 0 ds).map (BitVec.ofNat 16)) = some port := by
      unfold parseU16 at h
      split at h
      · next hplus =>
        obtain ⟨ds, rfl⟩ := List.head?_eq_some_iff.mp hplus
        exact ⟨ds, .inr rfl, h⟩
      · exact ⟨t, .inl rfl, h⟩
    have hne : ds ≠ [] := by
      rintro rfl
      cases hds
    obtain ⟨n, ⟨hdig, hn, hlt⟩, hport⟩ := (hread hne).mp hds
    exact ⟨n, ⟨ds, ht, hne, hdig, hn⟩, hlt, hport⟩
  · rintro ⟨n, ⟨ds, ht, hne, hdig, hn⟩, hlt, hport⟩
    have hstrip : (if t.head? = some '+' then t.tail else t) = ds := by
      rcases ht with rfl | rfl
      · apply if_neg
        intro hplus
        have hdigit := hdig '+' (List.mem_of_mem_head? hplus)
        cases hdigit
      · rfl
    unfold parseU16
    rw [hstrip]
    exact (hread hne).mpr ⟨n, ⟨hdig, hn, hlt⟩, hport⟩

theorem afterLast_eq_some_iff {sep : Char} {s p : List Char} :
    afterLast sep s = some p ↔ ∃ name, s = name ++ sep :: p ∧ sep ∉ p := by
  have hback {name p : List Char} (hp : sep ∉ p) : afterLast sep (name ++ sep :: p) = some p := by
    have hall (c : Char) (hc : c ∈ p.reverse) : decide (c ≠ sep) = true :=
      decide_eq_true fun h => hp (h ▸ List.mem_reverse.mp hc)
    rw [afterLast, if_pos (by simp), List.reverse_append, List.reverse_cons, List.append_assoc,
      List.takeWhile_append_of_pos hall, List.singleton_append,
      List.takeWhile_cons_of_neg (by simp), List.append_nil, List.reverse_reverse]
  constructor
  · intro h
    have hmem : sep ∈ s := by
      by_contra hnot
      rw [afterLast, if_neg hnot] at h
      cases h
    obtain ⟨post, pre, hrev, hpost⟩ := List.eq_append_cons_of_mem (List.mem_reverse.mpr hmem)
    have hs : s = pre.reverse ++ sep :: post.reverse := by
      rw [← List.reverse_reverse s, hrev]
      simp
    have hnot : sep ∉ post.reverse := fun h => hpost (List.mem_reverse.mp h)
    rw [hs, hback hnot] at h
    obtain rfl := Option.some.inj h
    exact ⟨pre.reverse, hs, hnot⟩
  · rintro ⟨name, rfl, hp⟩
    exact hback hp

/-! ### What the API says -/

/-- The port a host ends with: a number behind the last colon, and not zero. -/
def HostPort (host : List Char) (port : BitVec 16) : Prop :=
  ∃ name tail t n, host = name ++ ':' :: tail ∧ ':' ∉ tail ∧ Trimmed tail t ∧ Numeral t n ∧
    0 < n ∧ n < 2 ^ 16 ∧ port = BitVec.ofNat 16 n

/-- The port of the host, and the one of WARP where the host has none. -/
def PortOf (endpoint : Endpoint) (port : BitVec 16) : Prop :=
  HostPort endpoint.host.toList port ∨
    (∀ q, ¬ HostPort endpoint.host.toList q) ∧ port = 2408#16

/-- A field of the API holds an address, with a port or without. -/
def FieldAddr (parse : AddrParse) (raw : String) (ip : IpAddr) : Prop :=
  ∃ t, Trimmed raw.toList t ∧ t ≠ [] ∧
    ((∃ socket, parse.socketAddr t = some socket ∧ socket.ip = ip) ∨
      parse.socketAddr t = none ∧ parse.ipAddr t = some ip)

def ApiAddr (parse : AddrParse) (endpoint : Endpoint) (ip : IpAddr) : Prop :=
  FieldAddr parse endpoint.v4 ip ∨ FieldAddr parse endpoint.v6 ip

def HostLookup.Gives (lookup : HostLookup) (e : SocketAddr) : Prop :=
  ∃ addrs, lookup = .found addrs ∧ e ∈ addrs

structure Resolved (parse : AddrParse) (lookup : HostLookup) (endpoint : Endpoint)
    (candidates : List SocketAddr) : Prop where
  once : candidates.Nodup
  order : ∀ addrs, lookup = .found addrs → firstOccurrences addrs <+: candidates
  all : ∃ port, PortOf endpoint port ∧ port ≠ 0 ∧ ∀ e, e ∈ candidates ↔
    lookup.Gives e ∨ ∃ ip, ApiAddr parse endpoint ip ∧ e = .new ip port
  tried : ∀ base, ∃ cfg, withEndpoints base candidates = some cfg ∧
    candidates.head? = some cfg.peerEndpoint ∧ candidates <+: endpointAttempts cfg ∧
    ∀ worked c, Rebuilds cfg worked c → ∀ k, k ∈ (endpointAttempts c).map endpointKey ↔
      k ∈ (endpointAttempts cfg).map endpointKey

variable {parse : AddrParse} {lookup : HostLookup} {endpoint : Endpoint}
  {candidates : List SocketAddr}

theorem hostPort_iff {host : List Char} {port : BitVec 16} : HostPort host port ↔
    ((afterLast ':' host).bind fun p => parseU16 (trim p)).filter (· ≠ 0) = some port := by
  have hzero {n : ℕ} (hn : n < 2 ^ 16) : BitVec.ofNat 16 n ≠ 0 ↔ 0 < n := by
    rw [ne_eq, ← BitVec.toNat_inj, BitVec.toNat_ofNat, Nat.mod_eq_of_lt hn, Nat.pos_iff_ne_zero]
    rfl
  rw [Option.filter_eq_some_iff, Option.bind_eq_some_iff, decide_eq_true_iff]
  constructor
  · rintro ⟨name, tail, t, n, hhost, htail, ht, hnum, hpos, hlt, rfl⟩
    refine ⟨⟨tail, afterLast_eq_some_iff.mpr ⟨name, hhost, htail⟩, ?_⟩, (hzero hlt).mpr hpos⟩
    rw [ht.trim_eq]
    exact parseU16_eq_some_iff.mpr ⟨n, hnum, hlt, rfl⟩
  · rintro ⟨⟨tail, htail, hport⟩, hne⟩
    obtain ⟨name, hhost, hnot⟩ := afterLast_eq_some_iff.mp htail
    obtain ⟨n, hnum, hlt, rfl⟩ := parseU16_eq_some_iff.mp hport
    exact ⟨name, tail, trim tail, n, hhost, hnot, trimmed_trim tail, hnum, (hzero hlt).mp hne, hlt,
      rfl⟩

theorem portOf_endpointPort (endpoint : Endpoint) : PortOf endpoint (endpointPort endpoint) := by
  unfold endpointPort
  cases h : Option.filter (· ≠ 0)
      ((afterLast ':' endpoint.host.toList).bind fun p => parseU16 (trim p)) with
  | none =>
    refine .inr ⟨fun q hq => ?_, rfl⟩
    rw [hostPort_iff, h] at hq
    cases hq
  | some port => exact .inl (hostPort_iff.mpr h)

theorem endpointPort_ne_zero (endpoint : Endpoint) : endpointPort endpoint ≠ 0 := by
  rcases portOf_endpointPort endpoint with h | ⟨_, h⟩
  · have hne := (Option.filter_eq_some_iff.mp (hostPort_iff.mp h)).2
    exact of_decide_eq_true hne
  · rw [h]
    decide

theorem parseApiEndpoint_eq_some_iff {raw : String} {port : BitVec 16} {e : SocketAddr} :
    parseApiEndpoint parse raw port = some e ↔ ∃ ip, FieldAddr parse raw ip ∧ e = .new ip port := by
  have hfield (ip : IpAddr) : FieldAddr parse raw ip ↔ trim raw.toList ≠ [] ∧
      ((∃ socket, parse.socketAddr (trim raw.toList) = some socket ∧ socket.ip = ip) ∨
        parse.socketAddr (trim raw.toList) = none ∧ parse.ipAddr (trim raw.toList) = some ip) := by
    constructor
    · rintro ⟨t, ht, h⟩
      rwa [ht.trim_eq]
    · exact fun h => ⟨_, trimmed_trim _, h⟩
  simp only [hfield]
  unfold parseApiEndpoint
  dsimp only
  split
  · next hempty => simp [hempty]
  · next hne =>
    cases hsocket : parse.socketAddr (trim raw.toList) with
    | some socket => simp [hne, eq_comm]
    | none => simp [hne, eq_comm]

theorem pushUnique_eq : pushUnique = appendNew := rfl

def apiCandidates (parse : AddrParse) (endpoint : Endpoint) : List SocketAddr :=
  (parseApiEndpoint parse endpoint.v4 (endpointPort endpoint)).toList ++
    (parseApiEndpoint parse endpoint.v6 (endpointPort endpoint)).toList

theorem elim_appendNew (l : List SocketAddr) (o : Option SocketAddr) :
    o.elim l (appendNew l) = o.toList.foldl appendNew l := by
  cases o <;> rfl

theorem mergeEndpointCandidates_eq (parse : AddrParse) (dns : List SocketAddr)
    (endpoint : Endpoint) :
    mergeEndpointCandidates parse dns endpoint =
      (if firstOccurrences (dns ++ apiCandidates parse endpoint) = [] then
        .error (candidatesEmpty endpoint)
      else .ok (firstOccurrences (dns ++ apiCandidates parse endpoint))) := by
  rw [← foldl_appendNew_nil, List.foldl_append, apiCandidates, List.foldl_append]
  simp only [mergeEndpointCandidates, pushUnique_eq, elim_appendNew]

theorem resolvePeerEndpoints_eq (parse : AddrParse) (lookup : HostLookup) (endpoint : Endpoint) :
    resolvePeerEndpoints parse lookup endpoint =
      mergeEndpointCandidates parse (firstOccurrences lookup.addrs) endpoint := by
  rw [resolvePeerEndpoints, pushUnique_eq, foldl_appendNew_nil]

theorem mem_apiCandidates {e : SocketAddr} : e ∈ apiCandidates parse endpoint ↔
    ∃ ip, ApiAddr parse endpoint ip ∧ e = .new ip (endpointPort endpoint) := by
  rw [apiCandidates, List.mem_append, Option.mem_toList, Option.mem_toList,
    parseApiEndpoint_eq_some_iff, parseApiEndpoint_eq_some_iff, ← exists_or]
  exact exists_congr fun ip => or_and_right.symm

theorem HostLookup.mem_addrs {e : SocketAddr} : e ∈ lookup.addrs ↔ lookup.Gives e := by
  cases lookup with
  | found l => simp [HostLookup.addrs, Gives]
  | timedOut => simp [HostLookup.addrs, Gives]
  | failed t => simp [HostLookup.addrs, Gives]

theorem firstOccurrences_append_prefix (l k : List SocketAddr) (h : l.Nodup) :
    l <+: firstOccurrences (l ++ k) := by
  rw [← foldl_appendNew_nil, List.foldl_append, foldl_appendNew_nil, firstOccurrences_eq_self h,
    foldl_appendNew]
  exact List.prefix_append _ _

/-- The active endpoint is the first candidate, so the attempts begin with the candidates. -/
theorem prefix_endpointAttempts {cfg : WireGuardConfig} (hn : candidates.Nodup)
    (hhead : candidates.head? = some cfg.peerEndpoint)
    (hcs : cfg.peerEndpointCandidates = candidates) :
    candidates <+: endpointAttempts cfg := by
  obtain ⟨rest, hrest⟩ := List.head?_eq_some_iff.mp hhead
  have hbases : firstOccurrences cfg.bases = candidates := by
    have hdrop : (firstOccurrences candidates).filter (· ≠ cfg.peerEndpoint) = rest := by
      rw [firstOccurrences_eq_self hn, hrest, List.filter_cons_of_neg (by simp),
        List.filter_eq_self]
      intro e he
      have hnot := (List.nodup_cons.mp (hrest ▸ hn)).1
      exact decide_eq_true fun heq => hnot (heq ▸ he)
    rw [WireGuardConfig.bases, hcs, firstOccurrences, hdrop, hrest]
  rw [endpointAttempts_eq, endpointBases_eq, hbases, foldl_appendNew_nil,
    firstOccurrences_eq_self hn, foldl_appendNew]
  exact List.prefix_append _ _

theorem attempts_after_rebuilds {cfg c : WireGuardConfig} {worked : List SocketAddr}
    (hpeer : cfg.peerEndpoint ∈ cfg.peerEndpointCandidates) (h : Rebuilds cfg worked c)
    (k : IpAddr × BitVec 16) : k ∈ (endpointAttempts c).map endpointKey ↔
      k ∈ (endpointAttempts cfg).map endpointKey := by
  have hoffered : Offered cfg (endpointKey cfg.peerEndpoint) := .inl (List.mem_map_of_mem hpeer)
  obtain ⟨hcs, hc⟩ := h.offered hoffered
  rw [key_mem_attempts_iff hc, key_mem_attempts_iff hoffered, Offered, Offered, hcs]

/-- The candidates of a fresh configuration: an error only if neither the lookup nor the API has an
address, else all of them, each once, the lookup's first and in its order, the API's with the port
of the host and never port zero. The configuration starts with the first of them; its handshakes
try all of them before any fallback port, and whichever endpoints later failovers choose, the same
addresses and ports are tried again. -/
theorem fresh_config_endpoints (parse : AddrParse) (lookup : HostLookup) (endpoint : Endpoint) :
    (resolvePeerEndpoints parse lookup endpoint = .error (candidatesEmpty endpoint) ∧
      (∀ e, ¬ lookup.Gives e) ∧ ∀ ip, ¬ ApiAddr parse endpoint ip) ∨
    ∃ candidates, resolvePeerEndpoints parse lookup endpoint = .ok candidates ∧
      Resolved parse lookup endpoint candidates := by
  have hmem (e : SocketAddr) : e ∈ firstOccurrences (firstOccurrences lookup.addrs ++
      apiCandidates parse endpoint) ↔
        lookup.Gives e ∨ ∃ ip, ApiAddr parse endpoint ip ∧ e = .new ip (endpointPort endpoint) := by
    rw [mem_firstOccurrences, List.mem_append, mem_firstOccurrences, HostLookup.mem_addrs,
      mem_apiCandidates]
  rw [resolvePeerEndpoints_eq, mergeEndpointCandidates_eq]
  split
  · next hempty =>
    rw [hempty] at hmem
    refine .inl ⟨rfl, fun e he => ?_, fun ip hip => ?_⟩
    · exact List.not_mem_nil ((hmem e).mpr (.inl he))
    · exact List.not_mem_nil ((hmem _).mpr (.inr ⟨ip, hip, rfl⟩))
  · next hne =>
    refine .inr ⟨_, rfl, firstOccurrences_nodup _, ?_, ?_, fun base => ?_⟩
    · rintro addrs rfl
      exact firstOccurrences_append_prefix _ _ (firstOccurrences_nodup _)
    · exact ⟨_, portOf_endpointPort endpoint, endpointPort_ne_zero endpoint, hmem⟩
    · have hnodup := firstOccurrences_nodup
        (firstOccurrences lookup.addrs ++ apiCandidates parse endpoint)
      obtain ⟨first, rest, hcons⟩ := List.exists_cons_of_ne_nil hne
      rw [hcons] at hnodup ⊢
      exact ⟨_, rfl, rfl, prefix_endpointAttempts hnodup rfl rfl,
        fun worked c h => attempts_after_rebuilds List.mem_cons_self h⟩

def anycastParse : AddrParse where
  socketAddr t := if t = "162.159.192.7:0".toList then some (.v4 0xa29fc007 0) else none
  ipAddr t :=
    if t = "2606:4700::7".toList then some (.v6 0x26064700000000000000000000000007) else none

def anycast : Endpoint := ⟨"engage.cloudflareclient.com:4500", "162.159.192.7:0", " 2606:4700::7"⟩

theorem fresh_config_endpoints_anycast :
    ∃ candidates, Resolved anycastParse (.found [.v4 0xa29fc001 4500]) anycast candidates ∧
      candidates = [.v4 0xa29fc001 4500, .v4 0xa29fc007 4500,
        .v6 0x26064700000000000000000000000007 4500 0 0] := by
  have hok : resolvePeerEndpoints anycastParse (.found [.v4 0xa29fc001 4500]) anycast =
      .ok [.v4 0xa29fc001 4500, .v4 0xa29fc007 4500,
        .v6 0x26064700000000000000000000000007 4500 0 0] := by
    rfl
  rcases fresh_config_endpoints anycastParse (.found [.v4 0xa29fc001 4500]) anycast with
    ⟨h, _⟩ | ⟨candidates, h, hr⟩
  · rw [hok] at h
    cases h
  · exact ⟨candidates, hr, Except.ok.inj (h.symm.trans hok)⟩

end WarpRust.Warp
