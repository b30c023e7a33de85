import Mathlib.Data.List.GetD
import WarpRust.Library.Lists
import WarpRust.Tunnel.Connect

/-!
# Endpoints over failovers

Which endpoints a configuration offers, in closed form, and why replacing the active one by
any of them loses none. Over runs an endpoint is its address and port: the expansion drops
the flow info and scope id of an IPv6 candidate.
-/

namespace WarpRust.Tunnel
open Library

def WireGuardConfig.bases (cfg : WireGuardConfig) : List SocketAddr :=
  cfg.peerEndpoint :: cfg.peerEndpointCandidates

def expansions (base : SocketAddr) : List SocketAddr :=
  (endpointPorts base.port).map (SocketAddr.new base.ip)

theorem pushNew_eq : pushNew = appendNew := rfl

theorem mem_endpointPorts {p q : BitVec 16} :
    q ∈ endpointPorts p ↔ q = p ∨ q ∈ warpWgFallbackPorts := by
  by_cases h : q = p <;> simp [endpointPorts, h]

theorem mem_expansions {b e : SocketAddr} : e ∈ expansions b ↔
    ∃ p, (p = b.port ∨ p ∈ warpWgFallbackPorts) ∧ e = .new b.ip p := by
  simp only [expansions, List.mem_map, mem_endpointPorts, eq_comm]

theorem endpointBases_eq (cfg : WireGuardConfig) :
    endpointBases cfg = firstOccurrences cfg.bases := by
  rw [endpointBases, pushNew_eq, foldl_appendNew, WireGuardConfig.bases, firstOccurrences,
    List.singleton_append]
  simp only [List.mem_singleton]

theorem endpointAttempts_eq (cfg : WireGuardConfig) : endpointAttempts cfg =
    ((endpointBases cfg).flatMap expansions).foldl appendNew
      ((endpointBases cfg).foldl appendNew []) := by
  rw [List.foldl_flatMap]
  simp only [endpointAttempts, expansions, List.foldl_map, pushNew_eq]

theorem mem_endpointBases {cfg : WireGuardConfig} {e : SocketAddr} :
    e ∈ endpointBases cfg ↔ e ∈ cfg.bases := by
  rw [endpointBases_eq, mem_firstOccurrences]

theorem mem_endpointAttempts {cfg : WireGuardConfig} {e : SocketAddr} :
    e ∈ endpointAttempts cfg ↔ e ∈ cfg.bases ∨ ∃ b ∈ cfg.bases, ∃ p,
      (p = b.port ∨ p ∈ warpWgFallbackPorts) ∧ e = .new b.ip p := by
  simp only [endpointAttempts_eq, mem_foldl_appendNew, List.not_mem_nil, false_or, List.mem_flatMap,
    mem_endpointBases, mem_expansions]

/-- The attempts: the bases first, the active one at their head, and each base's address with
its own port and the fallback ports. -/
structure Covers (cfg : WireGuardConfig) (l : List SocketAddr) : Prop where
  head : l.head? = some cfg.peerEndpoint
  nodup : l.Nodup
  exact : ∀ e, e ∈ l ↔ e ∈ cfg.bases ∨ ∃ b ∈ cfg.bases, ∃ p,
    (p = b.port ∨ p ∈ warpWgFallbackPorts) ∧ e = .new b.ip p
  order : ∃ first rest, l = first ++ rest ∧ (∀ e ∈ first, e ∈ cfg.bases) ∧
    ∀ e ∈ rest, e ∉ cfg.bases

theorem endpointAttempts_head (cfg : WireGuardConfig) :
    (endpointAttempts cfg).head? = some cfg.peerEndpoint := by
  rw [endpointAttempts_eq, foldl_appendNew, foldl_appendNew_nil, endpointBases_eq,
    WireGuardConfig.bases, firstOccurrences, firstOccurrences]
  rfl

theorem endpointAttempts_covers (cfg : WireGuardConfig) : Covers cfg (endpointAttempts cfg) := by
  refine ⟨endpointAttempts_head cfg, ?_, fun e => mem_endpointAttempts, ?_⟩
  · rw [endpointAttempts_eq]
    exact foldl_appendNew_nodup (foldl_appendNew_nodup List.nodup_nil)
  · refine ⟨_, _, by rw [endpointAttempts_eq, foldl_appendNew], ?_, ?_⟩
    · intro e he
      simpa [mem_foldl_appendNew, mem_endpointBases] using he
    · intro e he hbase
      refine of_decide_eq_true (List.mem_filter.mp he).2 ?_
      simpa [mem_foldl_appendNew, mem_endpointBases] using hbase

/-- An endpoint without the flow info and the scope id. -/
def endpointKey (e : SocketAddr) : IpAddr × BitVec 16 := (e.ip, e.port)

@[simp] theorem endpointKey_new (ip : IpAddr) (p : BitVec 16) :
    endpointKey (.new ip p) = (ip, p) := by
  cases ip <;> rfl

def Offered (cfg : WireGuardConfig) (k : IpAddr × BitVec 16) : Prop :=
  k ∈ cfg.peerEndpointCandidates.map endpointKey ∨
    (∃ c ∈ cfg.peerEndpointCandidates, k.1 = c.ip) ∧ k.2 ∈ warpWgFallbackPorts

inductive Rebuilds (cfg : WireGuardConfig) : List SocketAddr → WireGuardConfig → Prop
  | nil : Rebuilds cfg [] cfg
  | snoc {worked : List SocketAddr} {c : WireGuardConfig} {e : SocketAddr} :
      Rebuilds cfg worked c → e ∈ endpointAttempts c →
      Rebuilds cfg (worked ++ [e]) { c with peerEndpoint := e }

theorem key_mem_attempts {cfg : WireGuardConfig} {k : IpAddr × BitVec 16} :
    k ∈ (endpointAttempts cfg).map endpointKey ↔
      ∃ b ∈ cfg.bases, endpointKey b = k ∨ k.1 = b.ip ∧ k.2 ∈ warpWgFallbackPorts := by
  constructor
  · intro hk
    obtain ⟨e, he, rfl⟩ := List.mem_map.mp hk
    rcases mem_endpointAttempts.mp he with hbase | ⟨b, hb, p, rfl | hp, rfl⟩
    · exact ⟨e, hbase, .inl rfl⟩
    · exact ⟨b, hb, .inl (endpointKey_new b.ip b.port).symm⟩
    · rw [endpointKey_new]
      exact ⟨b, hb, .inr ⟨rfl, hp⟩⟩
  · rintro ⟨b, hb, rfl | ⟨hip, hport⟩⟩
    · exact List.mem_map_of_mem (mem_endpointAttempts.mpr (.inl hb))
    · have hmem := mem_endpointAttempts.mpr (.inr ⟨b, hb, k.2, .inr hport, rfl⟩)
      have hkey := List.mem_map_of_mem (f := endpointKey) hmem
      rw [endpointKey_new, ← hip] at hkey
      exact hkey

/-- As long as the active endpoint is one of those the candidates cover, it adds nothing. -/
theorem key_mem_attempts_iff {cfg : WireGuardConfig} {k : IpAddr × BitVec 16}
    (h : Offered cfg (endpointKey cfg.peerEndpoint)) :
    k ∈ (endpointAttempts cfg).map endpointKey ↔ Offered cfg k := by
  rw [key_mem_attempts]
  constructor
  · rintro ⟨b, hb, hk⟩
    rcases List.mem_cons.mp hb with rfl | hb
    · rcases hk with rfl | ⟨hip, hport⟩
      · exact h
      · refine .inr ⟨?_, hport⟩
        rcases h with hmem | ⟨⟨c, hc, hcip⟩, -⟩
        · obtain ⟨c, hc, hkey⟩ := List.mem_map.mp hmem
          exact ⟨c, hc, hip.trans (congrArg Prod.fst hkey).symm⟩
        · exact ⟨c, hc, hip.trans hcip⟩
    · rcases hk with rfl | ⟨hip, hport⟩
      · exact .inl (List.mem_map_of_mem hb)
      · exact .inr ⟨⟨b, hb, hip⟩, hport⟩
  · rintro (hmem | ⟨⟨c, hc, hip⟩, hport⟩)
    · obtain ⟨c, hc, hkey⟩ := List.mem_map.mp hmem
      exact ⟨c, List.mem_cons_of_mem _ hc, .inl hkey⟩
    · exact ⟨c, List.mem_cons_of_mem _ hc, .inr ⟨hip, hport⟩⟩

section
variable {cfg c : WireGuardConfig} {worked : List SocketAddr}

theorem Rebuilds.offered (h : Rebuilds cfg worked c)
    (hpeer : Offered cfg (endpointKey cfg.peerEndpoint)) :
    c.peerEndpointCandidates = cfg.peerEndpointCandidates ∧
      Offered c (endpointKey c.peerEndpoint) := by
  induction h with
  | nil => exact ⟨rfl, hpeer⟩
  | snoc _ he ih => exact ⟨ih.1, (key_mem_attempts_iff ih.2).mp (List.mem_map_of_mem he)⟩

theorem Rebuilds.peerEndpoint_eq (h : Rebuilds cfg worked c) :
    c.peerEndpoint = worked.getLastD cfg.peerEndpoint := by
  cases h with
  | nil => rfl
  | snoc _ _ => exact List.getLastD_concat.symm

end

theorem spawnNext_append (probes pending : List SocketAddr) :
    (spawnNext probes pending).1 ++ (spawnNext probes pending).2 = probes ++ pending := by
  cases pending with
  | nil => rfl
  | cons e pending => exact List.append_assoc probes [e] pending

theorem tryEndpoint_endpoint {c candidate : WireGuardConfig} {endpoint : SocketAddr} {j : Joined}
    {r : Except NetstackError ManagedTunnel} (h : tryEndpoint c endpoint j = .ok (candidate, r)) :
    candidate.peerEndpoint = endpoint := by
  cases j with
  | connected | failed e =>
    cases h
    rfl
  | panicked t => cases h

theorem joinLoop_endpoint {net : Network} {c : WireGuardConfig} {t : ConnectedTunnel} {rounds : ℕ}
    {probes pending : List SocketAddr} {failures : List (SocketAddr × Text)}
    (h : joinLoop net c rounds probes pending failures = .ok t) :
    t.config.peerEndpoint ∈ probes ++ pending := by
  induction rounds generalizing probes pending failures with
  | zero => cases h
  | succ rounds ih =>
    cases probes with
    | nil => cases h
    | cons probe probes =>
      have hrest {i : ℕ} {e : SocketAddr}
          (he : e ∈ (spawnNext ((probe :: probes).eraseIdx i) pending).1 ++
            (spawnNext ((probe :: probes).eraseIdx i) pending).2) :
          e ∈ probe :: probes ++ pending := by
        rw [spawnNext_append] at he
        rcases List.mem_append.mp he with he | he
        · exact List.mem_append_left _ (List.mem_of_mem_eraseIdx he)
        · exact List.mem_append_right _ he
      simp only [joinLoop] at h
      split at h
      next candidate managed htry =>
        obtain rfl := Except.ok.inj h
        have hi : net.pick rounds % (probe :: probes).length < (probe :: probes).length :=
          Nat.mod_lt _ (Nat.succ_pos _)
        rw [tryEndpoint_endpoint htry, List.getD_eq_getElem _ _ hi]
        exact List.mem_append_left _ (List.getElem_mem hi)
      next => exact hrest (ih h)
      next => exact hrest (ih h)

theorem Rebuilds.connected {net : Network} {cfg c : WireGuardConfig} {worked : List SocketAddr}
    {t : ConnectedTunnel} (h : Rebuilds cfg worked c) (ht : connectCandidate net c = .ok t) :
    Rebuilds cfg (worked ++ [t.config.peerEndpoint]) t.config := by
  have hmem : t.config.peerEndpoint ∈ endpointAttempts c := by
    have hloop := ht
    simp only [connectCandidate, maxParallelEndpointAttempts, List.replicate, List.foldl] at hloop
    simpa only [spawnNext_append, List.nil_append] using joinLoop_endpoint hloop
  have hnext := h.snoc hmem
  rwa [← (connectCandidate_for ht).config_eq] at hnext

theorem endpoints_survive_failover :
    (∀ cfg, Covers cfg (endpointAttempts cfg)) ∧
    ∀ (cfg c : WireGuardConfig) (worked : List SocketAddr),
      endpointKey cfg.peerEndpoint ∈ cfg.peerEndpointCandidates.map endpointKey →
      Rebuilds cfg worked c →
      (∀ k, k ∈ (endpointAttempts c).map endpointKey ↔ k ∈ (endpointAttempts cfg).map endpointKey) ∧
      (endpointAttempts c).head? = some (worked.getLastD cfg.peerEndpoint) := by
  refine ⟨endpointAttempts_covers, fun cfg c worked hpeer hr => ⟨fun k => ?_, ?_⟩⟩
  · have hoffered : Offered cfg (endpointKey cfg.peerEndpoint) := .inl hpeer
    obtain ⟨hcandidates, hc⟩ := hr.offered hoffered
    rw [key_mem_attempts_iff hc, key_mem_attempts_iff hoffered, Offered, Offered, hcandidates]
  · rw [endpointAttempts_head, hr.peerEndpoint_eq]

def endpointConfig (peer : SocketAddr) (candidates : List SocketAddr) : WireGuardConfig where
  privateKey := 0
  peerPublicKey := 0
  peerEndpoint := peer
  peerEndpointCandidates := candidates
  tunnelIp := 0
  tunnelIpv6 := none
  presharedKey := none
  keepaliveSeconds := none
  mtu := none
  tcpBufferSize := none

theorem endpoints_survive_failover_once :
    (endpointAttempts (endpointConfig (.v4 1 500) [.v4 1 2408])).head? = some (.v4 1 500) :=
  (endpoints_survive_failover.2 (endpointConfig (.v4 1 2408) [.v4 1 2408]) _ _ (by decide)
    (Rebuilds.nil.snoc (e := .v4 1 500) (by decide))).2

/-- The port of an IPv6 endpoint with a scope id, tried without it. -/
theorem expansion_drops_scope : ¬ ∀ cfg : WireGuardConfig, ∀ e ∈ endpointAttempts cfg,
    e ∈ cfg.bases ∨ (∃ b ∈ cfg.bases, e.ip = b.ip) ∧ e.port ∈ warpWgFallbackPorts := by
  intro h
  have hmem : SocketAddr.v6 1 9999 0 0 ∈ endpointAttempts (endpointConfig (.v6 1 9999 0 1) []) := by
    decide
  exact absurd (h _ _ hmem) (by decide)

end WarpRust.Tunnel
