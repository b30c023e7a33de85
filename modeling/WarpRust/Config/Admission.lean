import WarpRust.Config

/-!
# What an accepted configuration guarantees

One lemma for each check of the validator, as an equivalence, and from them the two laws
of the start-up check that do not involve the rest of the program: who may reach the
proxy, and when the defaults fit the machine.
-/

namespace WarpRust
open Library.Binary64 (Double)

structure AuthConfig.Strong (a : AuthConfig) : Prop where
  username_nonempty : a.username ≠ ""
  length : 16 ≤ a.password.utf8ByteSize
  lowercase : ∃ c ∈ a.password.toUTF8.toList, 97 ≤ c ∧ c ≤ 122
  uppercase : ∃ c ∈ a.password.toUTF8.toList, 65 ≤ c ∧ c ≤ 90
  digit : ∃ c ∈ a.password.toUTF8.toList, 48 ≤ c ∧ c ≤ 57

structure ServerConfig.ContainerExempt (s : ServerConfig) (isContainer trustedHostNet : Bool) :
    Prop where
  auth_absent : s.auth = none
  container : isContainer = true
  trusted : trustedHostNet = true
  bind_unspecified : s.bind.ip = .unspecifiedV4

namespace Config

section
variable {h : HostFacts} {s : ServerConfig} {isContainer trustedHostNet : Bool}

theorem checkOpenProxy_ok (hok : checkOpenProxy h s isContainer trustedHostNet = .ok ())
    (hip : s.bind.ip.isLoopback = false) (hoverride : h.allowOpenProxy = false) :
    s.auth.isSome ∨ s.ContainerExempt isContainer trustedHostNet := by
  cases hauth : s.auth with
  | some a => exact .inl rfl
  | none =>
    refine .inr ?_
    simp only [checkOpenProxy, hip, hauth, hoverride, Bool.not_false, Option.isNone_none,
      Bool.and_self, if_true, Bool.false_eq_true, if_false] at hok
    split at hok
    · rename_i hexempt
      simp only [Bool.and_eq_true, beq_iff_eq] at hexempt
      exact ⟨hauth, hexempt.1.1, hexempt.2, hexempt.1.2⟩
    · cases hok

theorem strongPassword_iff {p : String} : strongPassword p = true ↔ 16 ≤ p.utf8ByteSize ∧
    (∃ c ∈ p.toUTF8.toList, 97 ≤ c ∧ c ≤ 122) ∧ (∃ c ∈ p.toUTF8.toList, 65 ≤ c ∧ c ≤ 90) ∧
    ∃ c ∈ p.toUTF8.toList, 48 ≤ c ∧ c ≤ 57 := by
  simp only [strongPassword, isAsciiLowercase, isAsciiUppercase, isAsciiDigit, Bool.and_eq_true,
    decide_eq_true_eq, List.any_eq_true, and_assoc]

theorem checkAuth_ok {a : AuthConfig} (hok : checkAuth s = .ok ())
    (hip : s.bind.ip.isLoopback = false) (hauth : s.auth = some a) : a.Strong := by
  simp only [checkAuth, hauth, seq_eq_ok, reject_eq_ok, hip, Bool.not_false, Bool.true_and,
    Bool.not_eq_false'] at hok
  obtain ⟨hnonempty, -, hstrong⟩ := hok
  obtain ⟨hlen, hlower, hupper, hdigit⟩ := strongPassword_iff.mp hstrong
  have huser : a.username.isEmpty = false := (Bool.or_eq_false_iff.mp hnonempty).1
  refine ⟨?_, hlen, hlower, hupper, hdigit⟩
  rintro hempty
  simp [hempty] at huser

end

/-- The open-proxy check comes first and the credential check last; an accepted bind that
is not loopback passed both. -/
theorem validateWith_exposure {h : HostFacts} {cfg : Config} {isContainer trustedHostNet : Bool}
    (hv : validateWith h cfg isContainer trustedHostNet = .ok ())
    (hip : cfg.server.bind.ip.isLoopback = false) :
    (h.allowOpenProxy = false → (∃ a, cfg.server.auth = some a ∧ a.Strong) ∨
      cfg.server.ContainerExempt isContainer trustedHostNet) ∧
    ∀ a, cfg.server.auth = some a → a.Strong := by
  simp only [validateWith, seq_eq_ok] at hv
  obtain ⟨hopen, -, -, -, -, -, -, -, hauth⟩ := hv
  have hstrong : ∀ a, cfg.server.auth = some a → a.Strong := fun a ha => checkAuth_ok hauth hip ha
  refine ⟨fun hoverride => ?_, hstrong⟩
  rcases checkOpenProxy_ok hopen hip hoverride with hsome | hexempt
  · obtain ⟨a, ha⟩ := Option.isSome_iff_exists.mp hsome
    exact .inl ⟨a, ha, hstrong a ha⟩
  · exact .inr hexempt

theorem validateWith_exposure_public :
    ((∃ a, some (⟨"proxy", "Correct1Horse2Battery"⟩ : AuthConfig) = some a ∧ a.Strong) ∨
      (⟨.v4 0 1080, some ⟨"proxy", "Correct1Horse2Battery"⟩⟩ : ServerConfig).ContainerExempt
        false false) ∧
    (⟨"proxy", "Correct1Horse2Battery"⟩ : AuthConfig).Strong :=
  have hv : validateWith ⟨false, none⟩ { Config.default none with
      server := ⟨.v4 0 1080, some ⟨"proxy", "Correct1Horse2Battery"⟩⟩ } false false = .ok () := by
    decide +kernel
  have h := validateWith_exposure hv (by decide)
  ⟨h.1 rfl, h.2 _ rfl⟩

end Config

structure BuffersInRange (w : WarpConfig) (l : LimitsConfig) : Prop where
  tcp : 65535 ≤ w.tcpBufferSize ∧ w.tcpBufferSize ≤ 8 * 1024 * 1024
  relay : 4096 ≤ l.relayBufferSize ∧ l.relayBufferSize ≤ 1024 * 1024

/-- The ports that full load takes from the pool, as the validator counts them. -/
def LimitsConfig.ports (l : LimitsConfig) : ℕ :=
  l.maxConcurrentConnections + l.maxPendingDials * (l.maxParallelDials - 1)

def bufferBytes (w : WarpConfig) (l : LimitsConfig) : ℕ :=
  (2 * w.tcpBufferSize + 2 * l.relayBufferSize) * l.maxConcurrentConnections +
    2 * w.tcpBufferSize * (l.maxParallelDials - 1) * l.maxPendingDials

namespace Config

theorem saturatingMul_eq {a b : ℕ} (h : a * b < 2 ^ 52) : saturatingMul a b = a * b :=
  Nat.min_eq_left (h.le.trans (by decide))

theorem saturatingAdd_eq {a b : ℕ} (h : a + b < 2 ^ 52) : saturatingAdd a b = a + b :=
  Nat.min_eq_left (h.le.trans (by decide))

section
variable {w : WarpConfig} {l : LimitsConfig}

theorem checkBuffers_ok_iff : checkBuffers w l = .ok () ↔ BuffersInRange w l := by
  simp only [checkBuffers, seq_eq_ok, reject_eq_ok, decide_eq_false_iff_not, not_lt]
  constructor
  · intro ⟨htcp, htcp', hrelay, hrelay'⟩
    exact ⟨⟨htcp, htcp'⟩, hrelay, hrelay'⟩
  · intro ⟨⟨htcp, htcp'⟩, hrelay, hrelay'⟩
    exact ⟨htcp, htcp', hrelay, hrelay'⟩

theorem dialPorts_le (hl : l.InRange) : l.maxPendingDials * (l.maxParallelDials - 1) ≤ 16384 * 3 :=
  Nat.mul_le_mul (hl.pending.2.trans hl.connections.2) (Nat.sub_le_sub_right hl.parallel.2 1)

theorem saturating_ports (hl : l.InRange) :
    saturatingAdd l.maxConcurrentConnections
      (saturatingMul l.maxPendingDials (l.maxParallelDials - 1)) = l.ports := by
  have hdial := dialPorts_le hl
  have hconn := hl.connections.2
  rw [saturatingMul_eq (by omega), saturatingAdd_eq (by omega), LimitsConfig.ports]

theorem checkLimits_ok_iff : checkLimits l = .ok () ↔ l.InRange ∧ l.ports ≤ 32768 := by
  constructor
  · intro hok
    have hl := checkLimits_ok hok
    refine ⟨hl, ?_⟩
    simp only [checkLimits, seq_eq_ok, reject_eq_ok, decide_eq_false_iff_not, not_lt] at hok
    rw [← saturating_ports hl]
    exact hok.2.2.2.2.2.2.2
  · rintro ⟨hl, hports⟩
    simp only [checkLimits, seq_eq_ok, reject_eq_ok, Bool.or_eq_false_iff, beq_eq_false_iff_ne,
      Bool.not_eq_false', Bool.and_eq_true, decide_eq_true_eq, decide_eq_false_iff_not, not_lt,
      saturating_ports hl]
    exact ⟨hl.connections, ⟨Nat.ne_of_gt hl.pending.1, hl.pending.2⟩, hl.connectTimeout_pos.ne',
      ⟨hl.handshakeTimeout_pos.ne', hl.idleTimeout_pos.ne'⟩, hl.delay_pos.ne', hl.candidates,
      hl.parallel, hports⟩

theorem bufferBytes_lt (hb : BuffersInRange w l) (hl : l.InRange) : bufferBytes w l < 2 ^ 42 := by
  have hslot : (2 * w.tcpBufferSize + 2 * l.relayBufferSize) * l.maxConcurrentConnections ≤
      (2 * (8 * 1024 * 1024) + 2 * (1024 * 1024)) * 16384 :=
    Nat.mul_le_mul (by have := hb.tcp.2; have := hb.relay.2; omega) hl.connections.2
  have hdial : 2 * w.tcpBufferSize * (l.maxParallelDials - 1) * l.maxPendingDials ≤
      2 * (8 * 1024 * 1024) * 3 * 16384 :=
    Nat.mul_le_mul
      (Nat.mul_le_mul (Nat.mul_le_mul_left 2 hb.tcp.2) (Nat.sub_le_sub_right hl.parallel.2 1))
      (hl.pending.2.trans hl.connections.2)
  rw [bufferBytes]
  omega

theorem bufferBytes_pos (hb : BuffersInRange w l) (hl : l.InRange) : 0 < bufferBytes w l := by
  have hslot : 0 < (2 * w.tcpBufferSize + 2 * l.relayBufferSize) * l.maxConcurrentConnections :=
    Nat.mul_pos (by have := hb.tcp.1; omega) hl.connections.1
  rw [bufferBytes]
  omega

theorem capacity_eq (hb : BuffersInRange w l) (hl : l.InRange) :
    capacity w l = bufferBytes w l := by
  have hbytes := bufferBytes_lt hb hl
  rw [bufferBytes] at hbytes
  have htcp := hb.tcp.2
  have hrelay := hb.relay.2
  have hattempts : 2 * w.tcpBufferSize * (l.maxParallelDials - 1) ≤ 2 * (8 * 1024 * 1024) * 3 :=
    Nat.mul_le_mul (Nat.mul_le_mul_left 2 htcp) (Nat.sub_le_sub_right hl.parallel.2 1)
  have hpair (n : ℕ) (hn : n ≤ 8 * 1024 * 1024) : saturatingMul n 2 = 2 * n := by
    rw [saturatingMul_eq (by omega), Nat.mul_comm]
  have hslot := saturatingAdd_eq (a := 2 * w.tcpBufferSize) (b := 2 * l.relayBufferSize) (by omega)
  have hslots := saturatingMul_eq (a := 2 * w.tcpBufferSize + 2 * l.relayBufferSize)
    (b := l.maxConcurrentConnections) (by omega)
  have hextra := saturatingMul_eq (a := 2 * w.tcpBufferSize) (b := l.maxParallelDials - 1)
    (by omega)
  have hextras := saturatingMul_eq (a := 2 * w.tcpBufferSize * (l.maxParallelDials - 1))
    (b := l.maxPendingDials) (by omega)
  rw [capacity, hpair _ htcp, hpair _ (by omega), hslot, hslots, hextra, hextras,
    saturatingAdd_eq (by omega), bufferBytes]

theorem checkMemory_ok_iff {h : HostFacts} {total : ℕ} (hb : BuffersInRange w l) (hl : l.InRange)
    (htotal : h.totalSystemMemoryBytes = some total) :
    checkMemory h w l = .ok () ↔ 5 * bufferBytes w l < 4 * total := by
  have hlt := bufferBytes_lt hb hl
  have hpos := bufferBytes_pos hb hl
  simp only [checkMemory, htotal, reject_eq_ok, capacity_eq hb hl]
  rcases Nat.eq_zero_or_pos total with rfl | htotalpos
  · have hne : Library.Binary64.round (bufferBytes w l : ℕ) ≠ 0 := by
      rw [Library.Binary64.round_natCast (by omega)]
      exact_mod_cast hpos.ne'
    have hround : Library.Binary64.round ((0 : ℕ) : ℚ) = 0 :=
      (Library.Binary64.round_natCast (by norm_num)).trans Nat.cast_zero
    simp only [Double.ofNat, Double.div, hround, if_true, hne, if_false, Double.ge,
      Double.fourFifths]
    constructor
    · intro hfalse
      cases hfalse
    · intro hlt
      omega
  · rw [← not_le, ← Double.div_ge_fourFifths_iff htotalpos (by omega), Bool.not_eq_true]

theorem ratio_lt_iff {total : ℕ} (hb : BuffersInRange w l) (hl : l.InRange) (hpos : 0 < total) :
    (capacity w l : ℚ) / total < 4 / 5 ↔ 5 * bufferBytes w l < 4 * total := by
  have htq : (0 : ℚ) < total := by exact_mod_cast hpos
  rw [capacity_eq hb hl, div_lt_div_iff₀ htq (by norm_num)]
  constructor
  · intro hlt
    have hnat : bufferBytes w l * 5 < 4 * total := by exact_mod_cast hlt
    omega
  · intro hlt
    exact_mod_cast (by omega : bufferBytes w l * 5 < 4 * total)

end

section
variable {h : HostFacts} {cfg : Config} {isContainer trustedHostNet : Bool}

theorem buffers_inRange (hv : validateWith h cfg isContainer trustedHostNet = .ok ()) :
    BuffersInRange cfg.warp cfg.limits := by
  simp only [validateWith, seq_eq_ok] at hv
  exact checkBuffers_ok_iff.mp hv.2.2.2.2.1

theorem ports_le (hv : validateWith h cfg isContainer trustedHostNet = .ok ()) :
    cfg.limits.ports ≤ 32768 := by
  simp only [validateWith, seq_eq_ok] at hv
  exact (checkLimits_ok_iff.mp hv.2.2.2.2.2.1).2

theorem bufferBytes_fits (hv : validateWith h cfg isContainer trustedHostNet = .ok ()) {total : ℕ}
    (htotal : h.totalSystemMemoryBytes = some total) :
    5 * bufferBytes cfg.warp cfg.limits < 4 * total := by
  have hb := buffers_inRange hv
  have hl := limits_inRange hv
  simp only [validateWith, seq_eq_ok] at hv
  exact (checkMemory_ok_iff hb hl htotal).mp hv.2.2.2.2.2.2.2.1

/-- Where only buffers and limits differ from an accepted configuration, only the checks that
read them are left. -/
theorem validateWith_of_limits {cfg' : Config}
    (hv : validateWith h cfg isContainer trustedHostNet = .ok ())
    (hserver : cfg'.server = cfg.server) (hmtu : cfg'.warp.mtu = cfg.warp.mtu)
    (hhealth : cfg'.health = cfg.health) (hrecovery : cfg'.recovery = cfg.recovery)
    (hdns : cfg'.dns = cfg.dns) (hb : BuffersInRange cfg'.warp cfg'.limits)
    (hl : cfg'.limits.InRange) (hports : cfg'.limits.ports ≤ 32768)
    (hmemory : ∀ total, h.totalSystemMemoryBytes = some total →
      5 * bufferBytes cfg'.warp cfg'.limits < 4 * total) :
    validateWith h cfg' isContainer trustedHostNet = .ok () := by
  have hcheck : checkMemory h cfg'.warp cfg'.limits = .ok () := by
    cases htotal : h.totalSystemMemoryBytes with
    | none => rw [checkMemory, htotal]
    | some total => exact (checkMemory_ok_iff hb hl htotal).mpr (hmemory total htotal)
  simp only [validateWith, seq_eq_ok, hserver, hmtu, hhealth, hrecovery, hdns] at hv ⊢
  obtain ⟨hopen, hrange, htargets, hladder, -, -, hservers, -, hauth⟩ := hv
  exact ⟨hopen, hrange, htargets, hladder, checkBuffers_ok_iff.mpr hb,
    checkLimits_ok_iff.mpr ⟨hl, hports⟩, hservers, hcheck, hauth⟩

end

/-! ### The defaults -/

structure MeetsLimits (cfg : Config) (total : ℕ) : Prop where
  connections : 1 ≤ cfg.limits.maxConcurrentConnections ∧
    cfg.limits.maxConcurrentConnections ≤ 16384
  pending : cfg.limits.maxPendingDials ≤ cfg.limits.maxConcurrentConnections
  ports : cfg.limits.ports ≤ 32768
  memory : (capacity cfg.warp cfg.limits : ℚ) / total < 4 / 5

theorem defaultMaxConcurrentConnections_range (total : Option ℕ) :
    1024 ≤ defaultMaxConcurrentConnections total ∧
      defaultMaxConcurrentConnections total ≤ 16384 := by
  cases total with
  | none => decide
  | some total =>
    exact ⟨le_min (le_max_right _ _) (by norm_num), min_le_right _ _⟩

theorem defaultMaxConcurrentConnections_share {total : ℕ}
    (h : 1024 < defaultMaxConcurrentConnections (some total)) :
    655360 * defaultMaxConcurrentConnections (some total) ≤ total := by
  simp only [defaultMaxConcurrentConnections, defaultTcpBufferBytes, defaultRelayBufferBytes] at h ⊢
  omega

theorem default_buffersInRange (total : Option ℕ) :
    BuffersInRange (Config.default total).warp (Config.default total).limits :=
  ⟨(by decide : 65535 ≤ defaultTcpBufferBytes ∧ defaultTcpBufferBytes ≤ 8 * 1024 * 1024),
    (by decide : 4096 ≤ defaultRelayBufferBytes ∧ defaultRelayBufferBytes ≤ 1024 * 1024)⟩

theorem default_limits_inRange (total : Option ℕ) : (Config.default total).limits.InRange := by
  have hrange := defaultMaxConcurrentConnections_range total
  exact ⟨⟨(by decide : 1 ≤ 1024).trans hrange.1, hrange.2⟩,
    ⟨(by decide : 1 ≤ 512), (by decide : 512 ≤ 1024).trans hrange.1⟩,
    (by decide : 0 < Duration.fromSecs 8), (by decide : 0 < Duration.fromSecs 10),
    (by decide : 0 < Duration.fromSecs 300), (by decide : 0 < Duration.fromMillis 200),
    (by decide : 1 ≤ 8 ∧ 8 ≤ 32), (by decide : 1 ≤ 2 ∧ 2 ≤ 4)⟩

theorem default_ports (total : Option ℕ) :
    (Config.default total).limits.ports = defaultMaxConcurrentConnections total + 512 := by
  simp only [LimitsConfig.ports, Config.default, LimitsConfig.default]

theorem default_bufferBytes (total : Option ℕ) :
    bufferBytes (Config.default total).warp (Config.default total).limits =
      327680 * defaultMaxConcurrentConnections total + 134217728 := by
  simp only [bufferBytes, Config.default, LimitsConfig.default, WarpConfig.default,
    defaultTcpBufferBytes, defaultRelayBufferBytes]

/-- The floor of 1024 connections is what makes the defaults too large for a machine. -/
theorem default_fits_iff {total : ℕ} :
    5 * bufferBytes (Config.default (some total)).warp (Config.default (some total)).limits <
      4 * total ↔ 587202560 < total := by
  rw [default_bufferBytes]
  have hrange := defaultMaxConcurrentConnections_range (some total)
  rcases hrange.1.eq_or_lt with hfloor | habove
  · rw [← hfloor]
    omega
  · have hshare := defaultMaxConcurrentConnections_share habove
    omega

theorem default_checkMemory_ok_iff {h : HostFacts} {total : ℕ}
    (htotal : h.totalSystemMemoryBytes = some total) :
    checkMemory h (Config.default (some total)).warp (Config.default (some total)).limits = .ok () ↔
      587202560 < total := by
  rw [checkMemory_ok_iff (default_buffersInRange _) (default_limits_inRange _) htotal,
    default_fits_iff]

theorem default_ports_le (total : Option ℕ) : (Config.default total).limits.ports ≤ 32768 := by
  have hrange := (defaultMaxConcurrentConnections_range total).2
  rw [default_ports]
  omega

theorem default_validateWith_ok_iff {total : ℕ} (allowOpenProxy isContainer trustedHostNet : Bool) :
    (Config.default (some total)).validateWith ⟨allowOpenProxy, some total⟩ isContainer
      trustedHostNet = .ok () ↔ 587202560 < total := by
  have hopen : checkOpenProxy ⟨allowOpenProxy, some total⟩ (Config.default (some total)).server
      isContainer trustedHostNet = .ok () := rfl
  have hother : reject (decide ((Config.default (some total)).warp.mtu < 576) ||
        decide (1420 < (Config.default (some total)).warp.mtu))
        [.lit "[warp] mtu = ", .nat (Config.default (some total)).warp.mtu,
          .lit " 超出建议范围；请使用 576..=1420，WARP 常用 1280 或 1420"] = .ok () ∧
      checkHealth (Config.default (some total)).health = .ok () ∧
      checkRecovery (Config.default (some total)).recovery = .ok () ∧
      checkDns (Config.default (some total)).dns = .ok () ∧
      checkAuth (Config.default (some total)).server = .ok () := ⟨rfl, rfl, rfl, rfl, rfl⟩
  obtain ⟨hmtu, hhealth, hrecovery, hdns, hauth⟩ := hother
  have hbuffers := checkBuffers_ok_iff.mpr (default_buffersInRange (some total))
  have hlimits := checkLimits_ok_iff.mpr ⟨default_limits_inRange (some total), default_ports_le _⟩
  simp only [validateWith, seq_eq_ok, hopen, hmtu, hhealth, hrecovery, hdns, hauth, hbuffers,
    hlimits, true_and, and_true]
  exact default_checkMemory_ok_iff rfl

theorem default_accepted_iff {total : ℕ} (hpos : 0 < total) (allowOpenProxy isContainer
    trustedHostNet : Bool) :
    ((Config.default (some total)).MeetsLimits total ↔ 587202560 < total) ∧
    ((Config.default (some total)).validateWith ⟨allowOpenProxy, some total⟩ isContainer
      trustedHostNet = .ok () ↔ 587202560 < total) := by
  refine ⟨?_, default_validateWith_ok_iff _ _ _⟩
  have hb := default_buffersInRange (some total)
  have hl := default_limits_inRange (some total)
  rw [← default_fits_iff, ← ratio_lt_iff hb hl hpos]
  exact ⟨fun hm => hm.memory,
    fun hm => ⟨hl.connections, hl.pending.2, default_ports_le _, hm⟩⟩

theorem default_accepted_one_gib :
    0 < 1073741824 ∧
    ((Config.default (some 1073741824)).MeetsLimits 1073741824 ↔ 587202560 < 1073741824) ∧
    ((Config.default (some 1073741824)).validateWith ⟨false, some 1073741824⟩ false false = .ok () ↔
      587202560 < 1073741824) :=
  ⟨by decide, default_accepted_iff (by decide) false false false⟩

theorem default_rejected_small :
    ¬ ∀ total : ℕ, 0 < total → (Config.default (some total)).MeetsLimits total := by
  intro hall
  have hm := (hall 536870912 (by decide)).memory
  rw [capacity_eq (default_buffersInRange _) (default_limits_inRange _), default_bufferBytes,
    (by decide : defaultMaxConcurrentConnections (some 536870912) = 1024)] at hm
  norm_num at hm

end Config
end WarpRust
