import WarpRust.Basic

/-!
# Configuration and its start-up check

`Config.validateWith` is the pure validator of the source: the first check that fails
gives its text. What it reads outside the configuration, the override variable and the
physical memory, is an argument. The checks that only log are left out.
-/

namespace WarpRust
open Library.Binary64 (Double)

structure AuthConfig where
  username : String
  password : String

structure ServerConfig where
  bind : SocketAddr
  auth : Option AuthConfig

structure WarpConfig where
  dataDir : String
  deviceModel : String
  licenseKey : Option String
  refreshInterval : Duration
  registerCooldown : Duration
  mtu : ℕ
  tcpBufferSize : ℕ

structure HealthConfig where
  interval : Duration
  timeout : Duration
  targets : List SocketAddr
  minSuccesses : ℕ

structure RecoveryConfig where
  reconnectAfter : U8
  rebuildConfigAfter : U8
  reregisterAfter : U8
  rotateIdentityAfter : U8
  backoffMin : Duration
  backoffMax : Duration

structure LimitsConfig where
  maxConcurrentConnections : ℕ
  maxPendingDials : ℕ
  handshakeTimeout : Duration
  connectTimeout : Duration
  happyEyeballsDelay : Duration
  maxDialCandidates : ℕ
  maxParallelDials : ℕ
  idleTimeout : Duration
  relayBufferSize : ℕ
  authFailSleep : Duration
  relayCloseGrace : Duration

inductive DnsMode where
  | system
  | tunnel
  deriving DecidableEq

structure DnsConfig where
  mode : DnsMode
  servers : List SocketAddr
  timeout : Duration
  cacheTtl : Duration
  negativeTtl : Duration
  maxCacheEntries : ℕ

structure Config where
  server : ServerConfig
  warp : WarpConfig
  health : HealthConfig
  recovery : RecoveryConfig
  limits : LimitsConfig
  dns : DnsConfig

def defaultTcpBufferBytes : ℕ := 128 * 1024
def defaultRelayBufferBytes : ℕ := 32 * 1024

/-- Half of the physical memory in connections of `2 * tcp + 2 * relay` bytes, clamped. -/
def defaultMaxConcurrentConnections (totalSystemMemoryBytes : Option ℕ) : ℕ :=
  let perConnBytes := 2 * defaultTcpBufferBytes + 2 * defaultRelayBufferBytes
  let floor := 1024
  let ceiling := 16384
  match totalSystemMemoryBytes with
  | some total => min (max (total / 2 / perConnBytes) floor) ceiling
  | none => 2048

def v4 (a b c d : BitVec 8) : BitVec 32 := (a ++ b) ++ (c ++ d)

def ServerConfig.default : ServerConfig := ⟨.v4 (v4 127 0 0 1) 1080, none⟩

def WarpConfig.default : WarpConfig where
  dataDir := "./data"
  deviceModel := "warp-rust"
  licenseKey := none
  refreshInterval := .fromSecs 86400
  registerCooldown := .fromSecs 600
  mtu := 1280
  tcpBufferSize := defaultTcpBufferBytes

def HealthConfig.default : HealthConfig where
  interval := .fromSecs 30
  timeout := .fromSecs 8
  targets := [.v4 (v4 1 1 1 1) 443, .v4 (v4 8 8 8 8) 53, .v4 (v4 9 9 9 9) 53]
  minSuccesses := 2

def RecoveryConfig.default : RecoveryConfig where
  reconnectAfter := 1
  rebuildConfigAfter := 3
  reregisterAfter := 5
  rotateIdentityAfter := 10
  backoffMin := .fromMillis 500
  backoffMax := .fromSecs 30

def LimitsConfig.default (totalSystemMemoryBytes : Option ℕ) : LimitsConfig where
  maxConcurrentConnections := defaultMaxConcurrentConnections totalSystemMemoryBytes
  maxPendingDials := 512
  handshakeTimeout := .fromSecs 10
  connectTimeout := .fromSecs 8
  happyEyeballsDelay := .fromMillis 200
  maxDialCandidates := 8
  maxParallelDials := 2
  idleTimeout := .fromSecs 300
  relayBufferSize := defaultRelayBufferBytes
  authFailSleep := .fromSecs 1
  relayCloseGrace := .fromMillis 500

def DnsConfig.default : DnsConfig where
  mode := .system
  servers := [.v4 (v4 1 1 1 1) 53, .v4 (v4 1 0 0 1) 53]
  timeout := .fromSecs 3
  cacheTtl := .fromSecs 60
  negativeTtl := .fromSecs 5
  maxCacheEntries := 4096

def Config.default (totalSystemMemoryBytes : Option ℕ) : Config where
  server := .default
  warp := .default
  health := .default
  recovery := .default
  limits := .default totalSystemMemoryBytes
  dns := .default

/-- What the validator reads outside its arguments: whether `WARP_RUST_ALLOW_OPEN_PROXY`
is `"1"`, and the physical memory when it can be read. -/
structure HostFacts where
  allowOpenProxy : Bool
  totalSystemMemoryBytes : Option ℕ

namespace Config

def reject (c : Bool) (t : Text) : Except Text Unit :=
  if c then .error t else .ok ()

theorem reject_eq_ok {c : Bool} {t : Text} : reject c t = .ok () ↔ c = false := by
  cases c <;> simp [reject]

theorem seq_eq_ok {x : Except Text Unit} {f : Unit → Except Text Unit} :
    (x >>= f) = .ok () ↔ x = .ok () ∧ f () = .ok () := by
  cases x <;> simp [bind, Except.bind]

def containerHint : Text :=
  [.lit ("\n  · 容器场景（v0.3.2+）：若宿主侧已用 `-p 127.0.0.1:<port>:<port>` 限定到 loopback，" ++
  "可设环境变量 WARP_RUST_TRUSTED_HOST_NET=1 表示你对宿主网络栈负责。" ++
  "仓库 scripts/run-docker.sh / docker-compose.yml / scripts/quickstart.sh 已默认注入；" ++
  "裸 `docker run` 或自定义部署需自己加。")]

def checkOpenProxy (h : HostFacts) (server : ServerConfig) (isContainer trustedHostNet : Bool) :
    Except Text Unit :=
  let ip := server.bind.ip
  if !ip.isLoopback && server.auth.isNone then
    if h.allowOpenProxy then .ok ()
    else if isContainer && ip == IpAddr.unspecifiedV4 && trustedHostNet then .ok ()
    else
      let hint := if isContainer && ip == IpAddr.unspecifiedV4 then containerHint else []
      .error ([.lit "拒绝启动：server.bind = ", .addr server.bind,
        .lit (" 不是 loopback，但 [server.auth] 为空。\n  " ++
          "这等于把无鉴权的 SOCKS5 暴露给互联网。\n  " ++
          "· 改回本机：把 bind 改成 127.0.0.1:<port>\n  " ++
          "· 启用鉴权：在 config.toml 加 [server.auth] username/password（≥16 位强密码）\n  " ++
          "· 显式覆盖（不推荐）：设置环境变量 WARP_RUST_ALLOW_OPEN_PROXY=1")] ++ hint)
  else .ok ()

def checkHealth (health : HealthConfig) : Except Text Unit := do
  reject (health.targets.isEmpty || health.minSuccesses == 0 ||
      decide (health.targets.length < health.minSuccesses))
    [.lit "[health] min_successes=", .nat health.minSuccesses,
      .lit " 必须在 1..=targets.len()=", .nat health.targets.length, .lit " 范围内"]
  reject (health.interval == 0 || health.timeout == 0)
    [.lit "[health] interval 和 timeout 必须大于 0"]

def checkRecovery (r : RecoveryConfig) : Except Text Unit := do
  reject (r.reconnectAfter == 0 || decide (r.rebuildConfigAfter < r.reconnectAfter) ||
      decide (r.reregisterAfter < r.rebuildConfigAfter) ||
      decide (r.rotateIdentityAfter < r.reregisterAfter))
    [.lit "[recovery] 阈值必须非零并按 reconnect <= rebuild <= reregister <= rotate 排列"]
  reject (decide (r.backoffMax < r.backoffMin)) [.lit "[recovery] backoff_min 不能大于 backoff_max"]

def checkBuffers (warp : WarpConfig) (limits : LimitsConfig) : Except Text Unit := do
  reject (decide (warp.tcpBufferSize < 65535))
    [.lit "[warp] tcp_buffer_size = ", .nat warp.tcpBufferSize, .lit " 太小；至少 65535，推荐 262144"]
  reject (decide (8 * 1024 * 1024 < warp.tcpBufferSize))
    [.lit "[warp] tcp_buffer_size = ", .nat warp.tcpBufferSize, .lit " 过大；上限 8388608"]
  reject (decide (limits.relayBufferSize < 4096))
    [.lit "[limits] relay_buffer_size = ", .nat limits.relayBufferSize,
      .lit " 太小；至少 4096，推荐 65536"]
  reject (decide (1024 * 1024 < limits.relayBufferSize))
    [.lit "[limits] relay_buffer_size = ", .nat limits.relayBufferSize, .lit " 过大；上限 1048576"]

def checkLimits (l : LimitsConfig) : Except Text Unit := do
  reject (!(decide (1 ≤ l.maxConcurrentConnections) && decide (l.maxConcurrentConnections ≤ 16384)))
    [.lit "[limits] max_concurrent_connections = ", .nat l.maxConcurrentConnections,
      .lit " 超出 1..=16384"]
  reject (l.maxPendingDials == 0 || decide (l.maxConcurrentConnections < l.maxPendingDials))
    [.lit "[limits] max_pending_dials=", .nat l.maxPendingDials,
      .lit " 必须在 1..=max_concurrent_connections=", .nat l.maxConcurrentConnections,
      .lit " 范围内"]
  reject (l.connectTimeout == 0) [.lit "[limits] connect_timeout 必须大于 0"]
  reject (l.handshakeTimeout == 0 || l.idleTimeout == 0)
    [.lit "[limits] handshake_timeout 和 idle_timeout 必须大于 0"]
  reject (l.happyEyeballsDelay == 0) [.lit "[limits] happy_eyeballs_delay 必须大于 0"]
  reject (!(decide (1 ≤ l.maxDialCandidates) && decide (l.maxDialCandidates ≤ 32)))
    [.lit "[limits] max_dial_candidates 必须在 1..=32"]
  reject (!(decide (1 ≤ l.maxParallelDials) && decide (l.maxParallelDials ≤ 4)))
    [.lit "[limits] max_parallel_dials 必须在 1..=4"]
  let maxDialPorts := saturatingMul l.maxPendingDials (l.maxParallelDials - 1)
  reject (decide (32768 < saturatingAdd l.maxConcurrentConnections maxDialPorts))
    [.lit ("[limits] max_concurrent_connections + max_pending_dials * (max_parallel_dials - 1) " ++
      "不能超过 32768（用户态 TCP 临时端口容量）")]

def checkDns (dns : DnsConfig) : Except Text Unit := do
  reject (dns.maxCacheEntries == 0 || decide (1000000 < dns.maxCacheEntries))
    [.lit "[dns] max_cache_entries 必须在 1..=1000000"]
  reject (dns.timeout == 0) [.lit "[dns] timeout 必须大于 0"]
  reject (dns.mode == .tunnel && dns.servers.isEmpty) [.lit "[dns] mode=tunnel 时 servers 不能为空"]

def capacity (warp : WarpConfig) (limits : LimitsConfig) : ℕ :=
  let establishedCapacity := saturatingMul
    (saturatingAdd (saturatingMul warp.tcpBufferSize 2) (saturatingMul limits.relayBufferSize 2))
    limits.maxConcurrentConnections
  let extraDialCapacity := saturatingMul
    (saturatingMul (saturatingMul warp.tcpBufferSize 2) (limits.maxParallelDials - 1))
    limits.maxPendingDials
  saturatingAdd establishedCapacity extraDialCapacity

def checkMemory (h : HostFacts) (warp : WarpConfig) (limits : LimitsConfig) : Except Text Unit :=
  match h.totalSystemMemoryBytes with
  | some total =>
    let cap := Double.ofNat (capacity warp limits)
    let ratio := cap.div (.ofNat total)
    let gib := Double.ofNat 1073741824
    reject (ratio.ge .fourFifths)
      [.lit "[limits] 满并发时连接缓冲约需 ", .fixed 1 (cap.div gib), .lit " GiB，达到本机内存 ",
        .fixed 1 ((Double.ofNat total).div gib), .lit " GiB 的 ", .fixed 0 (ratio.mul (.ofNat 100)),
        .lit ("%，启动后极可能 OOM。请调低 max_concurrent_connections，或减小 " ++
          "[warp] tcp_buffer_size / [limits] relay_buffer_size。" ++
          "参考：每条连接占用 = 2×tcp_buffer_size + 2×relay_buffer_size")]
  | none => .ok ()

def isAsciiLowercase (b : UInt8) : Bool := 97 ≤ b && b ≤ 122
def isAsciiUppercase (b : UInt8) : Bool := 65 ≤ b && b ≤ 90
def isAsciiDigit (b : UInt8) : Bool := 48 ≤ b && b ≤ 57

def strongPassword (password : String) : Bool :=
  decide (16 ≤ password.utf8ByteSize) && password.toUTF8.toList.any isAsciiLowercase &&
    password.toUTF8.toList.any isAsciiUppercase && password.toUTF8.toList.any isAsciiDigit

def checkAuth (server : ServerConfig) : Except Text Unit :=
  match server.auth with
  | some auth => do
    reject (auth.username.isEmpty || auth.password.isEmpty)
      [.lit "[server.auth] username 或 password 不能为空"]
    reject (decide (auth.password.utf8ByteSize < 8))
      [.lit "[server.auth] password 长度仅 ", .nat auth.password.utf8ByteSize,
        .lit "，至少 8 位；推荐 ≥16 位强密码"]
    reject (!server.bind.ip.isLoopback && !strongPassword auth.password)
      [.lit "公网监听的 [server.auth] password 必须至少 16 位，并包含大小写字母和数字"]
  | none => .ok ()

def validateWith (h : HostFacts) (cfg : Config) (isContainer trustedHostNet : Bool) :
    Except Text Unit := do
  checkOpenProxy h cfg.server isContainer trustedHostNet
  reject (decide (cfg.warp.mtu < 576) || decide (1420 < cfg.warp.mtu))
    [.lit "[warp] mtu = ", .nat cfg.warp.mtu,
      .lit " 超出建议范围；请使用 576..=1420，WARP 常用 1280 或 1420"]
  checkHealth cfg.health
  checkRecovery cfg.recovery
  checkBuffers cfg.warp cfg.limits
  checkLimits cfg.limits
  checkDns cfg.dns
  checkMemory h cfg.warp cfg.limits
  checkAuth cfg.server

end Config

structure RecoveryConfig.Ordered (r : RecoveryConfig) : Prop where
  reconnect_pos : 0 < r.reconnectAfter
  reconnect_le : r.reconnectAfter ≤ r.rebuildConfigAfter
  rebuild_le : r.rebuildConfigAfter ≤ r.reregisterAfter
  reregister_le : r.reregisterAfter ≤ r.rotateIdentityAfter
  backoff_le : r.backoffMin ≤ r.backoffMax

structure LimitsConfig.InRange (l : LimitsConfig) : Prop where
  connections : 1 ≤ l.maxConcurrentConnections ∧ l.maxConcurrentConnections ≤ 16384
  pending : 1 ≤ l.maxPendingDials ∧ l.maxPendingDials ≤ l.maxConcurrentConnections
  connectTimeout_pos : 0 < l.connectTimeout
  handshakeTimeout_pos : 0 < l.handshakeTimeout
  idleTimeout_pos : 0 < l.idleTimeout
  delay_pos : 0 < l.happyEyeballsDelay
  candidates : 1 ≤ l.maxDialCandidates ∧ l.maxDialCandidates ≤ 32
  parallel : 1 ≤ l.maxParallelDials ∧ l.maxParallelDials ≤ 4

namespace Config

theorem checkRecovery_ok {r : RecoveryConfig} (h : checkRecovery r = .ok ()) : r.Ordered := by
  simp only [checkRecovery, seq_eq_ok, reject_eq_ok, Bool.or_eq_false_iff, beq_eq_false_iff_ne,
    decide_eq_false_iff_not, not_lt] at h
  obtain ⟨⟨⟨⟨hpos, hreconnect⟩, hrebuild⟩, hreregister⟩, hbackoff⟩ := h
  exact ⟨Fin.pos_of_ne_zero hpos, hreconnect, hrebuild, hreregister, hbackoff⟩

theorem checkLimits_ok {l : LimitsConfig} (h : checkLimits l = .ok ()) : l.InRange := by
  simp only [checkLimits, seq_eq_ok, reject_eq_ok, Bool.or_eq_false_iff, beq_eq_false_iff_ne,
    Bool.not_eq_false', Bool.and_eq_true, decide_eq_true_eq, decide_eq_false_iff_not, not_lt] at h
  obtain ⟨hconn, hpend, hct, htime, hdelay, hcand, hpar, _⟩ := h
  exact ⟨hconn, ⟨Nat.pos_of_ne_zero hpend.1, hpend.2⟩, Nat.pos_of_ne_zero hct,
    Nat.pos_of_ne_zero htime.1, Nat.pos_of_ne_zero htime.2, Nat.pos_of_ne_zero hdelay, hcand, hpar⟩

section
variable {h : HostFacts} {cfg : Config} {isContainer trustedHostNet : Bool}

theorem mtu_le (hv : validateWith h cfg isContainer trustedHostNet = .ok ()) :
    cfg.warp.mtu ≤ 1420 := by
  simp only [validateWith, seq_eq_ok, reject_eq_ok, Bool.or_eq_false_iff, decide_eq_false_iff_not,
    not_lt] at hv
  exact hv.2.1.2

theorem recovery_ordered (hv : validateWith h cfg isContainer trustedHostNet = .ok ()) :
    cfg.recovery.Ordered := by
  simp only [validateWith, seq_eq_ok] at hv
  exact checkRecovery_ok hv.2.2.2.1

theorem limits_inRange (hv : validateWith h cfg isContainer trustedHostNet = .ok ()) :
    cfg.limits.InRange := by
  simp only [validateWith, seq_eq_ok] at hv
  exact checkLimits_ok hv.2.2.2.2.2.1

end

theorem default_valid : (Config.default none).validateWith ⟨false, none⟩ false false = .ok () := by
  decide

end Config
end WarpRust
