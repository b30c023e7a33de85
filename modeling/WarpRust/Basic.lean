import WarpRust.Library.Binary64
import WarpRust.Library.Bytes

/-!
# Times, addresses, texts and errors

An instant counts nanoseconds since the UNIX epoch, for the wall clock and the monotonic
clock alike: they advance together, so only their differences matter. A text keeps the
pieces of its format string apart; addresses, durations and numbers are not rendered.
-/

namespace WarpRust
open Library (Bytes ofBe toBe)
open Library.Binary64 (Double)

abbrev Instant := ℕ
abbrev Duration := ℕ

def nanosPerMilli : ℕ := 1000000
def nanosPerSec : ℕ := 1000000000

namespace Duration

def fromMillis (n : ℕ) : Duration := n * nanosPerMilli
def fromSecs (n : ℕ) : Duration := n * nanosPerSec
def asMillis (d : Duration) : ℕ := d / nanosPerMilli
def asSecs (d : Duration) : ℕ := d / nanosPerSec

end Duration

abbrev U8 := Fin 256

instance neZero_u8 : NeZero 256 := ⟨by decide⟩

def u64Max : ℕ := 2 ^ 64 - 1
def saturatingAdd (a b : ℕ) : ℕ := min (a + b) u64Max
def saturatingMul (a b : ℕ) : ℕ := min (a * b) u64Max

def u16FromBeBytes (a b : UInt8) : BitVec 16 := ofBe 16 [a, b]
def u16ToBeBytes (n : BitVec 16) : Bytes := toBe n

inductive IpAddr where
  | v4 (bits : BitVec 32)
  | v6 (bits : BitVec 128)
  deriving DecidableEq

namespace IpAddr

def isIpv4 : IpAddr → Bool
  | .v4 _ => true
  | .v6 _ => false

def ipv4Octets (ip : BitVec 32) : Bytes := toBe ip
def ipv6Octets (ip : BitVec 128) : Bytes := toBe ip

/-- `127.0.0.0/8` and `::1`. -/
def isLoopback : IpAddr → Bool
  | .v4 bits => bits.extractLsb' 24 8 == 127#8
  | .v6 bits => bits == 1#128

def unspecifiedV4 : IpAddr := .v4 0#32

end IpAddr

inductive SocketAddr where
  | v4 (ip : BitVec 32) (port : BitVec 16)
  | v6 (ip : BitVec 128) (port : BitVec 16) (flowinfo scopeId : BitVec 32)
  deriving DecidableEq

namespace SocketAddr

def ip : SocketAddr → IpAddr
  | .v4 ip _ => .v4 ip
  | .v6 ip _ _ _ => .v6 ip

def port : SocketAddr → BitVec 16
  | .v4 _ port => port
  | .v6 _ port _ _ => port

def isIpv4 (a : SocketAddr) : Bool := a.ip.isIpv4

def isIpv6 (a : SocketAddr) : Bool := !a.isIpv4

/-- `SocketAddr::new`: an IPv6 address gets flow info and scope id zero. -/
def new : IpAddr → BitVec 16 → SocketAddr
  | .v4 ip, port => .v4 ip port
  | .v6 ip, port => .v6 ip port 0 0

end SocketAddr

inductive Piece where
  | lit (s : String)
  | nat (n : ℕ)
  | addr (a : SocketAddr)
  | duration (d : Duration)
  | fixed (digits : ℕ) (v : Double)
  deriving DecidableEq

abbrev Text := List Piece

def Text.join (sep : String) (parts : List Text) : Text := (parts.intersperse [.lit sep]).flatten

/-- `wireguard_netstack::Error`; only the variant the program itself raises is told apart. -/
inductive NetstackError where
  | connectionClosed
  | other (t : Text)
  deriving DecidableEq

def NetstackError.text : NetstackError → Text
  | .connectionClosed => [.lit "Connection closed"]
  | .other t => t

inductive Error where
  | io (t : Text)
  | config (t : Text)
  | warpApi (t : Text)
  | netstack (e : NetstackError)
  | tunnelNotReady
  | dnsNoIpv4 (host : String)
  | socks (t : Text)
  | socksServer (t : Text)
  | dial (addr : SocketAddr) (source : NetstackError)
  | json (t : Text)
  | toml (t : Text)
  | figment (t : Text)
  | other (t : Text)
  deriving DecidableEq

def Error.ofStr (s : String) : Error := .other [.lit s]

def Error.text : Error → Text
  | .io t => .lit "I/O: " :: t
  | .config t => .lit "config: " :: t
  | .warpApi t => .lit "warp registration: " :: t
  | .netstack e => .lit "wireguard netstack: " :: e.text
  | .tunnelNotReady => [.lit "tunnel not ready"]
  | .dnsNoIpv4 host => [.lit "DNS lookup returned no IPv4 result for ", .lit host]
  | .socks t => .lit "SOCKS5: " :: t
  | .socksServer t => .lit "SOCKS5 server: " :: t
  | .dial addr source =>
      [.lit "upstream dial failed for ", .addr addr, .lit ": "] ++ source.text
  | .json t => .lit "JSON: " :: t
  | .toml t => .lit "TOML: " :: t
  | .figment t => .lit "figment: " :: t
  | .other t => t

end WarpRust
