import Mathlib.Data.List.AList
import WarpRust.Config

/-!
# The DNS cache

Record sets by host and query type, each with an expiry; `none` as records is a negative
entry. The host is the lower-cased name. Which key an eviction takes is the caller's choice,
since the source takes the first one its hash map happens to list.
-/

namespace WarpRust.Dns

abbrev RecordSet := List IpAddr
abbrev QType := BitVec 16
abbrev Key := String × QType

def qtypeA : QType := 1
def qtypeAaaa : QType := 28

structure CacheEntry where
  records : Option RecordSet
  expires : Instant
  deriving DecidableEq

abbrev Cache := AList fun _ : Key => CacheEntry

/-- A hit, positive or negative, and the cache after it: an expired entry is dropped. -/
def lookupCache (cache : Cache) (now : Instant) (key : Key) : Option (Option RecordSet) × Cache :=
  match cache.lookup key with
  | some e => if now < e.expires then (some e.records, cache) else (none, cache.erase key)
  | none => (none, cache)

def evicts (cfg : DnsConfig) (cache : Cache) (key : Key) : Prop :=
  cfg.maxCacheEntries ≤ cache.keys.length ∧ key ∉ cache

instance (cfg : DnsConfig) (cache : Cache) (key : Key) : Decidable (evicts cfg cache key) :=
  inferInstanceAs (Decidable (_ ∧ _))

def storeCache (cfg : DnsConfig) (cache : Cache) (now : Instant) (victim key : Key)
    (records : Option RecordSet) : Cache :=
  let ttl := if records.isSome then cfg.cacheTtl else cfg.negativeTtl
  let room := if evicts cfg cache key then cache.erase victim else cache
  room.insert key ⟨records, now + ttl⟩

/-- The error of a negative answer, the same for a cached one and a shared one. -/
def negErr (key : Key) : Error :=
  if key.2 = qtypeA then .dnsNoIpv4 key.1
  else .other [.lit "no AAAA record for ", .lit key.1]

end WarpRust.Dns
