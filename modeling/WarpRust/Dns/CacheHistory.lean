import WarpRust.Dns.Cache
import WarpRust.Library.Machine

/-!
# Histories of the DNS cache

Lookups and stores in any order, under a clock that does not go back. `limit` is the last
instant the platform can represent: past it `now + ttl` panics, after room has been made.
-/

namespace WarpRust.Dns
open Library

inductive Call where
  | tick (d : Duration)
  | lookup (key : Key)
  | store (victim key : Key) (records : Option RecordSet)

structure Clocked where
  cache : Cache
  now : Instant

def ttlOf (cfg : DnsConfig) (records : Option RecordSet) : Duration :=
  if records.isSome then cfg.cacheTtl else cfg.negativeTtl

/-- `victim` may be the first key the map lists. -/
def Picks (cfg : DnsConfig) (cache : Cache) (victim key : Key) : Prop :=
  evicts cfg cache key → cache.keys ≠ [] → victim ∈ cache

instance (cfg : DnsConfig) (cache : Cache) (victim key : Key) :
    Decidable (Picks cfg cache victim key) :=
  inferInstanceAs (Decidable (_ → _ → _))

def makeRoom (cfg : DnsConfig) (cache : Cache) (victim key : Key) : Cache :=
  if evicts cfg cache key then cache.erase victim else cache

def cacheMachine (cfg : DnsConfig) (limit : Instant) : Machine Clocked Call where
  step s
    | .tick d => some { s with now := s.now + d }
    | .lookup key => some { s with cache := (lookupCache s.cache s.now key).2 }
    | .store victim key records =>
      if Picks cfg s.cache victim key then
        some { s with
          cache :=
            if s.now + ttlOf cfg records ≤ limit then
              storeCache cfg s.cache s.now victim key records
            else makeRoom cfg s.cache victim key }
      else none

def stored (cfg : DnsConfig) (limit : Instant) (key : Key) (x : Taken Clocked Call) :
    Option (Instant × Option RecordSet) :=
  match x.action with
  | .store _ key' records =>
    if key' = key ∧ x.before.now + ttlOf cfg records ≤ limit then some (x.before.now, records)
    else none
  | _ => none

def lastStore (cfg : DnsConfig) (limit : Instant) (l : List (Taken Clocked Call)) (key : Key) :
    Option (Instant × Option RecordSet) :=
  (l.filterMap (stored cfg limit key)).getLast?

/-! ### The size of a map -/

section
variable {κ : Type*} {β : κ → Type*} [DecidableEq κ] {m : AList β} {k : κ} {v : β k}

theorem length_keys_erase_le (m : AList β) (k : κ) : (m.erase k).keys.length ≤ m.keys.length := by
  rw [AList.keys_erase]
  exact List.length_erase_le

theorem length_keys_erase_of_mem (h : k ∈ m) : (m.erase k).keys.length + 1 = m.keys.length := by
  have hmem : k ∈ m.keys := h
  have hpos := List.length_pos_of_mem hmem
  rw [AList.keys_erase, List.length_erase_of_mem hmem]
  omega

theorem length_keys_insert_of_mem (h : k ∈ m) : (m.insert k v).keys.length = m.keys.length := by
  rw [← length_keys_erase_of_mem h, AList.keys_erase, AList.keys_insert, List.length_cons]

theorem length_keys_insert_le (m : AList β) (k : κ) (v : β k) :
    (m.insert k v).keys.length ≤ m.keys.length + 1 := by
  rw [AList.keys_insert, List.length_cons]
  exact Nat.succ_le_succ List.length_erase_le

end

/-! ### One call -/

section
variable {cfg : DnsConfig} {cache : Cache} {now : Instant} {victim key other : Key} {e : CacheEntry}
  {records : Option RecordSet}

theorem storeCache_eq : storeCache cfg cache now victim key records =
    (makeRoom cfg cache victim key).insert key ⟨records, now + ttlOf cfg records⟩ := rfl

theorem lookup_of_erase (h : (cache.erase key).lookup other = some e) :
    cache.lookup other = some e := by
  by_cases hkey : other = key
  · rw [hkey, AList.lookup_erase] at h
    cases h
  · rwa [AList.lookup_erase_ne hkey] at h

theorem lookupCache_snd (cache : Cache) (now : Instant) (key : Key) :
    (lookupCache cache now key).2 = cache ∨ (lookupCache cache now key).2 = cache.erase key := by
  unfold lookupCache
  split
  · split
    · exact .inl rfl
    · exact .inr rfl
  · exact .inl rfl

theorem lookupCache_eq_some :
    (lookupCache cache now key).1 = some records ↔
      ∃ expires, cache.lookup key = some ⟨records, expires⟩ ∧ now < expires := by
  unfold lookupCache
  constructor
  · intro h
    split at h
    · next e he =>
      split at h
      · next hlt =>
        cases h
        exact ⟨e.expires, he, hlt⟩
      · cases h
    · cases h
  · intro ⟨expires, he, hlt⟩
    simp only [he, if_pos hlt]

theorem lookupCache_congr {cache' : Cache} (h : cache'.lookup key = cache.lookup key) :
    (lookupCache cache' now key).1 = (lookupCache cache now key).1 := by
  unfold lookupCache
  rw [h]
  split
  · split <;> rfl
  · rfl

theorem lookup_lookupCache_ne (hne : other ≠ key) :
    (lookupCache cache now key).2.lookup other = cache.lookup other := by
  rcases lookupCache_snd cache now key with h | h
  · rw [h]
  · rw [h, AList.lookup_erase_ne hne]

theorem lookup_of_lookupCache (h : (lookupCache cache now key).2.lookup other = some e) :
    cache.lookup other = some e := by
  rcases lookupCache_snd cache now key with h' | h'
  · rwa [h'] at h
  · exact lookup_of_erase (h' ▸ h)

theorem lookup_of_makeRoom (h : (makeRoom cfg cache victim key).lookup other = some e) :
    cache.lookup other = some e := by
  unfold makeRoom at h
  split at h
  · exact lookup_of_erase h
  · exact h

theorem makeRoom_of_mem (h : key ∈ cache) : makeRoom cfg cache victim key = cache :=
  if_neg fun hevicts => hevicts.2 h

theorem lookup_makeRoom_ne (hne : other ≠ victim) :
    (makeRoom cfg cache victim key).lookup other = cache.lookup other := by
  unfold makeRoom
  split
  · exact AList.lookup_erase_ne hne
  · rfl

theorem length_lookupCache_le :
    (lookupCache cache now key).2.keys.length ≤ cache.keys.length := by
  rcases lookupCache_snd cache now key with h | h
  · rw [h]
  · rw [h]
    exact length_keys_erase_le cache key

theorem length_makeRoom_le : (makeRoom cfg cache victim key).keys.length ≤ cache.keys.length := by
  unfold makeRoom
  split
  · exact length_keys_erase_le cache victim
  · exact le_rfl

theorem length_makeRoom_lt (hmax : 1 ≤ cfg.maxCacheEntries)
    (hcache : cache.keys.length ≤ cfg.maxCacheEntries) (hpick : Picks cfg cache victim key)
    (hkey : key ∉ cache) : (makeRoom cfg cache victim key).keys.length < cfg.maxCacheEntries := by
  unfold makeRoom
  split
  · next hevicts =>
    have hpos : 0 < cache.keys.length := hmax.trans hevicts.1
    have hvictim : victim ∈ cache := hpick hevicts (List.ne_nil_of_length_pos hpos)
    have hsize := length_keys_erase_of_mem hvictim
    omega
  · next hevicts =>
    exact not_le.mp fun hfull => hevicts ⟨hfull, hkey⟩

theorem length_storeCache_le (hmax : 1 ≤ cfg.maxCacheEntries)
    (hcache : cache.keys.length ≤ cfg.maxCacheEntries) (hpick : Picks cfg cache victim key) :
    (storeCache cfg cache now victim key records).keys.length ≤ cfg.maxCacheEntries := by
  rw [storeCache_eq]
  by_cases hkey : key ∈ cache
  · rw [makeRoom_of_mem hkey, length_keys_insert_of_mem hkey]
    exact hcache
  · have hroom := length_makeRoom_lt hmax hcache hpick hkey
    exact (length_keys_insert_le _ key _).trans hroom

end

/-! ### Runs -/

section
variable {cfg : DnsConfig} {limit : Instant} {s t : Clocked} {a : Call} {start : Instant}
  {l : List (Taken Clocked Call)}

theorem cacheStep_cases (h : (cacheMachine cfg limit).step s a = some t) :
    (∃ d, a = .tick d ∧ t = { s with now := s.now + d }) ∨
    (∃ key, a = .lookup key ∧ t = { s with cache := (lookupCache s.cache s.now key).2 }) ∨
    (∃ victim key records, a = .store victim key records ∧ Picks cfg s.cache victim key ∧
      s.now + ttlOf cfg records ≤ limit ∧
      t = { s with cache := storeCache cfg s.cache s.now victim key records }) ∨
    ∃ victim key records, a = .store victim key records ∧ Picks cfg s.cache victim key ∧
      ¬ s.now + ttlOf cfg records ≤ limit ∧
      t = { s with cache := makeRoom cfg s.cache victim key } := by
  cases a with
  | tick d => exact .inl ⟨d, rfl, (Option.some.inj h).symm⟩
  | lookup key => exact .inr (.inl ⟨key, rfl, (Option.some.inj h).symm⟩)
  | store victim key records =>
    obtain ⟨hpick, ht⟩ := of_guarded h
    by_cases hlimit : s.now + ttlOf cfg records ≤ limit
    · rw [if_pos hlimit] at ht
      exact .inr (.inr (.inl ⟨victim, key, records, rfl, hpick, hlimit, ht.symm⟩))
    · rw [if_neg hlimit] at ht
      exact .inr (.inr (.inr ⟨victim, key, records, rfl, hpick, hlimit, ht.symm⟩))

theorem bounded (hmax : 1 ≤ cfg.maxCacheEntries)
    (h : (cacheMachine cfg limit).Exec ⟨∅, start⟩ l s) :
    s.cache.keys.length ≤ cfg.maxCacheEntries := by
  refine h.reachable.invariant (I := fun s => s.cache.keys.length ≤ cfg.maxCacheEntries)
    (Nat.zero_le _) ?_
  intro t a u ht ha
  rcases cacheStep_cases ha with ⟨_, _, rfl⟩ | ⟨key, _, rfl⟩ | ⟨victim, key, records, _, hpick, _,
    rfl⟩ | ⟨victim, key, records, _, _, _, rfl⟩
  · exact ht
  · exact length_lookupCache_le.trans ht
  · exact length_storeCache_le hmax ht hpick
  · exact length_makeRoom_le.trans ht

theorem lastStore_snoc (key : Key) (x : Taken Clocked Call) :
    lastStore cfg limit (l ++ [x]) key =
      (stored cfg limit key x).or (lastStore cfg limit l key) := by
  rw [lastStore, List.filterMap_append, List.getLast?_append, lastStore]
  cases hx : stored cfg limit key x with
  | none => rw [List.filterMap_cons_none hx, List.filterMap_nil, List.getLast?_nil]
  | some r => rw [List.filterMap_cons_some hx, List.filterMap_nil, List.getLast?_singleton]

def FromLast (cfg : DnsConfig) (limit : Instant) (l : List (Taken Clocked Call)) (cache : Cache) :
    Prop :=
  ∀ key e, cache.lookup key = some e → ∃ start,
    lastStore cfg limit l key = some (start, e.records) ∧ e.expires = start + ttlOf cfg e.records

theorem FromLast.keep {cache cache' : Cache} {x : Taken Clocked Call}
    (h : FromLast cfg limit l cache)
    (hx : ∀ key, stored cfg limit key x = none)
    (hkeep : ∀ key e, cache'.lookup key = some e → cache.lookup key = some e) :
    FromLast cfg limit (l ++ [x]) cache' := by
  intro key e he
  rw [lastStore_snoc, hx key, Option.none_or]
  exact h key e (hkeep key e he)

theorem FromLast.store {x : Taken Clocked Call} {victim key : Key} {records : Option RecordSet}
    (h : FromLast cfg limit l x.before.cache) (hx : x.action = .store victim key records)
    (hlimit : x.before.now + ttlOf cfg records ≤ limit) :
    FromLast cfg limit (l ++ [x])
      (storeCache cfg x.before.cache x.before.now victim key records) := by
  intro key' e he
  rw [storeCache_eq] at he
  by_cases hkey : key' = key
  · subst hkey
    rw [AList.lookup_insert] at he
    cases he
    refine ⟨x.before.now, ?_, rfl⟩
    rw [lastStore_snoc, stored, hx]
    simp only [true_and, if_pos hlimit, Option.some_or]
  · rw [AList.lookup_insert_ne hkey] at he
    have hother : stored cfg limit key' x = none := by
      rw [stored, hx]
      exact if_neg fun hsame => hkey hsame.1.symm
    rw [lastStore_snoc, hother, Option.none_or]
    exact h key' e (lookup_of_makeRoom he)

theorem fromLast (h : (cacheMachine cfg limit).Exec ⟨∅, start⟩ l s) :
    FromLast cfg limit l s.cache := by
  induction h with
  | nil =>
    intro key e he
    rw [AList.lookup_empty] at he
    cases he
  | @snoc l t u a _ ha ih =>
    rcases cacheStep_cases ha with ⟨d, rfl, rfl⟩ | ⟨key, rfl, rfl⟩ |
      ⟨victim, key, records, rfl, _, hlimit, rfl⟩ | ⟨victim, key, records, rfl, _, hlimit, rfl⟩
    · exact ih.keep (fun _ => rfl) fun _ _ he => he
    · exact ih.keep (fun _ => rfl) fun _ _ he => lookup_of_lookupCache he
    · exact FromLast.store ih rfl hlimit
    · refine ih.keep (fun key' => ?_) fun _ _ he => lookup_of_makeRoom he
      exact if_neg fun hsame => hlimit hsame.2

theorem lookup_store_ne {victim key other : Key} {records : Option RecordSet}
    (h : (cacheMachine cfg limit).step s (.store victim key records) = some t) (hne : other ≠ key) :
    t.cache.lookup other = (makeRoom cfg s.cache victim key).lookup other := by
  rcases cacheStep_cases h with ⟨_, ha, _⟩ | ⟨_, ha, _⟩ | ⟨_, _, _, ha, _, _, rfl⟩ |
    ⟨_, _, _, ha, _, _, rfl⟩
  · cases ha
  · cases ha
  · cases ha
    exact AList.lookup_insert_ne hne
  · cases ha
    rfl

/-- The cache is bounded, a hit is the last store of its key within its time to live, and
other keys lose one entry at most, to the store of a new key. -/
theorem cache_never_lies (hmax : 1 ≤ cfg.maxCacheEntries)
    (h : (cacheMachine cfg limit).Exec ⟨∅, start⟩ l s) :
    s.cache.keys.length ≤ cfg.maxCacheEntries ∧
    (∀ key records, (lookupCache s.cache s.now key).1 = some records → ∃ since,
      lastStore cfg limit l key = some (since, records) ∧ s.now < since + ttlOf cfg records) ∧
    (∀ victim key records t, (cacheMachine cfg limit).step s (.store victim key records) = some t →
      (key ∈ s.cache → ∀ other ≠ key, t.cache.lookup other = s.cache.lookup other) ∧
      ∃ lost, ∀ other ≠ key, other ≠ lost → t.cache.lookup other = s.cache.lookup other) ∧
    ∀ key t, (cacheMachine cfg limit).step s (.lookup key) = some t → ∀ other ≠ key, ∀ now,
      (lookupCache t.cache now other).1 = (lookupCache s.cache now other).1 := by
  refine ⟨bounded hmax h, ?_, ?_, ?_⟩
  · intro key records hhit
    obtain ⟨expires, he, hlt⟩ := lookupCache_eq_some.mp hhit
    obtain ⟨since, hlast, hexpires⟩ := fromLast h key _ he
    exact ⟨since, hlast, hexpires ▸ hlt⟩
  · intro victim key records t ht
    constructor
    · intro hkey other hne
      rw [lookup_store_ne ht hne, makeRoom_of_mem hkey]
    · refine ⟨victim, fun other hne hlost => ?_⟩
      rw [lookup_store_ne ht hne, lookup_makeRoom_ne hlost]
  · intro key t ht other hne now
    cases ht
    exact lookupCache_congr (lookup_lookupCache_ne hne)

end

theorem cache_never_lies_hit :
    let cfg := { DnsConfig.default with maxCacheEntries := 1 }
    let key : Key := ("a", qtypeA)
    let s : Clocked := ⟨storeCache cfg ∅ 0 key key none, 1⟩
    ∃ l since, (cacheMachine cfg (2 ^ 63)).Exec ⟨∅, 0⟩ l s ∧ s.cache.keys.length ≤ 1 ∧
      lastStore cfg (2 ^ 63) l key = some (since, none) := by
  intro cfg key s
  have hexec : (cacheMachine cfg (2 ^ 63)).Exec ⟨∅, 0⟩ _ s :=
    (Machine.Exec.nil.snoc (a := .store key key none) rfl).snoc (a := .tick 1) rfl
  obtain ⟨hsize, hhit, _⟩ := cache_never_lies le_rfl hexec
  have hfresh : s.now < 0 + ttlOf cfg none := by decide
  have hlookup : (lookupCache s.cache s.now key).1 = some none :=
    lookupCache_eq_some.mpr ⟨_, AList.lookup_insert _, hfresh⟩
  obtain ⟨since, hlast, _⟩ := hhit key none hlookup
  exact ⟨_, since, hexec, hsize, hlast⟩

end WarpRust.Dns
