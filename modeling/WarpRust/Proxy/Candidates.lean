import Mathlib
import WarpRust.Dns.Cache
import WarpRust.Library.Lists
import WarpRust.Proxy.Handle

/-!
# Dial candidates

From the record sets of a host to the list the dial gets: the two families in turn, IPv6
first, then the filter, the de-duplication and the truncation of `dialParams`.
-/

namespace WarpRust.Dns

/-! ### The code -/

def mergeLoop (port : BitVec 16) : List (BitVec 128) → List (BitVec 32) → List SocketAddr →
    List SocketAddr
  | [], [], out => out
  | a :: v6, [], out => mergeLoop port v6 [] (out ++ [.v6 a port 0 0])
  | [], b :: v4, out => mergeLoop port [] v4 (out ++ [.v4 b port])
  | a :: v6, b :: v4, out => mergeLoop port v6 v4 (out ++ [.v6 a port 0 0] ++ [.v4 b port])

def v6Only (records : RecordSet) : List (BitVec 128) :=
  records.filterMap fun
    | .v6 ip => some ip
    | .v4 _ => none

def v4Only (records : RecordSet) : List (BitVec 32) :=
  records.filterMap fun
    | .v4 ip => some ip
    | .v6 _ => none

def mergeDual (v6 v4 : Option RecordSet) (port : BitVec 16) (host : String) :
    Except Error (List SocketAddr) :=
  let out := mergeLoop port (v6Only (v6.getD [])) (v4Only (v4.getD [])) []
  if out.isEmpty then .error (.dnsNoIpv4 host) else .ok out

def side (key : Key) (cached : Option (Option RecordSet)) (query : Except Error RecordSet) :
    Except Error RecordSet :=
  match cached with
  | some (some records) => .ok records
  | some none => .error (negErr key)
  | none => query

/-- `parsed` is the host read as an address, `key` its lower case. -/
def resolveDual (parsed : Option IpAddr) (lookup : QType → Option (Option RecordSet))
    (query : QType → Except Error RecordSet) (host key : String) (port : BitVec 16) :
    Except Error (List SocketAddr) :=
  match parsed with
  | some ip => .ok [.new ip port]
  | none =>
    match lookup qtypeA, lookup qtypeAaaa with
    | some v4, some v6 => mergeDual v6 v4 port host
    | cachedV4, cachedV6 =>
      let aRes := side (key, qtypeA) cachedV4 (query qtypeA)
      let aaaaRes := side (key, qtypeAaaa) cachedV6 (query qtypeAaaa)
      mergeDual aaaaRes.toOption aRes.toOption port host

/-! ### The families -/

def v6Addrs (records : Option RecordSet) (port : BitVec 16) : List SocketAddr :=
  (v6Only (records.getD [])).map fun ip => .v6 ip port 0 0

def v4Addrs (records : Option RecordSet) (port : BitVec 16) : List SocketAddr :=
  (v4Only (records.getD [])).map fun ip => .v4 ip port

section
variable {v6 v4 : Option RecordSet} {port : BitVec 16} {a : SocketAddr}

theorem mergeLoop_eq (port : BitVec 16) (v6 : List (BitVec 128)) (v4 : List (BitVec 32))
    (out : List SocketAddr) :
    mergeLoop port v6 v4 out =
      out ++ (v6.map fun ip => .v6 ip port 0 0).interleave (v4.map fun ip => .v4 ip port) := by
  induction v6 generalizing v4 out with
  | nil =>
    induction v4 generalizing out with
    | nil => rw [mergeLoop, List.map_nil, List.map_nil, List.nil_interleave, List.append_nil]
    | cons b v4 ih =>
      rw [mergeLoop, ih, List.map_nil, List.nil_interleave, List.nil_interleave, List.map_cons,
        List.append_assoc, List.singleton_append]
  | cons a v6 ih =>
    cases v4 with
    | nil =>
      rw [mergeLoop, ih, List.map_nil, List.interleave_nil, List.interleave_nil, List.map_cons,
        List.append_assoc, List.singleton_append]
    | cons b v4 =>
      rw [mergeLoop, ih, List.map_cons, List.map_cons, List.cons_interleave, List.cons_interleave,
        List.append_assoc, List.append_assoc, List.singleton_append, List.singleton_append]

theorem mergeDual_eq (v6 v4 : Option RecordSet) (port : BitVec 16) (host : String) :
    mergeDual v6 v4 port host =
      if (v6Addrs v6 port).interleave (v4Addrs v4 port) = [] then .error (.dnsNoIpv4 host)
      else .ok ((v6Addrs v6 port).interleave (v4Addrs v4 port)) := by
  rw [mergeDual, mergeLoop_eq, List.nil_append]
  exact if_congr List.isEmpty_iff rfl rfl

theorem resolveDual_eq (lookup : QType → Option (Option RecordSet))
    (query : QType → Except Error RecordSet) (host key : String) (port : BitVec 16) :
    resolveDual none lookup query host key port =
      mergeDual (side (key, qtypeAaaa) (lookup qtypeAaaa) (query qtypeAaaa)).toOption
        (side (key, qtypeA) (lookup qtypeA) (query qtypeA)).toOption port host := by
  rw [resolveDual]
  cases lookup qtypeA with
  | none => rfl
  | some v4 =>
    cases lookup qtypeAaaa with
    | none => rfl
    | some v6 => cases v4 <;> cases v6 <;> rfl

theorem isIpv6_of_mem_v6Addrs (h : a ∈ v6Addrs v6 port) : a.isIpv6 = true := by
  obtain ⟨ip, _, rfl⟩ := List.mem_map.mp h
  rfl

theorem isIpv4_of_mem_v4Addrs (h : a ∈ v4Addrs v4 port) : a.isIpv4 = true := by
  obtain ⟨ip, _, rfl⟩ := List.mem_map.mp h
  rfl

end

end WarpRust.Dns

namespace WarpRust.Proxy
open Dns Library StaggeredDial

/-! ### Two lists in turn -/

section
variable {α : Type*} {p : α → Bool} {l₁ l₂ : List α}

theorem filter_interleave_left (h₁ : ∀ a ∈ l₁, p a = true) (h₂ : ∀ a ∈ l₂, p a = false) :
    (l₁.interleave l₂).filter p = l₁ := by
  have hsub : (l₁.filter p).Sublist ((l₁.interleave l₂).filter p) :=
    List.left_sublist_interleave.filter p
  rw [List.filter_eq_self.mpr h₁] at hsub
  have hnone : l₂.countP p = 0 := by
    rw [List.countP_eq_zero]
    intro a ha
    rw [h₂ a ha]
    nofun
  refine (hsub.eq_of_length ?_).symm
  rw [← List.countP_eq_length_filter, List.countP_interleave, hnone, Nat.add_zero,
    List.countP_eq_length.mpr h₁]

theorem filter_interleave_right (h₁ : ∀ a ∈ l₁, p a = false) (h₂ : ∀ a ∈ l₂, p a = true) :
    (l₁.interleave l₂).filter p = l₂ := by
  cases l₁ with
  | nil => rw [List.nil_interleave, List.filter_eq_self.mpr h₂]
  | cons a l₁ =>
    obtain ⟨ha, hl₁⟩ := List.forall_mem_cons.mp h₁
    rw [List.cons_interleave, List.filter_cons_of_neg (by rw [ha]; nofun),
      filter_interleave_left h₂ hl₁]

theorem getElem?_interleave {i : ℕ} (h₁ : i < l₁.length) (h₂ : i < l₂.length) :
    (l₁.interleave l₂)[2 * i]? = l₁[i]? ∧ (l₁.interleave l₂)[2 * i + 1]? = l₂[i]? := by
  induction i generalizing l₁ l₂ with
  | zero =>
    obtain ⟨a, l₁, rfl⟩ := List.exists_cons_of_length_pos h₁
    obtain ⟨b, l₂, rfl⟩ := List.exists_cons_of_length_pos h₂
    rw [List.cons_interleave, List.cons_interleave]
    exact ⟨rfl, rfl⟩
  | succ i ih =>
    obtain ⟨a, l₁, rfl⟩ := List.exists_cons_of_length_pos (Nat.zero_lt_of_lt h₁)
    obtain ⟨b, l₂, rfl⟩ := List.exists_cons_of_length_pos (Nat.zero_lt_of_lt h₂)
    rw [List.cons_interleave, List.cons_interleave]
    exact ih (Nat.lt_of_succ_lt_succ h₁) (Nat.lt_of_succ_lt_succ h₂)

theorem nodup_interleave (h₁ : l₁.Nodup) (h₂ : l₂.Nodup) (h : ∀ a ∈ l₁, p a = true)
    (h' : ∀ a ∈ l₂, p a = false) : (l₁.interleave l₂).Nodup := by
  rw [List.interleave_perm_append.nodup_iff, List.nodup_append]
  refine ⟨h₁, h₂, fun a ha b hb heq => ?_⟩
  have hcontra := h' b hb
  rw [← heq, h a ha] at hcontra
  cases hcontra

end

/-! ### The candidates -/

/-- What `mergeDual` leaves after the filter of `dialParams`. -/
def usableAddrs (v6 v4 : Option RecordSet) (port : BitVec 16) (hasIpv6 : Bool) : List SocketAddr :=
  if hasIpv6 then (v6Addrs v6 port).interleave (v4Addrs v4 port) else v4Addrs v4 port

def dialCandidates (v6 v4 : Option RecordSet) (port : BitVec 16) (host : String) (hasIpv6 : Bool)
    (limits : LimitsConfig) : Except Error Params := do
  let candidates ← mergeDual v6 v4 port host
  dialParams hasIpv6 limits candidates

def Usable (v6 v4 : Option RecordSet) (port : BitVec 16) (hasIpv6 : Bool) (a : SocketAddr) : Prop :=
  hasIpv6 = true ∧ a ∈ v6Addrs v6 port ∨ a ∈ v4Addrs v4 port

def untruncated (hasIpv6 : Bool) (candidates : List SocketAddr) : List SocketAddr :=
  retainUnseen [] (if hasIpv6 then candidates else candidates.filter SocketAddr.isIpv4)

/-- The families take turns, IPv6 first, until one is exhausted. -/
structure Alternating (v6 v4 : List SocketAddr) (m : ℕ) (candidates : List SocketAddr) : Prop where
  ipv6 : ∀ i < v6.length, i < v4.length → 2 * i < m → candidates[2 * i]? = v6[i]?
  ipv4 : ∀ i < v6.length, i < v4.length → 2 * i + 1 < m → candidates[2 * i + 1]? = v4[i]?
  first : ∃ a rest, candidates = a :: rest ∧ a.isIpv6 = true
  both : 2 ≤ m → (∃ a ∈ candidates, a.isIpv6 = true) ∧ ∃ a ∈ candidates, a.isIpv4 = true

structure Chosen (v6 v4 : Option RecordSet) (port : BitVec 16) (host : String) (hasIpv6 : Bool)
    (m : ℕ) (candidates : List SocketAddr) : Prop where
  nodup : candidates.Nodup
  length_le : candidates.length ≤ m
  ne_nil : candidates ≠ []
  usable : ∀ a ∈ candidates, Usable v6 v4 port hasIpv6 a
  port_eq : ∀ a ∈ candidates, a.port = port
  noIpv6 : hasIpv6 = false → ∀ a ∈ candidates, a.isIpv6 = false
  order6 : candidates.filter SocketAddr.isIpv6 <+: firstOccurrences (v6Addrs v6 port)
  order4 : candidates.filter SocketAddr.isIpv4 <+: firstOccurrences (v4Addrs v4 port)
  complete : ∃ merged, mergeDual v6 v4 port host = .ok merged ∧
    candidates = (untruncated hasIpv6 merged).take m ∧
    ∀ a, Usable v6 v4 port hasIpv6 a → a ∈ untruncated hasIpv6 merged
  alternating : hasIpv6 = true → v6Addrs v6 port ≠ [] → v4Addrs v4 port ≠ [] →
    (v6Addrs v6 port).Nodup → (v4Addrs v4 port).Nodup →
    Alternating (v6Addrs v6 port) (v4Addrs v4 port) m candidates

section
variable {v6 v4 : Option RecordSet} {port : BitVec 16} {host : String} {hasIpv6 : Bool}
  {limits : LimitsConfig} {a : SocketAddr} {p : Params}

theorem isIpv4_of_mem_v6Addrs (h : a ∈ v6Addrs v6 port) : a.isIpv4 = false :=
  Bool.not_eq_true' _ ▸ isIpv6_of_mem_v6Addrs h

theorem isIpv6_of_mem_v4Addrs (h : a ∈ v4Addrs v4 port) : a.isIpv6 = false := by
  rw [SocketAddr.isIpv6, isIpv4_of_mem_v4Addrs h]
  rfl

theorem mem_usableAddrs : a ∈ usableAddrs v6 v4 port hasIpv6 ↔ Usable v6 v4 port hasIpv6 a := by
  cases hasIpv6 with
  | true =>
    rw [usableAddrs, if_pos rfl, List.interleave_perm_append.mem_iff, List.mem_append, Usable,
      and_iff_right rfl]
  | false =>
    rw [usableAddrs, if_neg Bool.false_ne_true, Usable]
    exact (or_iff_right fun h => Bool.false_ne_true h.1).symm

theorem retainUnseen_eq (seen l : List SocketAddr) :
    retainUnseen seen l = (firstOccurrences l).filter (· ∉ seen) := by
  induction l generalizing seen with
  | nil => rfl
  | cons b l ih =>
    rw [retainUnseen, firstOccurrences, ih, ih]
    by_cases hb : b ∈ seen
    · rw [if_pos hb, List.filter_cons_of_neg (by simpa using hb), List.filter_filter]
      refine List.filter_congr fun x _ => ?_
      by_cases hx : x = b <;> simp [hx, hb]
    · rw [if_neg hb, List.filter_cons_of_pos (by simpa using hb), List.filter_filter]
      congr 1
      refine List.filter_congr fun x _ => ?_
      simp [Bool.and_comm]

theorem retainUnseen_nil (l : List SocketAddr) : retainUnseen [] l = firstOccurrences l := by
  rw [retainUnseen_eq]
  simp

theorem filter_isIpv4_interleave :
    ((v6Addrs v6 port).interleave (v4Addrs v4 port)).filter SocketAddr.isIpv4 = v4Addrs v4 port :=
  filter_interleave_right (fun _ => isIpv4_of_mem_v6Addrs) fun _ => isIpv4_of_mem_v4Addrs

theorem filter_isIpv6_usableAddrs : (usableAddrs v6 v4 port hasIpv6).filter SocketAddr.isIpv6 =
    if hasIpv6 then v6Addrs v6 port else [] := by
  cases hasIpv6 with
  | true =>
    exact filter_interleave_left (fun _ => isIpv6_of_mem_v6Addrs) fun _ => isIpv6_of_mem_v4Addrs
  | false =>
    refine List.filter_eq_nil_iff.mpr fun b hb => ?_
    rw [isIpv6_of_mem_v4Addrs hb]
    nofun

theorem filter_isIpv4_usableAddrs :
    (usableAddrs v6 v4 port hasIpv6).filter SocketAddr.isIpv4 = v4Addrs v4 port := by
  cases hasIpv6 with
  | true => exact filter_isIpv4_interleave
  | false => exact List.filter_eq_self.mpr fun _ => isIpv4_of_mem_v4Addrs

theorem dialCandidates_cases (v6 v4 : Option RecordSet) (port : BitVec 16) (host : String)
    (hasIpv6 : Bool) (limits : LimitsConfig) :
    usableAddrs v6 v4 port hasIpv6 = [] ∧
      (∃ e, dialCandidates v6 v4 port host hasIpv6 limits = .error e) ∨
    usableAddrs v6 v4 port hasIpv6 ≠ [] ∧
      dialCandidates v6 v4 port host hasIpv6 limits = .ok
        { candidates :=
            (firstOccurrences (usableAddrs v6 v4 port hasIpv6)).take limits.maxDialCandidates,
          delay := limits.happyEyeballsDelay,
          totalTimeout := limits.connectTimeout,
          maxParallel := limits.maxParallelDials } := by
  rw [dialCandidates, mergeDual_eq]
  by_cases hnone : (v6Addrs v6 port).interleave (v4Addrs v4 port) = []
  · rw [if_pos hnone]
    refine .inl ⟨?_, _, rfl⟩
    cases hasIpv6 with
    | true => exact hnone
    | false => exact (List.interleave_eq_nil.mp hnone).2
  · have husable : (if hasIpv6 then (v6Addrs v6 port).interleave (v4Addrs v4 port) else
        ((v6Addrs v6 port).interleave (v4Addrs v4 port)).filter SocketAddr.isIpv4) =
        usableAddrs v6 v4 port hasIpv6 := by
      rw [filter_isIpv4_interleave, usableAddrs]
    rw [if_neg hnone]
    change _ ∧ (∃ e, dialParams _ _ _ = .error e) ∨ _ ∧ dialParams _ _ _ = .ok _
    rw [dialParams]
    simp only [husable, retainUnseen_nil, List.isEmpty_iff, if_neg hnone]
    by_cases hempty : usableAddrs v6 v4 port hasIpv6 = []
    · rw [if_pos hempty]
      exact .inl ⟨hempty, _, rfl⟩
    · rw [if_neg hempty]
      exact .inr ⟨hempty, rfl⟩

theorem port_of_usable (h : Usable v6 v4 port hasIpv6 a) : a.port = port := by
  rcases h with ⟨_, h⟩ | h
  · obtain ⟨ip, _, rfl⟩ := List.mem_map.mp h
    rfl
  · obtain ⟨ip, _, rfl⟩ := List.mem_map.mp h
    rfl

theorem alternating_take {l₆ l₄ : List SocketAddr} {m : ℕ} (hm : 1 ≤ m)
    (h₆ : ∀ a ∈ l₆, a.isIpv6 = true) (h₄ : ∀ a ∈ l₄, a.isIpv4 = true) (hne₆ : l₆ ≠ [])
    (hne₄ : l₄ ≠ []) : Alternating l₆ l₄ m ((l₆.interleave l₄).take m) := by
  obtain ⟨a, l₆, rfl⟩ := List.exists_cons_of_ne_nil hne₆
  obtain ⟨b, l₄, rfl⟩ := List.exists_cons_of_ne_nil hne₄
  refine ⟨?_, ?_, ?_, ?_⟩
  · intro i hi₆ hi₄ him
    rw [List.getElem?_take_of_lt him, (getElem?_interleave hi₆ hi₄).1]
  · intro i hi₆ hi₄ him
    rw [List.getElem?_take_of_lt him, (getElem?_interleave hi₆ hi₄).2]
  · obtain ⟨n, rfl⟩ := Nat.exists_eq_succ_of_ne_zero (Nat.one_le_iff_ne_zero.mp hm)
    rw [List.cons_interleave, List.take_succ_cons]
    exact ⟨a, _, rfl, h₆ a List.mem_cons_self⟩
  · intro h2
    obtain ⟨n, rfl⟩ := Nat.exists_eq_add_of_le' h2
    rw [List.cons_interleave, List.cons_interleave, List.take_succ_cons, List.take_succ_cons]
    exact ⟨⟨a, List.mem_cons_self, h₆ a List.mem_cons_self⟩,
      ⟨b, List.mem_cons_of_mem a List.mem_cons_self, h₄ b List.mem_cons_self⟩⟩

theorem untruncated_eq {merged : List SocketAddr} (h : mergeDual v6 v4 port host = .ok merged) :
    untruncated hasIpv6 merged = firstOccurrences (usableAddrs v6 v4 port hasIpv6) := by
  rw [mergeDual_eq] at h
  split at h
  · cases h
  · cases h
    rw [untruncated, retainUnseen_nil, filter_isIpv4_interleave, usableAddrs]

theorem chosen (hm : 1 ≤ limits.maxDialCandidates)
    (hp : dialCandidates v6 v4 port host hasIpv6 limits = .ok p) :
    Chosen v6 v4 port host hasIpv6 limits.maxDialCandidates p.candidates := by
  obtain ⟨merged, hmerged⟩ : ∃ merged, mergeDual v6 v4 port host = .ok merged := by
    cases hmerged : mergeDual v6 v4 port host with
    | error e =>
      rw [dialCandidates, hmerged] at hp
      cases hp
    | ok merged => exact ⟨merged, rfl⟩
  rcases dialCandidates_cases v6 v4 port host hasIpv6 limits with ⟨_, e, he⟩ | ⟨hne, hok⟩
  · rw [he] at hp
    cases hp
  rw [hok] at hp
  cases hp
  have hmem {a : SocketAddr} {m : ℕ}
      (ha : a ∈ (firstOccurrences (usableAddrs v6 v4 port hasIpv6)).take m) :
      Usable v6 v4 port hasIpv6 a :=
    mem_usableAddrs.mp (mem_firstOccurrences.mp (List.mem_of_mem_take ha))
  refine ⟨(firstOccurrences_nodup _).take, List.length_take_le _ _, ?_,
    fun a ha => hmem ha, fun a ha => port_of_usable (hmem ha), ?_, ?_, ?_,
    ⟨merged, hmerged, ?_, ?_⟩, ?_⟩
  · obtain ⟨a, rest, hcons⟩ := List.exists_cons_of_ne_nil hne
    obtain ⟨n, hn⟩ := Nat.exists_eq_succ_of_ne_zero (Nat.one_le_iff_ne_zero.mp hm)
    rw [hcons, hn, firstOccurrences, List.take_succ_cons]
    exact List.cons_ne_nil _ _
  · rintro rfl a ha
    rcases hmem ha with ⟨hfalse, _⟩ | h₄
    · cases hfalse
    · exact isIpv6_of_mem_v4Addrs h₄
  · have hprefix := (List.take_prefix limits.maxDialCandidates
      (firstOccurrences (usableAddrs v6 v4 port hasIpv6))).filter SocketAddr.isIpv6
    rw [filter_firstOccurrences, filter_isIpv6_usableAddrs] at hprefix
    refine hprefix.trans ?_
    cases hasIpv6 with
    | true => exact List.prefix_rfl
    | false => exact List.nil_prefix
  · have hprefix := (List.take_prefix limits.maxDialCandidates
      (firstOccurrences (usableAddrs v6 v4 port hasIpv6))).filter SocketAddr.isIpv4
    rwa [filter_firstOccurrences, filter_isIpv4_usableAddrs] at hprefix
  · rw [untruncated_eq hmerged]
  · intro a ha
    rw [untruncated_eq hmerged]
    exact mem_firstOccurrences.mpr (mem_usableAddrs.mpr ha)
  · rintro rfl hne₆ hne₄ hnodup₆ hnodup₄
    rw [usableAddrs, if_pos rfl, firstOccurrences_eq_self
      (nodup_interleave hnodup₆ hnodup₄ (fun _ => isIpv6_of_mem_v6Addrs)
        fun _ => isIpv6_of_mem_v4Addrs)]
    exact alternating_take hm (fun _ => isIpv6_of_mem_v6Addrs) (fun _ => isIpv4_of_mem_v4Addrs)
      hne₆ hne₄

end

/-- The dial gets the usable addresses, fairly ordered, and an error when there is none. -/
theorem dial_candidates_fair (v6 v4 : Option RecordSet) (port : BitVec 16) (host : String)
    (hasIpv6 : Bool) (limits : LimitsConfig) (hm : 1 ≤ limits.maxDialCandidates) :
    ((∃ e, dialCandidates v6 v4 port host hasIpv6 limits = .error e) ↔
      ∀ a, ¬ Usable v6 v4 port hasIpv6 a) ∧
    ∀ p, dialCandidates v6 v4 port host hasIpv6 limits = .ok p →
      Chosen v6 v4 port host hasIpv6 limits.maxDialCandidates p.candidates := by
  refine ⟨?_, fun p hp => chosen hm hp⟩
  have hnone : usableAddrs v6 v4 port hasIpv6 = [] ↔ ∀ a, ¬ Usable v6 v4 port hasIpv6 a := by
    rw [List.eq_nil_iff_forall_not_mem]
    exact forall_congr' fun a => not_congr mem_usableAddrs
  rw [← hnone]
  rcases dialCandidates_cases v6 v4 port host hasIpv6 limits with ⟨hempty, he⟩ | ⟨hne, hok⟩
  · exact iff_of_true he hempty
  · refine iff_of_false ?_ hne
    intro ⟨e, he⟩
    rw [hok] at he
    cases he

theorem dial_candidates_fair_both : ∃ p a b,
    dialCandidates (some [.v6 1, .v6 2])
    (some [.v4 1]) 443 "a.b" true (Config.default none).limits =
      .ok p ∧ p.candidates[0]? = some a ∧ p.candidates[1]? = some b ∧ a.isIpv6 ∧ b.isIpv4 := by
  rcases dialCandidates_cases (some [.v6 1, .v6 2]) (some [.v4 1]) 443 "a.b" true
    (Config.default none).limits with ⟨hnone, _⟩ | ⟨_, hp⟩
  · have hmem : SocketAddr.v4 1 443 ∈ usableAddrs (some [.v6 1, .v6 2]) (some [.v4 1]) 443 true :=
      mem_usableAddrs.mpr (.inr (by decide))
    rw [hnone] at hmem
    cases hmem
  have hchosen := (dial_candidates_fair (some [.v6 1, .v6 2]) (some [.v4 1]) 443 "a.b" true
    (Config.default none).limits (by decide)).2 _ hp
  have halternating := hchosen.alternating rfl (by decide) (by decide) (by decide) (by decide)
  refine ⟨_, .v6 1 443 0 0, .v4 1 443, hp, ?_, ?_, rfl, rfl⟩
  · exact halternating.ipv6 0 (by decide) (by decide) (by decide)
  · exact halternating.ipv4 0 (by decide) (by decide) (by decide)

end WarpRust.Proxy
