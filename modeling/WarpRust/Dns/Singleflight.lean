import WarpRust.Dns.Cache
import WarpRust.Library.Lists
import WarpRust.Library.Machine

/-!
# Singleflight

Concurrent calls of `query_record_dedup` for one key. A step is what a call does between two
awaits or lock sections; `cancel` is the drop of its future, by the caller or by a panic. A
channel is the `watch` pair of one leader, and the slot of the in-flight map names the channel
whose receiver template it holds.
-/

namespace WarpRust.Dns.Singleflight
open Library

structure Params where
  cfg : DnsConfig
  key : Key

abbrev Result := Except Error RecordSet
abbrev Shared := Except Unit RecordSet

def share : Result → Shared
  | .ok records => .ok records
  | .error _ => .error ()

def deliver (key : Key) : Shared → Result
  | .ok records => .ok records
  | .error () => .error (negErr key)

inductive Lead where
  | querying
  | got (r : Result)
  | cached (r : Result)
  | published (r : Result)
  | led (r : Result)
  | cancelled

inductive Wait where
  | waiting
  | selfQuery
  | waited (r : Result)
  | answered (r : Result)
  | cancelled

inductive Proc where
  | leader (chan : ℕ) (l : Lead)
  | waiter (chan : ℕ) (w : Wait)

structure Channel where
  leader : ℕ
  value : Option Shared
  senderAlive : Bool

structure State where
  now : Instant
  procs : List Proc
  channels : List Channel
  inFlight : Option ℕ
  cache : Cache
  stores : List (ℕ × Option RecordSet)

def State.init (cache : Cache) (now : Instant) : State := ⟨now, [], [], none, cache, []⟩

inductive Action where
  | tick (d : Duration)
  | call
  | backend (i : ℕ) (r : Result)
  | store (i : ℕ) (victim : Key)
  | publish (i : ℕ)
  | remove (i : ℕ)
  | wake (i : ℕ)
  | cancel (i : ℕ)

namespace State

def setLead (s : State) (i c : ℕ) (l : Lead) : State :=
  { s with procs := s.procs.set i (.leader c l) }

def setWait (s : State) (i c : ℕ) (w : Wait) : State :=
  { s with procs := s.procs.set i (.waiter c w) }

def send (s : State) (c : ℕ) (v : Shared) : State :=
  { s with channels := s.channels.modify c fun ch => { ch with value := some v } }

/-- The guard takes the key out of the map, then the sender is dropped. -/
def leave (s : State) (c : ℕ) : State :=
  { s with
    inFlight := none,
    channels := s.channels.modify c fun ch => { ch with senderAlive := false } }

end State

def step (p : Params) (s : State) : Action → Option State
  | .tick d => some { s with now := s.now + d }
  | .call =>
    match s.inFlight with
    | some c => some { s with procs := s.procs ++ [.waiter c .waiting] }
    | none =>
      some { s with
        procs := s.procs ++ [.leader s.channels.length .querying],
        channels := s.channels ++ [⟨s.procs.length, none, true⟩],
        inFlight := some s.channels.length }
  | .backend i r =>
    match s.procs[i]? with
    | some (.leader c .querying) => some (s.setLead i c (.got r))
    | some (.waiter c .selfQuery) => some (s.setWait i c (.answered r))
    | _ => none
  | .store i victim =>
    match s.procs[i]? with
    | some (.leader c (.got r)) =>
      if ¬ evicts p.cfg s.cache p.key ∨ victim ∈ s.cache ∨ s.cache.keys = [] then
        some { s.setLead i c (.cached r) with
          cache := storeCache p.cfg s.cache s.now victim p.key r.toOption,
          stores := s.stores ++ [(i, r.toOption)] }
      else none
    | _ => none
  | .publish i =>
    match s.procs[i]? with
    | some (.leader c (.cached r)) => some ((s.setLead i c (.published r)).send c (share r))
    | _ => none
  | .remove i =>
    match s.procs[i]? with
    | some (.leader c (.published r)) => some ((s.setLead i c (.led r)).leave c)
    | _ => none
  | .wake i =>
    match s.procs[i]? with
    | some (.waiter c .waiting) =>
      match s.channels[c]? with
      | some ch =>
        match ch.value with
        | some v => some (s.setWait i c (.waited (deliver p.key v)))
        | none => if ch.senderAlive then none else some (s.setWait i c .selfQuery)
      | none => none
    | _ => none
  | .cancel i =>
    match s.procs[i]? with
    | some (.leader c .querying) => some ((s.setLead i c .cancelled).leave c)
    | some (.waiter c .waiting) => some (s.setWait i c .cancelled)
    | some (.waiter c .selfQuery) => some (s.setWait i c .cancelled)
    | _ => none

def machine (p : Params) : Machine State Action := ⟨step p⟩

namespace Lead

def live : Lead → Bool
  | .querying | .got _ | .cached _ | .published _ => true
  | .led _ | .cancelled => false

def value : Lead → Option Shared
  | .published r | .led r => some (share r)
  | _ => none

def stored : Lead → Option Result
  | .cached r | .published r | .led r => some r
  | _ => none

end Lead

inductive Step (p : Params) (s : State) : Action → State → Prop
  | tick (d : Duration) : Step p s (.tick d) { s with now := s.now + d }
  | wait {c : ℕ} :
      s.inFlight = some c →
      Step p s .call { s with procs := s.procs ++ [.waiter c .waiting] }
  | lead :
      s.inFlight = none →
      Step p s .call { s with
        procs := s.procs ++ [.leader s.channels.length .querying],
        channels := s.channels ++ [⟨s.procs.length, none, true⟩],
        inFlight := some s.channels.length }
  | got {i c : ℕ} {r : Result} :
      s.procs[i]? = some (.leader c .querying) →
      Step p s (.backend i r) (s.setLead i c (.got r))
  | answered {i c : ℕ} {r : Result} :
      s.procs[i]? = some (.waiter c .selfQuery) →
      Step p s (.backend i r) (s.setWait i c (.answered r))
  | store {i c : ℕ} {r : Result} {victim : Key} :
      s.procs[i]? = some (.leader c (.got r)) →
      Step p s (.store i victim) { s.setLead i c (.cached r) with
        cache := storeCache p.cfg s.cache s.now victim p.key r.toOption,
        stores := s.stores ++ [(i, r.toOption)] }
  | publish {i c : ℕ} {r : Result} :
      s.procs[i]? = some (.leader c (.cached r)) →
      Step p s (.publish i) ((s.setLead i c (.published r)).send c (share r))
  | remove {i c : ℕ} {r : Result} :
      s.procs[i]? = some (.leader c (.published r)) →
      Step p s (.remove i) ((s.setLead i c (.led r)).leave c)
  | woken {i c : ℕ} {ch : Channel} {v : Shared} :
      s.procs[i]? = some (.waiter c .waiting) → s.channels[c]? = some ch → ch.value = some v →
      Step p s (.wake i) (s.setWait i c (.waited (deliver p.key v)))
  | closed {i c : ℕ} {ch : Channel} :
      s.procs[i]? = some (.waiter c .waiting) → s.channels[c]? = some ch → ch.value = none →
      ch.senderAlive = false → Step p s (.wake i) (s.setWait i c .selfQuery)
  | cancelLead {i c : ℕ} :
      s.procs[i]? = some (.leader c .querying) →
      Step p s (.cancel i) ((s.setLead i c .cancelled).leave c)
  | cancelWait {i c : ℕ} {w : Wait} :
      s.procs[i]? = some (.waiter c w) → Step p s (.cancel i) (s.setWait i c .cancelled)

variable {p : Params} {s s' : State}

theorem step_cases {a : Action} (ha : step p s a = some s') : Step p s a s' := by
  cases a with
  | tick d =>
    obtain rfl := Option.some.inj ha
    exact .tick d
  | call =>
    simp only [step] at ha
    split at ha
    · next c hc =>
      obtain rfl := Option.some.inj ha
      exact .wait hc
    · next hc =>
      obtain rfl := Option.some.inj ha
      exact .lead hc
  | backend i r =>
    simp only [step] at ha
    split at ha
    · next c hi =>
      obtain rfl := Option.some.inj ha
      exact .got hi
    · next c hi =>
      obtain rfl := Option.some.inj ha
      exact .answered hi
    · cases ha
  | store i victim =>
    simp only [step] at ha
    split at ha
    · next c r hi =>
      obtain ⟨_, rfl⟩ := of_guarded ha
      exact .store hi
    · cases ha
  | publish i =>
    simp only [step] at ha
    split at ha
    · next c r hi =>
      obtain rfl := Option.some.inj ha
      exact .publish hi
    · cases ha
  | remove i =>
    simp only [step] at ha
    split at ha
    · next c r hi =>
      obtain rfl := Option.some.inj ha
      exact .remove hi
    · cases ha
  | wake i =>
    simp only [step] at ha
    split at ha
    · next c hi =>
      split at ha
      · next ch hc =>
        split at ha
        · next v hv =>
          obtain rfl := Option.some.inj ha
          exact .woken hi hc hv
        · next hv =>
          obtain ⟨halive, rfl⟩ := of_guarded_not ha
          exact .closed hi hc hv (Bool.eq_false_iff.mpr halive)
      · cases ha
    · cases ha
  | cancel i =>
    simp only [step] at ha
    split at ha
    · next c hi =>
      obtain rfl := Option.some.inj ha
      exact .cancelLead hi
    · next c hi =>
      obtain rfl := Option.some.inj ha
      exact .cancelWait hi
    · next c hi =>
      obtain rfl := Option.some.inj ha
      exact .cancelWait hi
    · cases ha

def WaitOk (p : Params) (ch : Channel) : Wait → Prop
  | .waiting | .cancelled => True
  | .selfQuery | .answered _ => ch.value = none ∧ ch.senderAlive = false
  | .waited r => ∃ v, ch.value = some v ∧ r = deliver p.key v

/-- Every channel mirrors its leader, every waiter has its channel, and the slot belongs to
the one live leader. -/
structure Inv (p : Params) (s : State) : Prop where
  leads : ∀ (i c : ℕ) (l : Lead), s.procs[i]? = some (.leader c l) →
    s.channels[c]? = some ⟨i, l.value, l.live⟩
  owned : ∀ (c : ℕ) (ch : Channel), s.channels[c]? = some ch →
    ∃ l, s.procs[ch.leader]? = some (.leader c l)
  waits : ∀ (i c : ℕ) (w : Wait), s.procs[i]? = some (.waiter c w) →
    ∃ ch, s.channels[c]? = some ch ∧ WaitOk p ch w
  slot : ∀ c : ℕ, s.inFlight = some c →
    ∃ (i : ℕ) (l : Lead), s.procs[i]? = some (.leader c l) ∧ l.live = true
  slotted : ∀ (i c : ℕ) (l : Lead), s.procs[i]? = some (.leader c l) → l.live = true →
    s.inFlight = some c
  stored : ∀ (i c : ℕ) (l : Lead) (r : Result), s.procs[i]? = some (.leader c l) →
    l.stored = some r → (i, r.toOption) ∈ s.stores

theorem Inv.init (cache : Cache) (now : Instant) : Inv p (State.init cache now) := by
  refine ⟨?_, ?_, ?_, ?_, ?_, ?_⟩
  all_goals simp [State.init]

theorem Inv.leader_unique (h : Inv p s) {i j c : ℕ} {l m : Lead}
    (hi : s.procs[i]? = some (.leader c l)) (hj : s.procs[j]? = some (.leader c m)) : i = j := by
  have hch := h.leads i c l hi
  rw [h.leads j c m hj] at hch
  exact (congrArg Channel.leader (Option.some.inj hch)).symm

theorem Inv.lead (h : Inv p s) {i c : ℕ} {l l' : Lead} (hi : s.procs[i]? = some (.leader c l))
    (hlive : l.live = true) (hvalue : ∀ v, l.value = some v → l'.value = some v)
    (hprocs : s'.procs = s.procs.set i (.leader c l'))
    (hchannels : ∀ x, s'.channels[x]? =
      if c = x then some ⟨i, l'.value, l'.live⟩ else s.channels[x]?)
    (hslot : s'.inFlight = if l'.live then s.inFlight else none)
    (hstores : ∀ e ∈ s.stores, e ∈ s'.stores)
    (hstored : ∀ r, l'.stored = some r → l.stored = some r ∨ (i, r.toOption) ∈ s'.stores) :
    Inv p s' := by
  have hch := h.leads i c l hi
  have hin := h.slotted i c l hi hlive
  have hget (x : ℕ) : s'.procs[x]? = if i = x then some (.leader c l') else s.procs[x]? := by
    rw [hprocs]
    exact getElem?_set_of_some hi x
  -- A leader afterwards is this one, or was one before on another channel.
  have hleader (x d : ℕ) (m : Lead) (hx : s'.procs[x]? = some (.leader d m)) :
      (i = x ∧ c = d ∧ l' = m) ∨ (s.procs[x]? = some (.leader d m) ∧ c ≠ d) := by
    rw [hget] at hx
    by_cases hix : i = x
    · rw [if_pos hix] at hx
      obtain ⟨hcd, hm⟩ := Proc.leader.inj (Option.some.inj hx)
      exact .inl ⟨hix, hcd, hm⟩
    · rw [if_neg hix] at hx
      refine .inr ⟨hx, ?_⟩
      rintro rfl
      exact hix (h.leader_unique hi hx)
  refine ⟨?_, ?_, ?_, ?_, ?_, ?_⟩
  · intro x d m hx
    rw [hchannels]
    rcases hleader x d m hx with ⟨rfl, rfl, rfl⟩ | ⟨hx, hcd⟩
    · exact if_pos rfl
    · rw [if_neg hcd]
      exact h.leads x d m hx
  · intro d ch hd
    rw [hchannels] at hd
    by_cases hcd : c = d
    · subst hcd
      rw [if_pos rfl] at hd
      obtain rfl := Option.some.inj hd
      exact ⟨l', by rw [hget, if_pos rfl]⟩
    · rw [if_neg hcd] at hd
      obtain ⟨m, hm⟩ := h.owned d ch hd
      refine ⟨m, ?_⟩
      rw [hget, if_neg]
      · exact hm
      · intro hix
        rw [← hix, hi] at hm
        exact hcd (Proc.leader.inj (Option.some.inj hm)).1
  · intro x d w hx
    rw [hget] at hx
    have hix : i ≠ x := by
      rintro rfl
      rw [if_pos rfl] at hx
      cases hx
    rw [if_neg hix] at hx
    obtain ⟨ch, hd, hw⟩ := h.waits x d w hx
    by_cases hcd : c = d
    · subst hcd
      obtain rfl := Option.some.inj (hch.symm.trans hd)
      refine ⟨⟨i, l'.value, l'.live⟩, by rw [hchannels, if_pos rfl], ?_⟩
      cases w with
      | waiting => trivial
      | cancelled => trivial
      | selfQuery => exact absurd (hlive.symm.trans hw.2) (by simp)
      | answered => exact absurd (hlive.symm.trans hw.2) (by simp)
      | waited r =>
        obtain ⟨v, hv, hr⟩ := hw
        exact ⟨v, hvalue v hv, hr⟩
    · exact ⟨ch, by rw [hchannels, if_neg hcd]; exact hd, hw⟩
  · intro d hd
    rw [hslot] at hd
    by_cases hl : l'.live = true
    · rw [if_pos hl, hin] at hd
      obtain rfl := Option.some.inj hd
      exact ⟨i, l', by rw [hget, if_pos rfl], hl⟩
    · rw [if_neg hl] at hd
      cases hd
  · intro x d m hx hm
    rw [hslot]
    rcases hleader x d m hx with ⟨rfl, rfl, rfl⟩ | ⟨hx, hcd⟩
    · rw [if_pos hm]
      exact hin
    · -- Two live leaders would share the slot, and so the channel.
      have hd := h.slotted x d m hx hm
      rw [hin] at hd
      exact absurd (Option.some.inj hd) hcd
  · intro x d m r hx hr
    rcases hleader x d m hx with ⟨rfl, rfl, rfl⟩ | ⟨hx, _⟩
    · rcases hstored r hr with hold | hnew
      · exact hstores _ (h.stored i c l r hi hold)
      · exact hnew
    · exact hstores _ (h.stored x d m r hx hr)

theorem Inv.frame (h : Inv p s) {procs : List Proc}
    (hleaders : ∀ (x d : ℕ) (l : Lead),
      procs[x]? = some (.leader d l) ↔ s.procs[x]? = some (.leader d l))
    (hwaits : ∀ (x d : ℕ) (w : Wait), procs[x]? = some (.waiter d w) →
      ∃ ch, s.channels[d]? = some ch ∧ WaitOk p ch w) : Inv p { s with procs := procs } where
  leads x d l hx := h.leads x d l ((hleaders x d l).mp hx)
  owned d ch hd := by
    obtain ⟨l, hl⟩ := h.owned d ch hd
    exact ⟨l, (hleaders _ d l).mpr hl⟩
  waits := hwaits
  slot d hd := by
    obtain ⟨x, l, hx, hl⟩ := h.slot d hd
    exact ⟨x, l, (hleaders x d l).mpr hx, hl⟩
  slotted x d l hx := h.slotted x d l ((hleaders x d l).mp hx)
  stored x d l r hx := h.stored x d l r ((hleaders x d l).mp hx)

theorem Inv.wait (h : Inv p s) {i c : ℕ} {w w' : Wait} {ch : Channel}
    (hi : s.procs[i]? = some (.waiter c w)) (hc : s.channels[c]? = some ch)
    (hw : WaitOk p ch w') : Inv p (s.setWait i c w') := by
  have hget (x : ℕ) : (s.procs.set i (.waiter c w'))[x]? =
      if i = x then some (.waiter c w') else s.procs[x]? := getElem?_set_of_some hi x
  apply h.frame
  · intro x d l
    rw [hget]
    by_cases hix : i = x
    · rw [if_pos hix, ← hix, hi]
      exact iff_of_false nofun nofun
    · rw [if_neg hix]
  · intro x d v hx
    rw [hget] at hx
    by_cases hix : i = x
    · rw [if_pos hix] at hx
      obtain ⟨rfl, rfl⟩ := Proc.waiter.inj (Option.some.inj hx)
      exact ⟨ch, hc, hw⟩
    · rw [if_neg hix] at hx
      exact h.waits x d v hx

theorem Inv.call_wait (h : Inv p s) {c : ℕ} (hc : s.inFlight = some c) :
    Inv p { s with procs := s.procs ++ [.waiter c .waiting] } := by
  have hget (x : ℕ) := getElem?_append_singleton s.procs (.waiter c .waiting) x
  apply h.frame
  · intro x d l
    rw [hget]
    by_cases hx : x = s.procs.length
    · rw [if_pos hx, hx, List.getElem?_eq_none le_rfl]
      exact iff_of_false nofun nofun
    · rw [if_neg hx]
  · intro x d w hx
    rw [hget] at hx
    split at hx
    · obtain ⟨rfl, rfl⟩ := Proc.waiter.inj (Option.some.inj hx)
      obtain ⟨i, l, hi, _⟩ := h.slot c hc
      exact ⟨_, h.leads i c l hi, trivial⟩
    · exact h.waits x d w hx

theorem Inv.call_lead (h : Inv p s) (hc : s.inFlight = none) :
    Inv p { s with
      procs := s.procs ++ [.leader s.channels.length .querying],
      channels := s.channels ++ [⟨s.procs.length, none, true⟩],
      inFlight := some s.channels.length } := by
  have hget (x : ℕ) := getElem?_append_singleton s.procs (.leader s.channels.length .querying) x
  have hgetc (x : ℕ) := getElem?_append_singleton s.channels ⟨s.procs.length, none, true⟩ x
  have hltc {x : ℕ} {ch : Channel} (hx : s.channels[x]? = some ch) : x ≠ s.channels.length :=
    ((List.getElem?_eq_some_iff.mp hx).1).ne
  have hlt {x : ℕ} {q : Proc} (hx : s.procs[x]? = some q) : x ≠ s.procs.length :=
    ((List.getElem?_eq_some_iff.mp hx).1).ne
  have hnone {x d : ℕ} {l : Lead} (hx : s.procs[x]? = some (.leader d l)) (hl : l.live = true) :
      False := by
    have := h.slotted x d l hx hl
    rw [hc] at this
    cases this
  refine ⟨?_, ?_, ?_, ?_, ?_, ?_⟩
  · intro x d l hx
    rw [hget] at hx
    split at hx
    · next hxl =>
      obtain ⟨rfl, rfl⟩ := Proc.leader.inj (Option.some.inj hx)
      rw [hgetc, if_pos rfl, hxl]
      rfl
    · have hd := h.leads x d l hx
      rw [hgetc, if_neg (hltc hd)]
      exact hd
  · intro d ch hd
    rw [hgetc] at hd
    split at hd
    · next hdl =>
      obtain rfl := Option.some.inj hd
      exact ⟨.querying, by rw [hget, if_pos rfl, hdl]⟩
    · obtain ⟨l, hl⟩ := h.owned d ch hd
      exact ⟨l, by rw [hget, if_neg (hlt hl)]; exact hl⟩
  · intro x d w hx
    rw [hget] at hx
    split at hx
    · cases hx
    · obtain ⟨ch, hd, hw⟩ := h.waits x d w hx
      exact ⟨ch, by rw [hgetc, if_neg (hltc hd)]; exact hd, hw⟩
  · intro d hd
    obtain rfl := Option.some.inj hd
    exact ⟨s.procs.length, .querying, by rw [hget, if_pos rfl], rfl⟩
  · intro x d l hx hl
    rw [hget] at hx
    split at hx
    · obtain ⟨rfl, rfl⟩ := Proc.leader.inj (Option.some.inj hx)
      rfl
    · exact (hnone hx hl).elim
  · intro x d l r hx hr
    rw [hget] at hx
    split at hx
    · obtain ⟨rfl, rfl⟩ := Proc.leader.inj (Option.some.inj hx)
      cases hr
    · exact h.stored x d l r hx hr

theorem Inv.channel_unchanged (h : Inv p s) {i c : ℕ} {l l' : Lead}
    (hi : s.procs[i]? = some (.leader c l)) (hvalue : l'.value = l.value) (hlive : l'.live = l.live)
    (x : ℕ) :
    s.channels[x]? = if c = x then some ⟨i, l'.value, l'.live⟩ else s.channels[x]? := by
  by_cases hcx : c = x
  · rw [if_pos hcx, ← hcx, hvalue, hlive]
    exact h.leads i c l hi
  · rw [if_neg hcx]

theorem step_inv {a : Action} (h : Inv p s) (ha : Step p s a s') : Inv p s' := by
  cases ha with
  | tick d => exact { h with }
  | wait hc => exact h.call_wait hc
  | lead hc => exact h.call_lead hc
  | @got i c r hi =>
    exact h.lead hi rfl (by simp [Lead.value]) rfl (h.channel_unchanged hi rfl rfl) rfl
      (fun _ => id)
      (by simp [Lead.stored])
  | @answered i c r hi =>
    obtain ⟨ch, hc, hw⟩ := h.waits i c _ hi
    exact h.wait hi hc hw
  | @store i c r victim hi =>
    refine h.lead hi rfl (by simp [Lead.value]) rfl (h.channel_unchanged hi rfl rfl) rfl
      (fun _ => List.mem_append_left _) ?_
    intro r' hr
    obtain rfl := Option.some.inj hr
    exact .inr List.mem_concat_self
  | @publish i c r hi =>
    have hch := h.leads i c _ hi
    refine h.lead hi rfl (by simp [Lead.value]) rfl ?_ rfl (fun _ => id) fun _ hr => .inl hr
    intro x
    exact getElem?_modify_of_some hch _ x
  | @remove i c r hi =>
    have hch := h.leads i c _ hi
    refine h.lead hi rfl ?_ rfl ?_ rfl (fun _ => id) fun _ hr => .inl hr
    · exact fun _ hv => hv
    · intro x
      exact getElem?_modify_of_some hch _ x
  | @woken i c ch v hi hc hv => exact h.wait hi hc ⟨v, hv, rfl⟩
  | @closed i c ch hi hc hv halive => exact h.wait hi hc ⟨hv, halive⟩
  | @cancelLead i c hi =>
    have hch := h.leads i c _ hi
    refine h.lead hi rfl (by simp [Lead.value]) rfl ?_ rfl (fun _ => id) (by simp [Lead.stored])
    intro x
    exact getElem?_modify_of_some hch _ x
  | @cancelWait i c w hi =>
    obtain ⟨ch, hc, _⟩ := h.waits i c w hi
    exact h.wait hi hc trivial

theorem exec_inv {cache : Cache} {t₀ : Instant}
    (h : (machine p).Reachable (State.init cache t₀) s) : Inv p s :=
  h.invariant (Inv.init cache t₀) fun _ _ _ hi ha => step_inv hi (step_cases ha)

/-! ## Safety -/

def State.LiveLeader (s : State) (i : ℕ) : Prop :=
  ∃ (c : ℕ) (l : Lead), s.procs[i]? = some (.leader c l) ∧ l.live = true

def State.Completed (s : State) (c : ℕ) (r : Result) : Prop :=
  ∃ i : ℕ, s.procs[i]? = some (.leader c (.published r)) ∨ s.procs[i]? = some (.leader c (.led r))

def Proc.isQuerying : Proc → Bool
  | .leader _ .querying => true
  | _ => false

def Proc.isSelfQuery : Proc → Bool
  | .waiter _ .selfQuery => true
  | _ => false

def State.orphaned (s : State) : Proc → Bool
  | .waiter c .waiting | .waiter c .selfQuery =>
    s.procs.any fun
      | .leader d .cancelled => c == d
      | _ => false
  | _ => false

def State.queries (s : State) : ℕ :=
  s.procs.countP Proc.isQuerying + s.procs.countP Proc.isSelfQuery

def State.orphans (s : State) : ℕ := s.procs.countP s.orphaned

structure Safe (p : Params) (s : State) : Prop where
  slot : s.inFlight.isSome = true ↔ ∃! i, s.LiveLeader i
  unique : ∀ i j, s.LiveLeader i → s.LiveLeader j → i = j
  waiting : ∀ i c : ℕ, s.procs[i]? = some (.waiter c .waiting) → ∃ ch, s.channels[c]? = some ch ∧
    ((∃ r, s.Completed c r ∧ ch.value = some (share r) ∧
        step p s (.wake i) = some (s.setWait i c (.waited (deliver p.key (share r))))) ∨
      (ch.senderAlive = true ∧ ∃ l, s.procs[ch.leader]? = some (.leader c l) ∧ l.live = true) ∨
      (ch.senderAlive = false ∧ step p s (.wake i) = some (s.setWait i c .selfQuery)))
  waited : ∀ (i c : ℕ) (r : Result), s.procs[i]? = some (.waiter c (.waited r)) →
    ∃ r', s.Completed c r' ∧ (∀ records, r' = .ok records → r = .ok records) ∧
    (∀ e, r' = .error e → r = .error (negErr p.key))
  alone : ∀ i c : ℕ, s.procs[i]? = some (.waiter c .selfQuery) ∨
    (∃ r, s.procs[i]? = some (.waiter c (.answered r))) →
    ∃ j : ℕ, s.procs[j]? = some (.leader c .cancelled)
  queries : s.queries ≤ 1 + s.orphans
  stored : ∀ (i c : ℕ) (l : Lead) (r : Result), s.procs[i]? = some (.leader c l) →
    l.stored = some r → (i, r.toOption) ∈ s.stores

structure Guarded (p : Params) (x : Taken State Action) : Prop where
  own : ∀ (i c : ℕ) (l : Lead), x.action = .remove i ∨ x.action = .cancel i →
    x.before.procs[i]? = some (.leader c l) → x.before.inFlight = some c
  removed : ∀ c, x.before.inFlight = some c → x.after.inFlight = some c ∨
    ∃ (i : ℕ) (l : Lead), (x.action = .remove i ∨ x.action = .cancel i) ∧
      x.before.procs[i]? = some (.leader c l)
  cache : x.after.cache = x.before.cache ∨ ∃ (i c : ℕ) (r : Result) (victim : Key),
    x.action = .store i victim ∧ x.before.procs[i]? = some (.leader c (.got r)) ∧
    x.after.cache = storeCache p.cfg x.before.cache x.before.now victim p.key r.toOption

theorem Inv.unique (h : Inv p s) {i j : ℕ} (hi : s.LiveLeader i) (hj : s.LiveLeader j) : i = j := by
  obtain ⟨c, l, hi, hl⟩ := hi
  obtain ⟨d, m, hj, hm⟩ := hj
  have hc := h.slotted i c l hi hl
  rw [h.slotted j d m hj hm] at hc
  obtain rfl := Option.some.inj hc
  exact h.leader_unique hi hj

/-- A channel with a value has a leader that completed, one without has a live leader or a
cancelled one. -/
theorem Inv.channel (h : Inv p s) {c : ℕ} {ch : Channel} (hc : s.channels[c]? = some ch) :
    (∃ r, s.Completed c r ∧ ch.value = some (share r)) ∨
      (ch.value = none ∧ ch.senderAlive = true ∧
        ∃ l, s.procs[ch.leader]? = some (.leader c l) ∧ l.live = true) ∨
      (ch.value = none ∧ ch.senderAlive = false ∧
        s.procs[ch.leader]? = some (.leader c .cancelled)) := by
  obtain ⟨l, hl⟩ := h.owned c ch hc
  have hch := h.leads ch.leader c l hl
  rw [hc] at hch
  have hvalue : ch.value = l.value := congrArg Channel.value (Option.some.inj hch)
  have halive : ch.senderAlive = l.live := congrArg Channel.senderAlive (Option.some.inj hch)
  cases l with
  | published r => exact .inl ⟨r, ⟨_, .inl hl⟩, hvalue⟩
  | led r => exact .inl ⟨r, ⟨_, .inr hl⟩, hvalue⟩
  | cancelled => exact .inr (.inr ⟨hvalue, halive, hl⟩)
  | querying => exact .inr (.inl ⟨hvalue, halive, _, hl, rfl⟩)
  | got r => exact .inr (.inl ⟨hvalue, halive, _, hl, rfl⟩)
  | cached r => exact .inr (.inl ⟨hvalue, halive, _, hl, rfl⟩)

theorem Inv.cancelled (h : Inv p s) {i c : ℕ} {w : Wait} (hi : s.procs[i]? = some (.waiter c w))
    (hw : ∀ ch, WaitOk p ch w → ch.value = none ∧ ch.senderAlive = false) :
    ∃ j : ℕ, s.procs[j]? = some (.leader c .cancelled) := by
  obtain ⟨ch, hc, hok⟩ := h.waits i c w hi
  obtain ⟨hv, halive⟩ := hw ch hok
  rcases h.channel hc with ⟨r, _, hr⟩ | ⟨_, ha, _⟩ | ⟨_, _, hl⟩
  · rw [hv] at hr
    cases hr
  · rw [halive] at ha
    cases ha
  · exact ⟨_, hl⟩

theorem Inv.queries_le (h : Inv p s) : s.queries ≤ 1 + s.orphans := by
  apply Nat.add_le_add
  · apply countP_le_one
    intro i j x y hx hy hqx hqy
    apply h.unique
    · cases x with
      | waiter c w => cases hqx
      | leader c l =>
        cases l with
        | querying => exact ⟨c, _, hx, rfl⟩
        | _ => cases hqx
    · cases y with
      | waiter c w => cases hqy
      | leader c l =>
        cases l with
        | querying => exact ⟨c, _, hy, rfl⟩
        | _ => cases hqy
  · apply List.countP_mono_left
    intro x hx hq
    obtain ⟨i, hi⟩ := List.getElem?_of_mem hx
    cases x with
    | leader c l => cases hq
    | waiter c w =>
      cases w with
      | selfQuery =>
        obtain ⟨j, hj⟩ := h.cancelled hi fun ch hok => hok
        simp only [State.orphaned, List.any_eq_true]
        exact ⟨_, List.mem_of_getElem? hj, by simp⟩
      | _ => cases hq

theorem Inv.safe (h : Inv p s) : Safe p s := by
  refine ⟨?_, fun i j => h.unique, ?_, ?_, ?_, h.queries_le, h.stored⟩
  · constructor
    · intro hs
      obtain ⟨c, hc⟩ := Option.isSome_iff_exists.mp hs
      obtain ⟨i, l, hi, hl⟩ := h.slot c hc
      exact ⟨i, ⟨c, l, hi, hl⟩, fun j hj => h.unique hj ⟨c, l, hi, hl⟩⟩
    · rintro ⟨i, ⟨c, l, hi, hl⟩, _⟩
      rw [h.slotted i c l hi hl]
      rfl
  · intro i c hi
    obtain ⟨ch, hc, _⟩ := h.waits i c _ hi
    refine ⟨ch, hc, ?_⟩
    rcases h.channel hc with ⟨r, hr, hv⟩ | ⟨_, ha, hl⟩ | ⟨hv, ha, _⟩
    · exact .inl ⟨r, hr, hv, by simp [step, hi, hc, hv]⟩
    · exact .inr (.inl ⟨ha, hl⟩)
    · exact .inr (.inr ⟨ha, by simp [step, hi, hc, hv, ha]⟩)
  · intro i c r hi
    obtain ⟨ch, hc, v, hv, rfl⟩ := h.waits i c _ hi
    rcases h.channel hc with ⟨r, hr, hv'⟩ | ⟨hn, _⟩ | ⟨hn, _⟩
    · rw [hv] at hv'
      obtain rfl := Option.some.inj hv'
      refine ⟨r, hr, ?_, ?_⟩
      · rintro records rfl
        rfl
      · rintro e rfl
        rfl
    · rw [hn] at hv
      cases hv
    · rw [hn] at hv
      cases hv
  · rintro i c (hi | ⟨r, hi⟩)
    · exact h.cancelled hi fun ch hok => hok
    · exact h.cancelled hi fun ch hok => hok

theorem step_guarded {a : Action} (h : Inv p s) (ha : Step p s a s') : Guarded p ⟨s, a, s'⟩ := by
  have hown : ∀ i c l, a = .remove i ∨ a = .cancel i → s.procs[i]? = some (.leader c l) →
      s.inFlight = some c := by
    intro i c l hact hi
    cases ha with
    | @remove j d r hj =>
      obtain rfl : j = i := by simpa using hact
      rw [hi] at hj
      obtain ⟨rfl, rfl⟩ := Proc.leader.inj (Option.some.inj hj)
      exact h.slotted j c _ hi rfl
    | @cancelLead j d hj =>
      obtain rfl : j = i := by simpa using hact
      rw [hi] at hj
      obtain ⟨rfl, rfl⟩ := Proc.leader.inj (Option.some.inj hj)
      exact h.slotted j c _ hi rfl
    | @cancelWait j d w hj =>
      obtain rfl : j = i := by simpa using hact
      rw [hi] at hj
      cases hj
    | _ => simp at hact
  refine ⟨hown, ?_, ?_⟩
  · intro c hc
    cases ha with
    | lead hnone =>
      rw [hnone] at hc
      cases hc
    | @remove i d r hi =>
      have := hown i d _ (.inl rfl) hi
      rw [hc] at this
      obtain rfl := Option.some.inj this
      exact .inr ⟨i, _, .inl rfl, hi⟩
    | @cancelLead i d hi =>
      have := hown i d _ (.inr rfl) hi
      rw [hc] at this
      obtain rfl := Option.some.inj this
      exact .inr ⟨i, _, .inr rfl, hi⟩
    | _ => exact .inl hc
  · cases ha with
    | @store i c r victim hi => exact .inr ⟨i, c, r, victim, rfl, hi, rfl⟩
    | _ => exact .inl rfl

theorem singleflight_safe {cache : Cache} {t₀ : Instant} {l : List (Taken State Action)}
    (h : (machine p).Exec (State.init cache t₀) l s) : Safe p s ∧ ∀ x ∈ l, Guarded p x := by
  refine ⟨(exec_inv h.reachable).safe, ?_⟩
  intro x hx
  obtain ⟨hreach, hstep⟩ := h.taken hx
  exact step_guarded (exec_inv hreach) (step_cases hstep)

theorem singleflight_safe_cancelled :
    let p : Params := ⟨.default, ("warp.test", qtypeA)⟩
    ∃ (l : List (Taken State Action)) (s : State),
      (machine p).Exec (State.init ∅ 0) l s ∧ s.stores = [(2, some [.v4 1])] ∧
        s.queries = 1 ∧ s.orphans = 1 ∧ Safe p s ∧ ∀ x ∈ l, Guarded p x := by
  intro p
  obtain ⟨l, hl, _⟩ := Machine.exec_of_run (M := machine p) (s := State.init ∅ 0)
    [.call, .call, .cancel 0, .wake 1, .call, .call, .backend 2 (.ok [.v4 1]),
      .store 2 p.key, .publish 2, .remove 2, .wake 3] rfl
  exact ⟨l, _, hl, rfl, rfl, rfl, singleflight_safe hl⟩

end WarpRust.Dns.Singleflight
