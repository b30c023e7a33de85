import WarpRust.Config.Admission
import WarpRust.Proxy.Handle

/-!
# TCP ports at full load

The accepted connections of `serve` with their two semaphores, each dial a `StaggeredDial`
state, next to one round of `probe_targets`, all on one generation. A dial task holds a port
while it runs and its connection holds it afterwards. The allocator is left unbounded: what is
in use is compared with the size of its pool.
-/

namespace WarpRust.Proxy.PortPool
open Library

abbrev Dial := StaggeredDial.State Unit

def ephemeralPortCount : ℕ := 32768

/-- What an accepted connection is at; `replying` writes an error reply, after the dial permit
was taken or without one. A connected slot has dropped its dial permit. -/
inductive Slot where
  | handshaking
  | replying (dialPermit : Bool)
  | resolving
  | dialing (p : StaggeredDial.Params) (s : Dial)
  | connected
  | associated

namespace Slot

def dialPermit : Slot → Bool
  | replying permit => permit
  | resolving | dialing _ _ => true
  | handshaking | connected | associated => false

def ports : Slot → ℕ
  | dialing _ s => s.attempts.running.length + s.held.length
  | connected => 1
  | handshaking | replying _ | resolving | associated => 0

def tick (d : Duration) : Slot → Slot
  | dialing p s => dialing p { s with now := s.now + d }
  | x => x

end Slot

structure State where
  now : Instant
  slots : List Slot
  probes : List SocketAddr

namespace State

def init (now : Instant) : State := ⟨now, [], []⟩

def dialPermits (s : State) : ℕ := s.slots.countP Slot.dialPermit

def ports (s : State) : ℕ := (s.slots.map Slot.ports).sum + s.probes.length

end State

inductive Move where
  | request (cmd : Socks5Command) (healthy : Bool)
  | resolved (hasIpv6 : Bool) (r : Except Error (List SocketAddr))
  | dial (a : StaggeredDial.Action Unit)
  | dialed

def afterRequest (l : LimitsConfig) (dialPermits : ℕ) (healthy : Bool) : Socks5Command → Slot
  | .udpAssociate => if healthy then .associated else .replying false
  | .tcpBind => .replying false
  | .tcpConnect =>
    if !healthy then .replying false
    else if dialPermits < l.maxPendingDials then .resolving
    else .replying false

def afterResolve (l : LimitsConfig) (now : Instant) (hasIpv6 : Bool) :
    Except Error (List SocketAddr) → Slot
  | .error _ => .replying true
  | .ok candidates =>
    match dialParams hasIpv6 l candidates with
    | .error _ => .replying true
    | .ok p => .dialing p (.init p now)

def afterDial : StaggeredDial.Answer Unit → Slot
  | .ok _ => .connected
  | .error _ => .replying true

def stepDial (p : StaggeredDial.Params) (s : Dial) : StaggeredDial.Action Unit → Option Dial
  | .tick _ => none
  | a => StaggeredDial.step p s a

def move (l : LimitsConfig) (s : State) : Slot → Move → Option Slot
  | .handshaking, .request cmd healthy => some (afterRequest l s.dialPermits healthy cmd)
  | .resolving, .resolved hasIpv6 r => some (afterResolve l s.now hasIpv6 r)
  | .dialing p d, .dial a => (stepDial p d a).map (.dialing p)
  | .dialing _ d, .dialed =>
    match d.phase with
    | .returned r => some (afterDial r)
    | _ => none
  | _, _ => none

/-- `close` is the end of a connection's task, or its abort. -/
inductive Action where
  | tick (d : Duration)
  | accept
  | move (i : ℕ) (m : Move)
  | close (i : ℕ)
  | probe
  | probed (i : ℕ)

def step (cfg : Config) (s : State) : Action → Option State
  | .tick d => some { s with now := s.now + d, slots := s.slots.map (Slot.tick d) }
  | .accept =>
    if s.slots.length < cfg.limits.maxConcurrentConnections then
      some { s with slots := s.slots ++ [.handshaking] }
    else none
  | .move i m =>
    match s.slots[i]? with
    | some x => (move cfg.limits s x m).map fun y => { s with slots := s.slots.set i y }
    | none => none
  | .close i =>
    if i < s.slots.length then some { s with slots := s.slots.eraseIdx i } else none
  | .probe => if s.probes.isEmpty then some { s with probes := cfg.health.targets } else none
  | .probed i =>
    if i < s.probes.length then some { s with probes := s.probes.eraseIdx i } else none

def machine (cfg : Config) : Machine State Action := ⟨step cfg⟩

def dialWidth (l : LimitsConfig) : ℕ := min l.maxParallelDials l.maxDialCandidates

/-- Every slot in use, every dial permit on a dial at full width, and a round of probes. -/
def fullLoad (cfg : Config) : ℕ :=
  cfg.limits.maxConcurrentConnections + cfg.limits.maxPendingDials * (dialWidth cfg.limits - 1) +
    cfg.health.targets.length

/-! ### The ports of one dial -/

section
variable {p : StaggeredDial.Params} {t₀ : Instant} {s s' : Dial}

def won (s : Dial) : ℕ := ((s.answer.map StaggeredDial.Answer.connections).getD []).length

theorem won_le_one (s : Dial) : won s ≤ 1 := by
  unfold won
  rcases s.answer with _ | (_ | ⟨addr, c⟩) <;> simp [StaggeredDial.Answer.connections]

theorem won_of_answer (h : s'.answer = s.answer) : won s' = won s := by
  rw [won, won, h]

theorem won_selecting (h : s.phase = .selecting) : won s = 0 := by
  simp [won, StaggeredDial.State.answer, h]

theorem held_length_le (s : Dial) : s.attempts.running.length + s.held.length ≤
    s.attempts.len + won s := by
  have hfinished : (StaggeredDial.connections s.attempts.finished).length ≤
      s.attempts.finished.length := List.length_filterMap_le _ _
  rw [StaggeredDial.State.held, List.length_append, StaggeredDial.JoinSet.len, won]
  omega

def Roomy (p : StaggeredDial.Params) (s : Dial) : Prop :=
  s.attempts.len + won s ≤ max p.maxParallel 1

theorem Roomy.of_lost (h : StaggeredDial.Inv p t₀ s) (hwon : won s = 0) : Roomy p s := by
  rw [Roomy, hwon, Nat.add_zero]
  exact h.books.bounded

theorem Roomy.init (hp : p.candidates ≠ []) (t₀ : Instant) : Roomy p (.init p t₀) := by
  refine .of_lost (StaggeredDial.Inv.init hp t₀) (won_selecting ?_)
  cases hc : p.candidates with
  | nil => exact absurd hc hp
  | cons first rest => simp [StaggeredDial.State.init, hc, StaggeredDial.State.start]

theorem won_joinNext (s : Dial) (hs : s.phase = .selecting) (x : StaggeredDial.Ended Unit) :
    won (s.joinNext p x) = 0 ∨ (s.joinNext p x).attempts = s.attempts := by
  cases hx : x.outcome.connection with
  | some c =>
    right
    cases ho : x.outcome with
    | done r =>
      cases r with
      | ok c => simp [StaggeredDial.State.joinNext, ho]
      | error e => simp [ho, StaggeredDial.Outcome.connection] at hx
    | panicked t | cancelled t => simp [ho, StaggeredDial.Outcome.connection] at hx
  | none =>
    left
    obtain ⟨e, he⟩ := StaggeredDial.joinNext_failed (p := p) hx s
    rw [he, StaggeredDial.State.refill]
    split
    · split
      · exact won_selecting hs
      · rfl
    · exact won_selecting hs

theorem Roomy.step {a : StaggeredDial.Action Unit} (hinv : StaggeredDial.Inv p t₀ s)
    (h : Roomy p s) (ha : StaggeredDial.step p s a = some s') : Roomy p s' := by
  have hinv' := StaggeredDial.step_inv hinv ha
  cases StaggeredDial.step_cases ha with
  | tick d => exact h
  | @finish i addr o hi ho =>
    rw [Roomy, StaggeredDial.len_complete hi]
    exact h
  | @join i x hs hi =>
    rcases won_joinNext (p := p)
      { s with attempts := s.attempts.take i, joined := s.joined ++ [x] } hs x with
      hlost | hattempts
    · exact .of_lost hinv' hlost
    · have hlen := StaggeredDial.len_take hi
      have hbounded := hinv.books.bounded
      have hone := won_le_one (StaggeredDial.State.joinNext p
        { s with attempts := s.attempts.take i, joined := s.joined ++ [x] } x)
      rw [Roomy, hattempts]
      show (s.attempts.take i).len + _ ≤ _
      omega
  | launch hs => exact .of_lost hinv' (won_selecting hs)
  | deadline => exact .of_lost hinv' rfl
  | @reap r i x hs hi =>
    have hlen := StaggeredDial.len_take hi
    have hkept : won { s with attempts := s.attempts.take i, reaped := s.reaped ++ [x] } = won s :=
      won_of_answer rfl
    unfold Roomy at h ⊢
    rw [hkept]
    show (s.attempts.take i).len + _ ≤ _
    omega
  | @ret r hs hemp =>
    have hkept : won { s with phase := .returned r } = won s := by
      apply won_of_answer
      simp [StaggeredDial.State.answer, hs]
    rw [Roomy, hkept]
    exact h

theorem attempts_le_candidates (h : StaggeredDial.Inv p t₀ s) :
    s.attempts.len + won s ≤ p.candidates.length := by
  have horder := congrArg List.length h.books.order
  have hplaced := h.books.placed.length_eq
  simp only [List.length_append, List.length_map, StaggeredDial.State.ended] at horder hplaced
  have hjoined : won s ≤ s.joined.length := by
    cases hr : s.answer with
    | none => simp [won, hr]
    | some r =>
      rw [won, hr, Option.map_some, Option.getD_some, ← (h.settled hr).connections_joined]
      exact List.length_filterMap_le _ _
  rw [StaggeredDial.JoinSet.len]
  omega

end

/-! ### The bound -/

section
variable {cfg : Config} {l : LimitsConfig} {s s' : State} {x y : Slot} {i : ℕ}

def Slot.Ok (l : LimitsConfig) : Slot → Prop
  | dialing p d =>
    p.maxParallel = l.maxParallelDials ∧ p.candidates.length ≤ l.maxDialCandidates ∧
      (∃ t₀, StaggeredDial.Inv p t₀ d) ∧ Roomy p d
  | _ => True

structure Inv (cfg : Config) (s : State) : Prop where
  connections : s.slots.length ≤ cfg.limits.maxConcurrentConnections
  permits : s.dialPermits ≤ cfg.limits.maxPendingDials
  slots : ∀ x ∈ s.slots, x.Ok cfg.limits
  probes : s.probes.length ≤ cfg.health.targets.length

inductive Step (cfg : Config) (s : State) : Action → State → Prop
  | tick (d : Duration) :
      Step cfg s (.tick d) { s with now := s.now + d, slots := s.slots.map (Slot.tick d) }
  | accept : s.slots.length < cfg.limits.maxConcurrentConnections →
      Step cfg s .accept { s with slots := s.slots ++ [.handshaking] }
  | move {i : ℕ} {m : Move} {x y : Slot} : s.slots[i]? = some x → move cfg.limits s x m = some y →
      Step cfg s (.move i m) { s with slots := s.slots.set i y }
  | close {i : ℕ} : Step cfg s (.close i) { s with slots := s.slots.eraseIdx i }
  | probe : s.probes.isEmpty = true → Step cfg s .probe { s with probes := cfg.health.targets }
  | probed {i : ℕ} : Step cfg s (.probed i) { s with probes := s.probes.eraseIdx i }

theorem step_cases {a : Action} (ha : step cfg s a = some s') : Step cfg s a s' := by
  cases a with
  | tick d =>
    obtain rfl := Option.some.inj ha
    exact .tick d
  | accept =>
    obtain ⟨hlt, rfl⟩ := of_guarded ha
    exact .accept hlt
  | move i m =>
    simp only [step] at ha
    split at ha
    · next x hi =>
      obtain ⟨y, hy, rfl⟩ := Option.map_eq_some_iff.mp ha
      exact .move hi hy
    · cases ha
  | close i =>
    obtain ⟨_, rfl⟩ := of_guarded ha
    exact .close
  | probe =>
    obtain ⟨hempty, rfl⟩ := of_guarded ha
    exact .probe hempty
  | probed i =>
    obtain ⟨_, rfl⟩ := of_guarded ha
    exact .probed

theorem dialParams_ok (hl : l.InRange) {hasIpv6 : Bool} {candidates : List SocketAddr}
    {p : StaggeredDial.Params} (h : dialParams hasIpv6 l candidates = .ok p) :
    p.candidates ≠ [] ∧ p.candidates.length ≤ l.maxDialCandidates ∧
      p.maxParallel = l.maxParallelDials := by
  simp only [dialParams] at h
  generalize (if hasIpv6 then candidates else candidates.filter SocketAddr.isIpv4) = usable at h
  split at h
  · cases h
  split at h
  · cases h
  next husable =>
    obtain rfl := Except.ok.inj h
    refine ⟨?_, List.length_take_le _ _, rfl⟩
    cases usable with
    | nil => exact absurd rfl husable
    | cons a usable =>
      have hmax := hl.candidates.1
      simp only [retainUnseen, List.not_mem_nil, if_false, ne_eq, List.take_eq_nil_iff, not_or,
        reduceCtorEq, not_false_eq_true, and_true]
      omega

theorem afterResolve_ok (hl : l.InRange) (now : Instant) (hasIpv6 : Bool)
    (r : Except Error (List SocketAddr)) : (afterResolve l now hasIpv6 r).Ok l := by
  cases r with
  | error e => trivial
  | ok candidates =>
    cases hp : dialParams hasIpv6 l candidates with
    | error e =>
      rw [afterResolve, hp]
      trivial
    | ok p =>
      obtain ⟨hne, hlen, hpar⟩ := dialParams_ok hl hp
      rw [afterResolve, hp]
      exact ⟨hpar, hlen, ⟨now, StaggeredDial.Inv.init hne now⟩, .init hne now⟩

theorem afterRequest_connect {dialPermits : ℕ} (h : dialPermits < l.maxPendingDials) :
    afterRequest l dialPermits true .tcpConnect = .resolving := if_pos h

theorem afterRequest_permit {dialPermits : ℕ} {healthy : Bool} {cmd : Socks5Command}
    (h : (afterRequest l dialPermits healthy cmd).dialPermit = true) :
    dialPermits < l.maxPendingDials := by
  cases cmd with
  | udpAssociate => cases healthy <;> cases h
  | tcpBind => cases h
  | tcpConnect =>
    cases healthy with
    | false => cases h
    | true =>
      by_cases hlt : dialPermits < l.maxPendingDials
      · exact hlt
      · simp [afterRequest, hlt, Slot.dialPermit] at h

theorem afterRequest_ok (dialPermits : ℕ) (healthy : Bool) (cmd : Socks5Command) :
    (afterRequest l dialPermits healthy cmd).Ok l := by
  cases cmd with
  | udpAssociate => cases healthy <;> trivial
  | tcpBind => trivial
  | tcpConnect =>
    unfold afterRequest
    split_ifs <;> trivial

theorem stepDial_eq {p : StaggeredDial.Params} {d d' : Dial} {a : StaggeredDial.Action Unit}
    (h : stepDial p d a = some d') : StaggeredDial.step p d a = some d' := by
  cases a with
  | tick => cases h
  | _ => exact h

theorem move_ok (hl : l.InRange) {m : Move} (hx : x.Ok l) (hm : move l s x m = some y) :
    y.Ok l ∧ (y.dialPermit = true → x.dialPermit = true ∨ s.dialPermits < l.maxPendingDials) := by
  unfold move at hm
  split at hm
  · next cmd healthy =>
    obtain rfl := Option.some.inj hm
    exact ⟨afterRequest_ok _ _ _, fun hpermit => .inr (afterRequest_permit hpermit)⟩
  · next hasIpv6 r =>
    obtain rfl := Option.some.inj hm
    exact ⟨afterResolve_ok hl _ _ _, fun _ => .inl rfl⟩
  · next p d a =>
    obtain ⟨d', hd, rfl⟩ := Option.map_eq_some_iff.mp hm
    obtain ⟨hpar, hcand, ⟨t₀, hinv⟩, hroomy⟩ := hx
    have hstep := stepDial_eq hd
    exact ⟨⟨hpar, hcand, ⟨t₀, StaggeredDial.step_inv hinv hstep⟩, hroomy.step hinv hstep⟩,
      fun _ => .inl rfl⟩
  · next p d =>
    split at hm
    · next r hr =>
      obtain rfl := Option.some.inj hm
      cases r <;> exact ⟨trivial, fun _ => .inl rfl⟩
    · cases hm
  · cases hm

theorem Slot.Ok.tick (hx : x.Ok l) (d : Duration) : (x.tick d).Ok l := by
  cases x with
  | dialing p s =>
    obtain ⟨hpar, hcand, ⟨t₀, hinv⟩, hroomy⟩ := hx
    have hstep : StaggeredDial.step p s (.tick d) = some { s with now := s.now + d } := rfl
    exact ⟨hpar, hcand, ⟨t₀, StaggeredDial.step_inv hinv hstep⟩, hroomy.step hinv hstep⟩
  | _ => trivial

@[simp] theorem Slot.tick_dialPermit (d : Duration) (x : Slot) :
    (x.tick d).dialPermit = x.dialPermit := by
  cases x <;> rfl

theorem Inv.init (cfg : Config) (t₀ : Instant) : Inv cfg (.init t₀) where
  connections := Nat.zero_le _
  permits := Nat.zero_le _
  slots := fun _ hx => absurd hx List.not_mem_nil
  probes := Nat.zero_le _

theorem countP_set_le {q : Slot → Bool} {slots : List Slot} {n : ℕ} (hi : slots[i]? = some x)
    (hn : slots.countP q ≤ n) (hy : q y = true → q x = true ∨ slots.countP q < n) :
    (slots.set i y).countP q ≤ n := by
  obtain ⟨hlt, rfl⟩ := List.getElem?_eq_some_iff.mp hi
  rw [List.countP_set hlt]
  by_cases hqy : q y = true
  · rcases hy hqy with hqx | hfree
    · have hpos : 0 < slots.countP q := List.countP_pos_iff.mpr ⟨_, List.getElem_mem hlt, hqx⟩
      simp only [hqx, hqy, if_true]
      omega
    · simp only [hqy, if_true]
      omega
  · simp only [hqy, Bool.false_eq_true, if_false]
    omega

theorem step_inv (hl : cfg.limits.InRange) (h : Inv cfg s) {a : Action}
    (ha : step cfg s a = some s') : Inv cfg s' := by
  cases step_cases ha with
  | tick d =>
    refine ⟨?_, ?_, ?_, h.probes⟩
    · rw [List.length_map]
      exact h.connections
    · show (s.slots.map (Slot.tick d)).countP Slot.dialPermit ≤ _
      have hsame : Slot.dialPermit ∘ Slot.tick d = Slot.dialPermit :=
        funext (Slot.tick_dialPermit d)
      rw [List.countP_map, hsame]
      exact h.permits
    · exact List.forall_mem_map.mpr fun x hx => (h.slots x hx).tick d
  | accept hlt =>
    refine ⟨?_, ?_, ?_, h.probes⟩
    · rw [List.length_append, List.length_singleton]
      exact hlt
    · show (s.slots ++ [Slot.handshaking]).countP Slot.dialPermit ≤ _
      rw [List.countP_append]
      exact h.permits
    · exact List.forall_mem_append.mpr ⟨h.slots, by simp [Slot.Ok]⟩
  | @move i m x y hi hm =>
    obtain ⟨hy, hpermit⟩ := move_ok hl (h.slots x (List.mem_of_getElem? hi)) hm
    refine ⟨?_, countP_set_le hi h.permits hpermit, ?_, h.probes⟩
    · rw [List.length_set]
      exact h.connections
    · intro z hz
      rcases List.mem_or_eq_of_mem_set hz with hz | rfl
      · exact h.slots z hz
      · exact hy
  | close =>
    have hsub := List.eraseIdx_sublist s.slots ‹ℕ›
    exact ⟨hsub.length_le.trans h.connections, hsub.countP_le.trans h.permits,
      fun x hx => h.slots x (hsub.mem hx), h.probes⟩
  | probe => exact ⟨h.connections, h.permits, h.slots, le_rfl⟩
  | probed =>
    have hsub := List.eraseIdx_sublist s.probes ‹ℕ›
    exact ⟨h.connections, h.permits, h.slots, hsub.length_le.trans h.probes⟩

theorem Slot.Ok.ports_le (hl : l.InRange) (hx : x.Ok l) :
    x.ports ≤ if x.dialPermit then dialWidth l else 1 := by
  cases x with
  | dialing p s =>
    obtain ⟨hpar, hcand, ⟨t₀, hinv⟩, hroomy⟩ := hx
    have hheld := held_length_le s
    have hattempts := attempts_le_candidates hinv
    have hpos := hl.parallel.1
    rw [Roomy, hpar] at hroomy
    simp only [Slot.ports, Slot.dialPermit, if_true, dialWidth]
    omega
  | connected => exact le_rfl
  | handshaking | replying | resolving | associated => exact Nat.zero_le _

theorem dialWidth_pos (hl : l.InRange) : 1 ≤ dialWidth l := le_min hl.parallel.1 hl.candidates.1

theorem Inv.ports_le (hl : cfg.limits.InRange) (h : Inv cfg s) : s.ports ≤ fullLoad cfg := by
  have hsum := sum_map_le_countP (q := Slot.dialPermit) (f := Slot.ports)
    (p := dialWidth cfg.limits)
    (m := 1) s.slots
    (fun x hx hq => by simpa only [hq, if_true] using (h.slots x hx).ports_le hl)
    fun x hx hq => by simpa only [hq, Bool.false_eq_true, if_false] using (h.slots x hx).ports_le hl
  have hcount := List.countP_le_length (p := Slot.dialPermit) (l := s.slots)
  have hconn := h.connections
  have hprobes := h.probes
  obtain ⟨k, hk⟩ := Nat.exists_eq_add_of_le (dialWidth_pos hl)
  have hdials : s.dialPermits * k ≤ cfg.limits.maxPendingDials * k :=
    Nat.mul_le_mul_right k h.permits
  rw [State.dialPermits] at hdials
  rw [hk, Nat.mul_add, Nat.mul_one, Nat.mul_one] at hsum
  rw [State.ports, fullLoad, hk, Nat.add_sub_cancel_left]
  omega

end

/-! ### Full load is reached -/

section
variable {cfg : Config} {l : LimitsConfig} {t₀ now : Instant} {slots before after : List Slot}
  {x y : Slot}

def Reach (cfg : Config) (t₀ now : Instant) (slots : List Slot) : Prop :=
  (machine cfg).Reachable (.init t₀) ⟨now, slots, []⟩

theorem Reach.accept (h : Reach cfg t₀ now slots)
    (hlt : slots.length < cfg.limits.maxConcurrentConnections) :
    Reach cfg t₀ now (slots ++ [.handshaking]) :=
  Machine.Reachable.next (a := .accept) h (if_pos hlt)

theorem Reach.tick (h : Reach cfg t₀ now slots) (d : Duration) :
    Reach cfg t₀ (now + d) (slots.map (Slot.tick d)) :=
  Machine.Reachable.next (a := .tick d) h rfl

theorem Reach.move {m : Move} (h : Reach cfg t₀ now (before ++ x :: after))
    (hm : move cfg.limits ⟨now, before ++ x :: after, []⟩ x m = some y) :
    Reach cfg t₀ now (before ++ y :: after) := by
  refine Machine.Reachable.next (a := .move before.length m) h ?_
  simp [machine, step, hm]

theorem Reach.sweep {m : Move} {before : List Slot} (n : ℕ)
    (h : Reach cfg t₀ now (before ++ List.replicate n x))
    (hm : ∀ slots, PortPool.move cfg.limits ⟨now, slots, []⟩ x m = some y) :
    Reach cfg t₀ now (before ++ List.replicate n y) := by
  induction n generalizing before with
  | zero => exact h
  | succ n ih =>
    rw [List.replicate_succ] at h ⊢
    have hnext := h.move (hm _)
    rw [List.append_cons] at hnext ⊢
    exact ih hnext

def addresses : List SocketAddr := [.v4 1 443, .v4 2 443, .v4 3 443, .v4 4 443]

def widest (l : LimitsConfig) : StaggeredDial.Params where
  candidates := addresses.take (dialWidth l)
  delay := l.happyEyeballsDelay
  totalTimeout := l.connectTimeout
  maxParallel := l.maxParallelDials

theorem dialWidth_le (hl : l.InRange) : dialWidth l ≤ 4 := (min_le_left _ _).trans hl.parallel.2

theorem length_widest (hl : l.InRange) : (widest l).candidates.length = dialWidth l :=
  List.length_take_of_le (dialWidth_le hl)

theorem widest_candidates (hl : l.InRange) :
    ∃ first rest, (widest l).candidates = first :: rest := by
  apply List.exists_cons_of_ne_nil
  apply List.ne_nil_of_length_pos
  rw [length_widest hl]
  exact dialWidth_pos hl

theorem retainUnseen_eq_self {seen candidates : List SocketAddr} (hnodup : candidates.Nodup)
    (hseen : ∀ a ∈ candidates, a ∉ seen) : retainUnseen seen candidates = candidates := by
  induction candidates generalizing seen with
  | nil => rfl
  | cons a candidates ih =>
    obtain ⟨ha, hrest⟩ := List.nodup_cons.mp hnodup
    rw [retainUnseen, if_neg (hseen a List.mem_cons_self), ih hrest]
    intro b hb
    rw [List.mem_cons, not_or]
    exact ⟨fun h => ha (h ▸ hb), hseen b (List.mem_cons_of_mem a hb)⟩

theorem dialParams_widest (hl : l.InRange) :
    dialParams true l (widest l).candidates = .ok (widest l) := by
  have hnodup : (widest l).candidates.Nodup := List.Pairwise.take (by decide)
  obtain ⟨first, rest, hcons⟩ := widest_candidates hl
  have hlen := length_widest hl
  have htake : (widest l).candidates.take l.maxDialCandidates = (widest l).candidates := by
    apply List.take_of_length_le
    rw [hlen]
    exact min_le_right _ _
  have hempty : ¬ (widest l).candidates.isEmpty = true := by
    rw [hcons]
    nofun
  simp only [dialParams, if_true, if_neg hempty,
    retainUnseen_eq_self hnodup (fun a _ => List.not_mem_nil), htake]
  rfl

theorem Reach.dial (hl : cfg.limits.InRange) (h : Reach cfg t₀ now slots)
    (hconn : slots.length < cfg.limits.maxConcurrentConnections)
    (hpend : slots.countP Slot.dialPermit < cfg.limits.maxPendingDials) :
    Reach cfg t₀ now
      (slots ++ [.dialing (widest cfg.limits) (.init (widest cfg.limits) now)]) := by
  have hresolving : Reach cfg t₀ now (slots ++ [.resolving]) := by
    refine (h.accept hconn).move (m := .request .tcpConnect true) ?_
    refine congrArg some (afterRequest_connect ?_)
    rw [State.dialPermits, List.countP_append]
    exact hpend
  refine hresolving.move (m := .resolved true (.ok (widest cfg.limits).candidates)) ?_
  simp [PortPool.move, afterResolve, dialParams_widest hl]

theorem Reach.connect (hl : cfg.limits.InRange) (h : Reach cfg t₀ now slots)
    (hconn : slots.length < cfg.limits.maxConcurrentConnections)
    (hpend : slots.countP Slot.dialPermit < cfg.limits.maxPendingDials) :
    Reach cfg t₀ now (slots ++ [.connected]) := by
  obtain ⟨first, rest, hcons⟩ := widest_candidates hl
  have hdial := h.dial hl hconn hpend
  simp only [StaggeredDial.State.init, hcons] at hdial
  have hfinished := hdial.move (m := .dial (.finish 0 (.done (.ok ())))) rfl
  have hjoined := hfinished.move (m := .dial (.join 0)) rfl
  have hreturned := hjoined.move (m := .dial .ret) rfl
  exact hreturned.move (m := .dialed) rfl

structure Ready (p : StaggeredDial.Params) (n : ℕ) (d : Dial) : Prop where
  selecting : d.phase = .selecting
  running : d.attempts.running.length = n
  finished : d.attempts.finished = []
  pending : d.pending.length + n = p.candidates.length
  launch : d.launch ≤ d.now + p.delay

theorem Ready.init {p : StaggeredDial.Params} (hp : p.candidates ≠ []) (t₀ : Instant) :
    Ready p 1 (.init p t₀) := by
  obtain ⟨first, rest, hcons⟩ := List.exists_cons_of_ne_nil hp
  refine ⟨?_, ?_, ?_, ?_, ?_⟩
  all_goals simp [StaggeredDial.State.init, hcons, StaggeredDial.State.start,
    StaggeredDial.JoinSet.spawn, StaggeredDial.JoinSet.empty]

theorem Ready.next {p : StaggeredDial.Params} {n : ℕ} {d : Dial} (h : Ready p n d)
    (hcand : n < p.candidates.length) (hpar : n < p.maxParallel) :
    ∃ d', stepDial p { d with now := d.now + p.delay } .launch = some d' ∧ Ready p (n + 1) d' := by
  obtain ⟨hselecting, hrunning, hfinished, hpending, hlaunch⟩ := h
  obtain ⟨addr, rest, hcons⟩ : ∃ addr rest, d.pending = addr :: rest := by
    apply List.exists_cons_of_ne_nil
    rintro hnil
    rw [hnil, List.length_nil] at hpending
    omega
  have hlen : d.attempts.len < max p.maxParallel 1 := by
    rw [StaggeredDial.JoinSet.len, hrunning, hfinished]
    exact lt_max_of_lt_left hpar
  refine ⟨StaggeredDial.State.startNext p { d with now := d.now + p.delay } addr rest, ?_, ?_⟩
  · simp [stepDial, StaggeredDial.step, hselecting, hfinished, hcons, hlen, hlaunch]
  · rw [hcons, List.length_cons] at hpending
    refine ⟨hselecting, ?_, hfinished, ?_, le_rfl⟩
    · simp [StaggeredDial.State.startNext, StaggeredDial.State.start, StaggeredDial.JoinSet.spawn,
        hrunning]
    · show rest.length + (n + 1) = _
      omega

theorem Ready.ports {p : StaggeredDial.Params} {n : ℕ} {d : Dial} (h : Ready p n d) :
    (Slot.dialing p d).ports = n := by
  have hheld : d.held = [] := by
    simp [StaggeredDial.State.held, StaggeredDial.State.answer, h.selecting, h.finished,
      StaggeredDial.connections]
  rw [Slot.ports, hheld, h.running]
  rfl

theorem reach_connected (hl : cfg.limits.InRange) (t₀ : Instant) {n : ℕ}
    (hn : n ≤ cfg.limits.maxConcurrentConnections) :
    Reach cfg t₀ t₀ (List.replicate n .connected) := by
  induction n with
  | zero => exact Machine.Reachable.refl _
  | succ n ih =>
    have hnext := (ih (by omega)).connect hl (by rw [List.length_replicate]; omega) (by
      rw [List.countP_replicate]
      exact hl.pending.1)
    rwa [← List.replicate_succ'] at hnext

theorem reach_dialing (hl : cfg.limits.InRange) (t₀ : Instant) {n m : ℕ}
    (hnm : n + m ≤ cfg.limits.maxConcurrentConnections) (hm : m ≤ cfg.limits.maxPendingDials) :
    Reach cfg t₀ t₀ (List.replicate n .connected ++
      List.replicate m (.dialing (widest cfg.limits) (.init (widest cfg.limits) t₀))) := by
  induction m with
  | zero =>
    rw [List.replicate_zero, List.append_nil]
    exact reach_connected hl t₀ (by omega)
  | succ m ih =>
    have hnext := (ih (by omega) (by omega)).dial hl
      (by simp only [List.length_append, List.length_replicate]; omega) (by
        simp only [List.countP_append, List.countP_replicate, Slot.dialPermit, if_true,
          Bool.false_eq_true, if_false]
        omega)
    rwa [List.append_assoc, ← List.replicate_succ'] at hnext

theorem reach_width (hl : cfg.limits.InRange) (t₀ : Instant) {n m k : ℕ}
    (hnm : n + m ≤ cfg.limits.maxConcurrentConnections) (hm : m ≤ cfg.limits.maxPendingDials)
    (hk : k + 1 ≤ dialWidth cfg.limits) :
    ∃ now d, Ready (widest cfg.limits) (k + 1) d ∧ Reach cfg t₀ now
      (List.replicate n .connected ++ List.replicate m (.dialing (widest cfg.limits) d)) := by
  induction k with
  | zero =>
    refine ⟨t₀, _, Ready.init ?_ t₀, reach_dialing hl t₀ hnm hm⟩
    obtain ⟨first, rest, hcons⟩ := widest_candidates hl
    rw [hcons]
    nofun
  | succ k ih =>
    obtain ⟨now, d, hready, hreach⟩ := ih (by omega)
    have hcand : k + 1 < (widest cfg.limits).candidates.length := by
      rw [length_widest hl]
      omega
    have hpar : k + 1 < (widest cfg.limits).maxParallel :=
      Nat.lt_of_succ_le (hk.trans (min_le_left _ _))
    obtain ⟨d', hlaunch, hready'⟩ := hready.next hcand hpar
    have hticked := hreach.tick (widest cfg.limits).delay
    rw [List.map_append, List.map_replicate, List.map_replicate] at hticked
    refine ⟨_, d', hready', hticked.sweep (m := .dial .launch) m fun slots => ?_⟩
    simp only [PortPool.move, Slot.tick, hlaunch, Option.map_some]

theorem exists_fullLoad (hl : cfg.limits.InRange) (t₀ : Instant) :
    ∃ s, (machine cfg).Reachable (.init t₀) s ∧ s.ports = fullLoad cfg := by
  have hwidth := dialWidth_pos hl
  have hpend := hl.pending.2
  obtain ⟨k, hk⟩ := Nat.exists_eq_add_of_le' hwidth
  obtain ⟨now, d, hready, hreach⟩ := reach_width hl t₀
    (n := cfg.limits.maxConcurrentConnections - cfg.limits.maxPendingDials)
    (Nat.sub_add_cancel hpend).le le_rfl hk.ge
  refine ⟨_, Machine.Reachable.next (a := .probe) hreach rfl, ?_⟩
  rw [fullLoad, hk, Nat.add_sub_cancel]
  simp only [State.ports, List.map_append, List.map_replicate, List.sum_append,
    List.sum_replicate_nat, hready.ports, Nat.mul_add]
  simp only [Slot.ports, Nat.mul_one]
  omega

end

/-- For an accepted configuration the pool lasts in every reachable state if and only if full
load fits into it, the probes included. -/
theorem ports_bounded_iff {h : HostFacts} {cfg : Config} {isContainer trustedHostNet : Bool}
    (hv : cfg.validateWith h isContainer trustedHostNet = .ok ()) (t₀ : Instant) :
    (∀ s, (machine cfg).Reachable (.init t₀) s → s.ports ≤ ephemeralPortCount) ↔
      fullLoad cfg ≤ ephemeralPortCount := by
  have hl := Config.limits_inRange hv
  constructor
  · intro hall
    obtain ⟨s, hs, hports⟩ := exists_fullLoad hl t₀
    exact hports ▸ hall s hs
  · intro hfits s hs
    have hinv : Inv cfg s := hs.invariant (Inv.init cfg t₀) fun _ _ _ hi ha => step_inv hl hi ha
    exact (hinv.ports_le hl).trans hfits

theorem ports_bounded_iff_default :
    (∀ s, (machine (Config.default none)).Reachable (.init 0) s → s.ports ≤ ephemeralPortCount) ↔
      fullLoad (Config.default none) ≤ ephemeralPortCount :=
  ports_bounded_iff Config.default_valid 0

def widestConfig : Config :=
  { Config.default (some 17179869184) with
    limits := { (Config.default (some 17179869184)).limits with
      maxConcurrentConnections := 16384, maxPendingDials := 16384 } }

theorem ports_exhausted : ¬ ∀ (h : HostFacts) (cfg : Config) (isContainer trustedHostNet : Bool)
    (t₀ : Instant) (s : State), cfg.validateWith h isContainer trustedHostNet = .ok () →
    (machine cfg).Reachable (.init t₀) s → s.ports ≤ ephemeralPortCount := by
  intro hall
  have hv : widestConfig.validateWith ⟨false, some 17179869184⟩ false false = .ok () := by
    decide +kernel
  obtain ⟨s, hs, hports⟩ := exists_fullLoad (Config.limits_inRange hv) 0
  have hle := hall _ _ _ _ _ s hv hs
  rw [hports] at hle
  exact absurd hle (by decide)

end WarpRust.Proxy.PortPool
