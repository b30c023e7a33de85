import Mathlib.Data.List.Basic
import WarpRust.Basic
import WarpRust.Library.Machine

/-!
# Tunnel generations, leases and their calls

The swappable tunnel: every generation ever installed, the retirement timers, the dials and
binds under way, the leases they gave out and the operations on those leases. A generation is
named by its index. `load` and `check` are the two halves of `live_generation`, between which
another task may run; the first poll of an operation is a step of its own as well.
-/

namespace WarpRust.Tunnel
open Library

inductive ReplaceReason where
  | refresh
  | recovery
  deriving DecidableEq

structure GenerationPolicy where
  drainGrace : Duration
  recoveryDrainGrace : Duration
  maxAge : Duration

namespace GenerationPolicy

def default : GenerationPolicy where
  drainGrace := .fromSecs (5 * 60)
  recoveryDrainGrace := .fromSecs 15
  maxAge := .fromSecs (26 * 60 * 60)

def graceFor (policy : GenerationPolicy) : ReplaceReason → Duration
  | .refresh => policy.drainGrace
  | .recovery => policy.recoveryDrainGrace

end GenerationPolicy

def minTunnelDrainGrace : Duration := .fromSecs 30

def retirementDelay (age : Duration) (policy : GenerationPolicy) (reason : ReplaceReason) :
    Duration :=
  let grace := policy.graceFor reason
  max (min grace (policy.maxAge - age)) (min minTunnelDrainGrace grace)

/-- `retiredAt` is the `retired` token with the time of its cancellation; `replaced` is
history. -/
structure Generation where
  hasIpv6 : Bool
  createdAt : Instant
  retiredAt : Option Instant
  replaced : Option (Instant × ReplaceReason)

namespace Generation

def retired (g : Generation) : Bool := g.retiredAt.isSome

def forceRetire (now : Instant) (g : Generation) : Generation :=
  if g.retired then g else { g with retiredAt := some now }

end Generation

inductive CallKind where
  | dial (addr : SocketAddr)
  | bindUdp
  | bindUdpV6
  deriving DecidableEq

/-- A call past `load`. `retiredThen` is history: was the generation retired when the last
await or check of the call ended? -/
inductive Phase where
  | loaded
  | live (retiredThen : Bool)
  | connected (retiredThen : Bool)

structure Call where
  kind : CallKind
  gen : ℕ
  phase : Phase

structure Lease where
  id : ℕ
  gen : ℕ
  retiredThen : Bool

inductive OpKind where
  | read
  | writeAll
  | sendTo
  | recvFrom

structure Op where
  lease : ℕ
  gen : ℕ
  kind : OpKind
  retiredAtStart : Bool
  touched : Bool

structure Finished where
  op : Op
  result : Except NetstackError ℕ

abbrev Answer := Except Error (Option ℕ)

structure State where
  now : Instant
  current : Option ℕ
  gens : List Generation
  timers : List (ℕ × Instant)
  calls : List Call
  leases : List Lease
  nextLease : ℕ
  ops : List Op
  finished : List Finished
  answers : List (CallKind × Answer)

namespace State

def fromManaged (hasIpv6 : Bool) (now : Instant) : State where
  now := now
  current := some 0
  gens := [⟨hasIpv6, now, none, none⟩]
  timers := []
  calls := []
  leases := []
  nextLease := 0
  ops := []
  finished := []
  answers := []

def alive (s : State) (id : ℕ) : Bool :=
  s.current == some id || s.calls.any (·.gen == id) || s.leases.any (·.gen == id)

def forceRetire (s : State) (id : ℕ) : State :=
  { s with gens := s.gens.modify id (.forceRetire s.now) }

def scheduleRetirement (policy : GenerationPolicy) (s : State) (id : ℕ) (g : Generation)
    (reason : ReplaceReason) : State :=
  let delay := retirementDelay (s.now - g.createdAt) policy reason
  if delay = 0 then s.forceRetire id
  else { s with timers := s.timers ++ [(id, s.now + delay)] }

def install (s : State) (hasIpv6 : Bool) : State :=
  { s with current := some s.gens.length, gens := s.gens ++ [⟨hasIpv6, s.now, none, none⟩] }

def markReplaced (s : State) (id : ℕ) (reason : ReplaceReason) : State :=
  { s with gens := s.gens.modify id fun g => { g with replaced := some (s.now, reason) } }

def replace (policy : GenerationPolicy) (s : State) (hasIpv6 : Bool) (reason : ReplaceReason) :
    State :=
  match s.current with
  | none => s.install hasIpv6
  | some id =>
    match s.gens[id]? with
    | none => s.install hasIpv6
    | some g =>
      ((s.install hasIpv6).markReplaced id reason).scheduleRetirement policy id g reason

def clear (s : State) : State :=
  match s.current with
  | none => s
  | some id => { s.forceRetire id with current := none }

def answer (s : State) (kind : CallKind) (r : Answer) : State :=
  { s with answers := s.answers ++ [(kind, r)] }

def endCall (s : State) (i : ℕ) (kind : CallKind) (r : Answer) : State :=
  State.answer { s with calls := s.calls.eraseIdx i } kind r

def setPhase (s : State) (i : ℕ) (c : Call) (phase : Phase) : State :=
  { s with calls := s.calls.set i { c with phase } }

def giveLease (s : State) (i : ℕ) (c : Call) (retiredThen : Bool) : State :=
  State.endCall
    { s with
      leases := s.leases ++ [⟨s.nextLease, c.gen, retiredThen⟩], nextLease := s.nextLease + 1 }
    i c.kind (.ok (some s.nextLease))

def endOp (s : State) (j : ℕ) (o : Op) (result : Except NetstackError ℕ) : State :=
  { s with ops := s.ops.eraseIdx j, finished := s.finished ++ [⟨o, result⟩] }

end State

inductive Action where
  | tick (d : Duration)
  | replace (hasIpv6 : Bool) (reason : ReplaceReason)
  | clear
  | fire (i : ℕ)
  | load (kind : CallKind)
  | check (i : ℕ)
  | connect (i : ℕ) (r : Except NetstackError Unit)
  | dialed (i : ℕ)
  | bind (i : ℕ) (r : Except NetstackError Unit)
  | dropCall (i : ℕ)
  | startOp (i : ℕ) (kind : OpKind)
  | pollOp (j : ℕ) (inner : Option (Except NetstackError ℕ))
  | dropOp (j : ℕ)
  | dropLease (i : ℕ)

def State.retired (s : State) (id : ℕ) : Bool :=
  match s.gens[id]? with
  | some g => g.retired
  | none => false

def State.hasIpv6 (s : State) (id : ℕ) : Bool :=
  match s.gens[id]? with
  | some g => g.hasIpv6
  | none => false

def step (policy : GenerationPolicy) (s : State) : Action → Option State
  | .tick d =>
    if s.timers.all fun t => s.now + d ≤ t.2 then some { s with now := s.now + d } else none
  | .replace hasIpv6 reason => some (s.replace policy hasIpv6 reason)
  | .clear => some s.clear
  | .fire i =>
    match s.timers[i]? with
    | some (id, due) =>
      if due ≤ s.now then
        let s := { s with timers := s.timers.eraseIdx i }
        some (if s.alive id then s.forceRetire id else s)
      else none
    | none => none
  | .load kind =>
    match s.current with
    | none => some (s.answer kind (.error .tunnelNotReady))
    | some id => some { s with calls := s.calls ++ [⟨kind, id, .loaded⟩] }
  | .check i =>
    match s.calls[i]? with
    | some ⟨kind, gen, .loaded⟩ =>
      if s.retired gen then some (s.endCall i kind (.error .tunnelNotReady))
      else some (s.setPhase i ⟨kind, gen, .loaded⟩ (.live (s.retired gen)))
    | _ => none
  | .connect i r =>
    match s.calls[i]?, r with
    | some ⟨.dial addr, _, .live _⟩, .error e =>
      some (s.endCall i (.dial addr) (.error (.dial addr e)))
    | some ⟨.dial addr, gen, .live b⟩, .ok () =>
      some (s.setPhase i ⟨.dial addr, gen, .live b⟩ (.connected (s.retired gen)))
    | _, _ => none
  | .dialed i =>
    match s.calls[i]? with
    | some ⟨kind, gen, .connected b⟩ =>
      if s.retired gen then some (s.endCall i kind (.error .tunnelNotReady))
      else some (s.giveLease i ⟨kind, gen, .connected b⟩ b)
    | _ => none
  | .bind i r =>
    match s.calls[i]?, r with
    | some ⟨.bindUdp, _, .live _⟩, .error e => some (s.endCall i .bindUdp (.error (.netstack e)))
    | some ⟨.bindUdp, gen, .live b⟩, .ok () => some (s.giveLease i ⟨.bindUdp, gen, .live b⟩ b)
    | some ⟨.bindUdpV6, gen, .live b⟩, r =>
      if !s.hasIpv6 gen then some (s.endCall i .bindUdpV6 (.ok none))
      else
        match r with
        | .error e => some (s.endCall i .bindUdpV6 (.error (.netstack e)))
        | .ok () => some (s.giveLease i ⟨.bindUdpV6, gen, .live b⟩ b)
    | _, _ => none
  | .dropCall i =>
    match s.calls[i]? with
    | some _ => some { s with calls := s.calls.eraseIdx i }
    | none => none
  | .startOp i kind =>
    match s.leases[i]? with
    | some l => some { s with ops := s.ops ++ [⟨l.id, l.gen, kind, s.retired l.gen, false⟩] }
    | none => none
  | .pollOp j inner =>
    match s.ops[j]? with
    | some o =>
      if s.retired o.gen then some (s.endOp j o (.error .connectionClosed))
      else
        match inner with
        | some r => some (s.endOp j { o with touched := true } r)
        | none => some { s with ops := s.ops.set j { o with touched := true } }
    | none => none
  | .dropOp j =>
    match s.ops[j]? with
    | some _ => some { s with ops := s.ops.eraseIdx j }
    | none => none
  | .dropLease i =>
    match s.leases[i]? with
    | some l =>
      if s.ops.any (·.lease == l.id) then none
      else some { s with leases := s.leases.eraseIdx i }
    | none => none

def machine (policy : GenerationPolicy) : Machine State Action := ⟨step policy⟩

/-- The steps, each with its guard. A call that ends gives an answer; `connect` and `bind`
are told apart only by what they end with. -/
inductive Step (policy : GenerationPolicy) (s : State) : Action → State → Prop
  | tick {d : Duration} :
      (∀ t ∈ s.timers, s.now + d ≤ t.2) → Step policy s (.tick d) { s with now := s.now + d }
  | replace (hasIpv6 : Bool) (reason : ReplaceReason) :
      Step policy s (.replace hasIpv6 reason) (s.replace policy hasIpv6 reason)
  | clear : Step policy s .clear s.clear
  | fire {i id : ℕ} {due : Instant} :
      s.timers[i]? = some (id, due) → due ≤ s.now → s.alive id = true →
      Step policy s (.fire i) (State.forceRetire { s with timers := s.timers.eraseIdx i } id)
  | expire {i id : ℕ} {due : Instant} :
      s.timers[i]? = some (id, due) → due ≤ s.now → s.alive id = false →
      Step policy s (.fire i) { s with timers := s.timers.eraseIdx i }
  | refuse {kind : CallKind} :
      s.current = none → Step policy s (.load kind) (s.answer kind (.error .tunnelNotReady))
  | load {kind : CallKind} {id : ℕ} :
      s.current = some id →
      Step policy s (.load kind) { s with calls := s.calls ++ [⟨kind, id, .loaded⟩] }
  | check {i : ℕ} {c : Call} :
      s.calls[i]? = some c → c.phase = .loaded → s.retired c.gen = false →
      Step policy s (.check i) (s.setPhase i c (.live false))
  | connect {i : ℕ} {c : Call} {b : Bool} :
      s.calls[i]? = some c → c.phase = .live b →
      Step policy s (.connect i (.ok ())) (s.setPhase i c (.connected (s.retired c.gen)))
  | dialed {i : ℕ} {c : Call} {b : Bool} :
      s.calls[i]? = some c → c.phase = .connected b → s.retired c.gen = false →
      Step policy s (.dialed i) (s.giveLease i c b)
  | bind {i : ℕ} {c : Call} {b : Bool} {r : Except NetstackError Unit} :
      s.calls[i]? = some c → c.phase = .live b → Step policy s (.bind i r) (s.giveLease i c b)
  | fail {a : Action} {i : ℕ} {c : Call} {r : Answer} :
      s.calls[i]? = some c → a = .check i ∨ (∃ e, a = .connect i e) ∨ a = .dialed i ∨
        (∃ e, a = .bind i e) → Step policy s a (s.endCall i c.kind r)
  | dropCall {i : ℕ} : Step policy s (.dropCall i) { s with calls := s.calls.eraseIdx i }
  | startOp {i : ℕ} {kind : OpKind} {l : Lease} :
      s.leases[i]? = some l →
      Step policy s (.startOp i kind)
        { s with ops := s.ops ++ [⟨l.id, l.gen, kind, s.retired l.gen, false⟩] }
  | closedOp {j : ℕ} {o : Op} {inner : Option (Except NetstackError ℕ)} :
      s.ops[j]? = some o → s.retired o.gen = true →
      Step policy s (.pollOp j inner) (s.endOp j o (.error .connectionClosed))
  | innerOp {j : ℕ} {o : Op} {r : Except NetstackError ℕ} :
      s.ops[j]? = some o → s.retired o.gen = false →
      Step policy s (.pollOp j (some r)) (s.endOp j { o with touched := true } r)
  | pendingOp {j : ℕ} {o : Op} :
      s.ops[j]? = some o → s.retired o.gen = false →
      Step policy s (.pollOp j none) { s with ops := s.ops.set j { o with touched := true } }
  | dropOp {j : ℕ} : Step policy s (.dropOp j) { s with ops := s.ops.eraseIdx j }
  | dropLease {i : ℕ} {l : Lease} :
      s.leases[i]? = some l → s.ops.any (·.lease == l.id) = false →
      Step policy s (.dropLease i) { s with leases := s.leases.eraseIdx i }

variable {policy : GenerationPolicy} {s s' : State}

attribute [local simp] step

theorem step_fire {i : ℕ} (ha : step policy s (.fire i) = some s') :
    Step policy s (.fire i) s' := by
  simp only [step] at ha
  split at ha
  · next id due hi =>
    obtain ⟨hd, rfl⟩ := of_guarded ha
    split
    · next halive => exact .fire hi hd halive
    · next halive => exact .expire hi hd (Bool.eq_false_iff.mpr halive)
  · cases ha

theorem step_check {i : ℕ} (ha : step policy s (.check i) = some s') :
    Step policy s (.check i) s' := by
  simp only [step] at ha
  split at ha
  · next kind gen hi =>
    split at ha
    · obtain rfl := Option.some.inj ha
      exact .fail hi (.inl rfl)
    · next hr =>
      obtain rfl := Option.some.inj ha
      have hr := Bool.eq_false_iff.mpr hr
      rw [hr]
      exact .check hi rfl hr
  · cases ha

theorem step_connect {i : ℕ} {r : Except NetstackError Unit}
    (ha : step policy s (.connect i r) = some s') :
    Step policy s (.connect i r) s' := by
  simp only [step] at ha
  split at ha
  · next addr gen b e hi =>
    obtain rfl := Option.some.inj ha
    exact .fail hi (.inr (.inl ⟨_, rfl⟩))
  · next addr gen b hi =>
    obtain rfl := Option.some.inj ha
    exact .connect hi rfl
  · cases ha

theorem step_dialed {i : ℕ} (ha : step policy s (.dialed i) = some s') :
    Step policy s (.dialed i) s' := by
  simp only [step] at ha
  split at ha
  · next kind gen b hi =>
    split at ha
    · obtain rfl := Option.some.inj ha
      exact .fail hi (.inr (.inr (.inl rfl)))
    · next hr =>
      obtain rfl := Option.some.inj ha
      exact .dialed hi rfl (Bool.eq_false_iff.mpr hr)
  · cases ha

theorem step_bind {i : ℕ} {r : Except NetstackError Unit}
    (ha : step policy s (.bind i r) = some s') :
    Step policy s (.bind i r) s' := by
  simp only [step] at ha
  split at ha
  · next gen b e hi =>
    obtain rfl := Option.some.inj ha
    exact .fail hi (.inr (.inr (.inr ⟨_, rfl⟩)))
  · next gen b hi =>
    obtain rfl := Option.some.inj ha
    exact .bind hi rfl
  · next gen b hi =>
    split at ha
    · obtain rfl := Option.some.inj ha
      exact .fail hi (.inr (.inr (.inr ⟨_, rfl⟩)))
    · split at ha
      · obtain rfl := Option.some.inj ha
        exact .fail hi (.inr (.inr (.inr ⟨_, rfl⟩)))
      · obtain rfl := Option.some.inj ha
        exact .bind hi rfl
  · cases ha

theorem step_startOp {i : ℕ} {kind : OpKind} (ha : step policy s (.startOp i kind) = some s') :
    Step policy s (.startOp i kind) s' := by
  cases hi : s.leases[i]? with
  | none => simp [hi] at ha
  | some l =>
    obtain rfl : _ = s' := by simpa [hi] using ha
    exact .startOp hi

theorem step_pollOp {j : ℕ} {inner : Option (Except NetstackError ℕ)}
    (ha : step policy s (.pollOp j inner) = some s') :
    Step policy s (.pollOp j inner) s' := by
  simp only [step] at ha
  split at ha
  · next o hj =>
    split at ha
    · next hr =>
      obtain rfl := Option.some.inj ha
      exact .closedOp hj hr
    · next hr =>
      have hr := Bool.eq_false_iff.mpr hr
      split at ha
      · next r =>
        obtain rfl := Option.some.inj ha
        exact .innerOp hj hr
      · obtain rfl := Option.some.inj ha
        exact .pendingOp hj hr
  · cases ha

theorem step_dropLease {i : ℕ} (ha : step policy s (.dropLease i) = some s') :
    Step policy s (.dropLease i) s' := by
  simp only [step] at ha
  split at ha
  · next l hi =>
    obtain ⟨hops, rfl⟩ := of_guarded_not ha
    exact .dropLease hi (Bool.eq_false_iff.mpr hops)
  · cases ha

theorem step_cases {a : Action} (ha : step policy s a = some s') : Step policy s a s' := by
  cases a with
  | tick d =>
    obtain ⟨hd, rfl⟩ := of_guarded ha
    exact .tick (by simpa using hd)
  | replace hasIpv6 reason =>
    obtain rfl := Option.some.inj ha
    exact .replace hasIpv6 reason
  | clear =>
    obtain rfl := Option.some.inj ha
    exact .clear
  | fire i => exact step_fire ha
  | load kind =>
    simp only [step] at ha
    split at ha
    · next hc =>
      obtain rfl := Option.some.inj ha
      exact .refuse hc
    · next id hc =>
      obtain rfl := Option.some.inj ha
      exact .load hc
  | check i => exact step_check ha
  | connect i r => exact step_connect ha
  | dialed i => exact step_dialed ha
  | bind i r => exact step_bind ha
  | dropCall i =>
    cases hi : s.calls[i]? with
    | none => simp [hi] at ha
    | some c =>
      obtain rfl : _ = s' := by simpa [hi] using ha
      exact .dropCall
  | startOp i kind => exact step_startOp ha
  | pollOp j inner => exact step_pollOp ha
  | dropOp j =>
    cases hj : s.ops[j]? with
    | none => simp [hj] at ha
    | some o =>
      obtain rfl : _ = s' := by simpa [hj] using ha
      exact .dropOp
  | dropLease i => exact step_dropLease ha

end WarpRust.Tunnel
