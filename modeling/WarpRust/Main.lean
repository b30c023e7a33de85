import WarpRust.Library.Lists
import WarpRust.Proxy.Serve

/-!
# The process

`run` of `main.rs` from the start of the services on: the supervisor, the SOCKS5 listener with
its connections and, if enabled, the metrics server. The first end of a service or the token
stops everything; services that do not stop in time are aborted, which ends each at its next
await, and the tunnel is cleared last. The listener is the machine of `serve`, whose clock and
token are those of the process.
-/

namespace WarpRust.Main
open Library

def shutdownGrace : Duration := .fromSecs 5

inductive Name where
  | supervisor
  | socks5
  | metrics
  deriving DecidableEq

def Name.text : Name → String
  | supervisor => "supervisor"
  | socks5 => "SOCKS5"
  | metrics => "metrics"

inductive Exit where
  | ok
  | err (e : Error)
  | failed (t : Text)
  deriving DecidableEq

def message (name : Name) : Exit → Text
  | .ok => [.lit name.text, .lit " service exited unexpectedly"]
  | .err e => .lit name.text :: .lit " service failed: " :: e.text
  | .failed t => .lit "service task failed: " :: t

def allExited : Text := [.lit "all services exited unexpectedly"]

def result : Option Text → Except Error Unit
  | some t => .error (.other t)
  | none => .ok ()

structure Service where
  name : Name
  exit : Option Exit
  joined : Bool
  deriving DecidableEq

inductive Phase where
  | waiting
  | decided (unexpected : Option Text)
  | draining (unexpected : Option Text) (deadline : Instant)
  | aborting (unexpected : Option Text)
  | clearing (unexpected : Option Text)
  | exited (r : Except Error Unit)

/-- `signals` is what `wait_for_signal` has returned to the task of `signals::install`. -/
structure State (C : Type) where
  serve : Proxy.Serve.State C
  services : List Service
  phase : Phase
  tunnelSet : Bool
  signals : Option (Except Text Unit)

inductive Action (C : Type) where
  | tick (d : Duration)
  | signals (r : Except Text Unit)
  | serve (a : Proxy.Serve.Action C)
  | finish (i : ℕ) (x : Exit)
  | selectCancelled
  | selectJoined (i : ℕ)
  | selectNone
  | cancel
  | join (i : ℕ)
  | drained
  | graceOver
  | abort (i : ℕ)
  | shutDown
  | clear

variable {C : Type}

namespace State

def init (l : LimitsConfig) (metricsEnabled : Bool) (now : Instant) : State C where
  serve := .init l now
  services := [⟨.supervisor, none, false⟩, ⟨.socks5, none, false⟩] ++
    if metricsEnabled then [⟨.metrics, none, false⟩] else []
  phase := .waiting
  tunnelSet := true
  signals := none

def now (s : State C) : Instant := s.serve.now

def cancelled (s : State C) : Bool := s.serve.cancelled

def signalled (s : State C) : Bool := s.signals.isSome

def cancelToken (s : State C) : State C := { s with serve := { s.serve with cancelled := true } }

/-- The supervisor returns `Ok` only for the token and the listener only after its connections;
only the listener never returns an error. -/
def mayEnd (s : State C) : Name → Exit → Bool
  | _, .failed _ => true
  | .supervisor, .ok => s.cancelled
  | .socks5, .ok => s.serve.loop = .stopped
  | .socks5, .err _ => false
  | _, _ => true

def mayServe (s : State C) : Proxy.Serve.Action C → Bool
  | .tick _ | .cancel => false
  | .health _ | .move _ _ => true
  | _ => s.services.any fun v => v.name = .socks5 && v.exit.isNone

def dropListener (s : State C) : Proxy.Serve.State C :=
  match s.serve.loop with
  | .listening | .backingOff _ => { s.serve with loop := .stopping }
  | _ => s.serve

def setService (s : State C) (i : ℕ) (v : Service) : State C :=
  { s with services := s.services.set i v }

def endAborted (s : State C) (i : ℕ) (v : Service) : State C :=
  { s.setService i { v with exit := some (.failed [.lit "task was cancelled"]) } with
    serve := if v.name = .socks5 then s.dropListener else s.serve }

def step (l : LimitsConfig) (s : State C) : Action C → Option (State C)
  | .tick d => (s.serve.step l (.tick d)).map ({ s with serve := · })
  -- the token is cancelled after an error too
  | .signals r =>
    match s.signals with
    | none => some { s.cancelToken with signals := some r }
    | some _ => none
  | .serve a => if s.mayServe a then (s.serve.step l a).map ({ s with serve := · }) else none
  | .finish i x =>
    s.services[i]?.bind fun v =>
      if v.exit.isNone && s.mayEnd v.name x then some (s.setService i { v with exit := some x })
      else none
  -- the select is not biased
  | .selectCancelled =>
    match s.phase with
    | .waiting => if s.cancelled then some { s with phase := .decided none } else none
    | _ => none
  | .selectJoined i =>
    match s.phase with
    | .waiting =>
      s.services[i]?.bind fun v =>
        match v.exit with
        | some x =>
          if v.joined then none
          else
            some { s.setService i { v with joined := true } with
              phase := .decided (some (message v.name x)) }
        | none => none
    | _ => none
  | .selectNone =>
    match s.phase with
    | .waiting =>
      if s.services.all (·.joined) then some { s with phase := .decided (some allExited) } else none
    | _ => none
  | .cancel =>
    match s.phase with
    | .decided u => some { s.cancelToken with phase := .draining u (s.now + shutdownGrace) }
    | _ => none
  | .join i =>
    match s.phase with
    | .draining _ _ =>
      s.services[i]?.bind fun v =>
        if v.exit.isSome && !v.joined then some (s.setService i { v with joined := true })
        else none
    | _ => none
  | .drained =>
    match s.phase with
    | .draining u _ =>
      if s.services.all (·.joined) then some { s with phase := .clearing u } else none
    | _ => none
  -- `services.shutdown()` aborts all and waits for each
  | .graceOver =>
    match s.phase with
    | .draining u deadline =>
      if deadline ≤ s.now then some { s with phase := .aborting u } else none
    | _ => none
  -- an aborted service reaches an await
  | .abort i =>
    match s.phase with
    | .aborting _ =>
      s.services[i]?.bind fun v => if v.exit.isNone then some (s.endAborted i v) else none
    | _ => none
  | .shutDown =>
    match s.phase with
    | .aborting u =>
      if s.services.all (·.exit.isSome) then
        some { s with services := s.services.map ({ · with joined := true }), phase := .clearing u }
      else none
    | _ => none
  | .clear =>
    match s.phase with
    | .clearing u => some { s with tunnelSet := false, phase := .exited (result u) }
    | _ => none

end State

def machine (C : Type) (l : LimitsConfig) : Machine (State C) (Action C) := ⟨State.step l⟩

variable {l : LimitsConfig} {s t : State C} {a : Action C} {v : Service} {vs : List Service} {i : ℕ}
  {name : Name} {x : Exit} {u : Option Text} {now : Instant} {enabled : Bool}

/-! ### The services -/

def outcome (v : Service) : Name × Option Exit := (v.name, v.exit)

theorem outcomes_join (hi : vs[i]? = some v) :
    (vs.set i { v with joined := true }).map outcome = vs.map outcome := by
  apply List.ext_getElem?
  intro j
  rw [List.getElem?_map, List.getElem?_map, getElem?_set_of_some hi]
  split
  · next hij =>
    rw [← hij, hi]
    rfl
  · rfl

theorem mem_outcomes_end {e : Option Exit} {p : Name × Option Exit}
    (hp : p ∈ (vs.set i { v with exit := e }).map outcome) :
    p = (v.name, e) ∨ p ∈ vs.map outcome := by
  obtain ⟨w, hw, rfl⟩ := List.mem_map.mp hp
  rcases List.mem_or_eq_of_mem_set hw with hw | rfl
  · exact .inr (List.mem_map_of_mem hw)
  · exact .inl rfl

theorem mem_outcomes_of_end {e : Option Exit} (hi : vs[i]? = some v) (hv : v.exit = none)
    (hp : (name, some x) ∈ vs.map outcome) :
    (name, some x) ∈ (vs.set i { v with exit := e }).map outcome := by
  obtain ⟨w, hw, hwx⟩ := List.mem_map.mp hp
  have hne : w ≠ v := by
    rintro rfl
    have hexit := (Prod.mk.inj hwx).2
    rw [hv] at hexit
    cases hexit
  refine List.mem_map.mpr ⟨w, ?_, hwx⟩
  exact (perm_cons_set hi).symm.subset (List.mem_cons_of_mem _ (mem_eraseIdx_of_ne hi hw hne))

/-! ### The listener -/

theorem serve_keeps {a : Proxy.Serve.Action C} {r r' : Proxy.Serve.State C}
    (hm : s.mayServe a = true) (ha : r.step l a = some r') :
    r'.now = r.now ∧ r'.cancelled = r.cancelled ∧ (r.loop = .stopped → r'.loop = .stopped) := by
  cases a with
  | tick d | cancel => cases hm
  | health healthy =>
    obtain rfl := Option.some.inj ha
    exact ⟨rfl, rfl, id⟩
  | move i m =>
    obtain ⟨x, _, hmove⟩ := Option.bind_eq_some_iff.mp ha
    obtain ⟨_, x', hx⟩ := Proxy.Serve.move_moved hmove
    exact ⟨hx.now, hx.cancelled, hx.loop.trans⟩
  | accept peer =>
    simp only [Proxy.Serve.State.step] at ha
    split at ha
    · next hl =>
      obtain ⟨_, rfl⟩ := of_guarded_not ha
      unfold Proxy.Serve.State.accept
      rw [hl]
      split <;> exact ⟨rfl, rfl, Proxy.Serve.Loop.noConfusion⟩
    · cases ha
  | acceptFailed =>
    simp only [Proxy.Serve.State.step] at ha
    split at ha
    · next hl =>
      obtain ⟨_, rfl⟩ := of_guarded_not ha
      exact ⟨rfl, rfl, fun h => by rw [hl] at h; cases h⟩
    · cases ha
  | backoffOver =>
    simp only [Proxy.Serve.State.step] at ha
    split at ha
    · next hl =>
      obtain ⟨_, rfl⟩ := of_guarded ha
      exact ⟨rfl, rfl, fun h => by rw [hl] at h; cases h⟩
    · cases ha
  | stop =>
    simp only [Proxy.Serve.State.step] at ha
    split at ha
    · next hl =>
      obtain ⟨_, rfl⟩ := of_guarded ha
      exact ⟨rfl, rfl, fun h => by rw [hl] at h; cases h⟩
    · next hl =>
      obtain ⟨_, rfl⟩ := of_guarded ha
      exact ⟨rfl, rfl, fun h => by rw [hl] at h; cases h⟩
    · cases ha
  | stopped =>
    simp only [Proxy.Serve.State.step] at ha
    split at ha
    · obtain ⟨_, rfl⟩ := of_guarded ha
      exact ⟨rfl, rfl, fun _ => rfl⟩
    · cases ha

/-! ### Invariants -/

def State.outcomes (s : State C) : List (Name × Option Exit) := s.services.map outcome

def Phase.stopping : Phase → Bool
  | waiting | decided _ => false
  | _ => true

def Phase.unexpected : Phase → Option (Option Text)
  | decided u | draining u _ | aborting u | clearing u => some u
  | _ => none

/-- A message is about a service that is over. One without an error, the metrics server apart, is
only reported once a signal has come. -/
def Blamed (s : State C) (t : Text) : Prop :=
  ∃ name x, (name, some x) ∈ s.outcomes ∧ t = message name x ∧
    (x = .ok → name ≠ .metrics → s.signalled = true)

def Reason (s : State C) : Option Text → Prop
  | none => s.signalled = true
  | some t => Blamed s t

structure ServiceBooks (l : LimitsConfig) (start : Instant) (s : State C) : Prop where
  serve : (Proxy.Serve.machine C l).Reachable (.init l start) s.serve
  ends : ∀ name, (name, some .ok) ∈ s.outcomes →
    (name = .socks5 → s.serve.loop = .stopped) ∧ (name ≠ .metrics → s.cancelled = true)
  joined : ∀ v ∈ s.services, v.joined = true → v.exit.isSome = true
  nonempty : s.services ≠ []

structure PhaseBooks (s : State C) : Prop where
  token : s.cancelled = true → s.signalled = true ∨ s.phase.stopping = true
  stopping : s.phase.stopping = true → s.cancelled = true
  reason : ∀ u, s.phase.unexpected = some u → Reason s u
  ended : ∀ r, s.phase = .exited r → ∃ u, r = result u ∧ Reason s u
  finished : (∃ u, s.phase = .clearing u) ∨ (∃ r, s.phase = .exited r) →
    ∀ p ∈ s.outcomes, p.2.isSome = true
  tunnel : s.tunnelSet = false ↔ ∃ r, s.phase = .exited r
  waiting : s.phase = .waiting → ∀ v ∈ s.services, v.joined = false
  due : ∀ u deadline, s.phase = .draining u deadline → deadline ≤ s.now + shutdownGrace

variable {start : Instant}

theorem serviceBooks_init (now : Instant) : ServiceBooks l now (.init l enabled now : State C) where
  serve := .refl _
  ends := by
    intro name hname
    cases enabled <;> simp [State.outcomes, State.init, outcome] at hname
  joined := by
    intro v hv hj
    cases enabled <;> simp [State.init] at hv <;> rcases hv with rfl | rfl | rfl <;> cases hj
  nonempty := List.cons_ne_nil _ _

theorem phaseBooks_init (now : Instant) : PhaseBooks (.init l enabled now : State C) where
  token := nofun
  stopping := nofun
  reason := nofun
  ended := nofun
  finished := by rintro (⟨_, h⟩ | ⟨_, h⟩) <;> cases h
  tunnel := iff_of_false nofun nofun
  waiting := by
    intro _ v hv
    cases enabled <;> simp [State.init] at hv <;> rcases hv with rfl | rfl | rfl <;> rfl
  due := nofun

theorem Reason.mono (h : Reason s u) (hs : s.signalled = true → t.signalled = true)
    (ho : ∀ name x, (name, some x) ∈ s.outcomes → (name, some x) ∈ t.outcomes) : Reason t u := by
  cases u with
  | none => exact hs h
  | some m =>
    obtain ⟨name, x, hx, hm, hok⟩ := h
    exact ⟨name, x, ho name x hx, hm, fun h1 h2 => hs (hok h1 h2)⟩

structure Quiet (s t : State C) : Prop where
  phase : t.phase = s.phase
  tunnel : t.tunnelSet = s.tunnelSet
  signalled : s.signalled = true → t.signalled = true
  cancelled : s.cancelled = true → t.cancelled = true
  token : t.cancelled = true → s.cancelled = true ∨ t.signalled = true
  now : s.now ≤ t.now
  kept : ∀ name x, (name, some x) ∈ s.outcomes → (name, some x) ∈ t.outcomes
  finished : (∀ p ∈ s.outcomes, p.2.isSome = true) → ∀ p ∈ t.outcomes, p.2.isSome = true
  waiting : s.phase = .waiting → (∀ v ∈ s.services, v.joined = false) →
    ∀ v ∈ t.services, v.joined = false

theorem PhaseBooks.quiet (h : PhaseBooks s) (hq : Quiet s t) : PhaseBooks t where
  token := by
    intro hc
    rw [hq.phase]
    rcases hq.token hc with hs | hs
    · exact (h.token hs).imp_left hq.signalled
    · exact .inl hs
  stopping := by
    rw [hq.phase]
    exact fun hp => hq.cancelled (h.stopping hp)
  reason := by
    rw [hq.phase]
    exact fun u hu => (h.reason u hu).mono hq.signalled hq.kept
  ended := by
    rw [hq.phase]
    intro r hr
    obtain ⟨u, hu, hreason⟩ := h.ended r hr
    exact ⟨u, hu, hreason.mono hq.signalled hq.kept⟩
  finished := by
    rw [hq.phase]
    exact fun hp => hq.finished (h.finished hp)
  tunnel := by
    rw [hq.phase, hq.tunnel]
    exact h.tunnel
  waiting := by
    rw [hq.phase]
    exact fun hp => hq.waiting hp (h.waiting hp)
  due := by
    rw [hq.phase]
    exact fun u d hp => (h.due u d hp).trans (Nat.add_le_add_right hq.now _)

theorem PhaseBooks.decide (h : PhaseBooks s) (hp : s.phase = .waiting) (hu : Reason t u)
    (hphase : t.phase = .decided u) (hserve : t.serve = s.serve) (hsig : t.signalled = s.signalled)
    (htunnel : t.tunnelSet = s.tunnelSet) : PhaseBooks t where
  token := by
    intro hc
    rw [State.cancelled, hserve] at hc
    rw [hsig]
    refine .inl ((h.token hc).resolve_right ?_)
    rw [hp]
    exact Bool.false_ne_true
  stopping := by rw [hphase]; exact nofun
  reason := by
    rw [hphase]
    rintro _ ⟨⟩
    exact hu
  ended := by rw [hphase]; exact nofun
  finished := by
    rw [hphase]
    rintro (⟨_, h⟩ | ⟨_, h⟩) <;> cases h
  tunnel := by
    rw [htunnel, hphase]
    refine h.tunnel.trans (iff_of_false ?_ nofun)
    rw [hp]
    exact nofun
  waiting := by rw [hphase]; exact nofun
  due := by rw [hphase]; exact nofun

theorem PhaseBooks.advance {p : Phase} (h : PhaseBooks s) (hp : s.phase.unexpected = some u)
    (hphase : t.phase = p) (hu : p.unexpected = some u) (hstop : p.stopping = true)
    (hcancelled : t.cancelled = true) (hsig : t.signalled = s.signalled)
    (htunnel : t.tunnelSet = s.tunnelSet) (ho : t.outcomes = s.outcomes)
    (hover : (∃ u, p = .clearing u) → ∀ q ∈ s.outcomes, q.2.isSome = true)
    (hdue : ∀ u d, p = .draining u d → d ≤ t.now + shutdownGrace) : PhaseBooks t where
  token := by rw [hphase]; exact fun _ => .inr hstop
  stopping := fun _ => hcancelled
  reason := by
    rw [hphase, hu]
    rintro _ ⟨⟩
    exact (h.reason u hp).mono (fun hs => hsig.trans hs) fun name x hx => ho ▸ hx
  ended := by
    rw [hphase]
    rintro r rfl
    cases hu
  finished := by
    rw [hphase, ho]
    rintro (hc | ⟨r, rfl⟩)
    · exact hover hc
    · cases hu
  tunnel := by
    rw [htunnel, hphase]
    refine h.tunnel.trans (iff_of_false ?_ ?_)
    · rintro ⟨r, hr⟩
      rw [hr] at hp
      cases hp
    · rintro ⟨r, rfl⟩
      cases hu
  waiting := by
    rw [hphase]
    rintro rfl
    cases hu
  due := by
    rw [hphase]
    exact hdue

/-! ### Steps -/

structure Inv (l : LimitsConfig) (start : Instant) (s : State C) : Prop where
  service : ServiceBooks l start s
  phase : PhaseBooks s

theorem ServiceBooks.of_eq (h : ServiceBooks l start s) (hserve : t.serve = s.serve)
    (ho : t.outcomes = s.outcomes) (hj : ∀ v ∈ t.services, v.joined = true → v.exit.isSome = true) :
    ServiceBooks l start t where
  serve := by
    rw [hserve]
    exact h.serve
  ends := by
    rw [ho, State.cancelled, hserve]
    exact h.ends
  joined := hj
  nonempty := by
    intro hn
    apply h.nonempty
    have hlen := congrArg List.length ho
    rw [State.outcomes, State.outcomes, List.length_map, List.length_map, hn] at hlen
    exact List.length_eq_zero_iff.mp hlen.symm

theorem joined_set (h : ServiceBooks l start s) {w : Service}
    (hw : w.joined = true → w.exit.isSome = true) :
    ∀ v ∈ (s.setService i w).services, v.joined = true → v.exit.isSome = true := by
  intro y hy
  rcases List.mem_or_eq_of_mem_set hy with hy | rfl
  · exact h.joined y hy
  · exact hw

theorem ServiceBooks.serveTo {r : Proxy.Serve.State C} {a : Proxy.Serve.Action C}
    (h : ServiceBooks l start s) (ha : s.serve.step l a = some r)
    (hc : s.cancelled = true → r.cancelled = true)
    (hl : s.serve.loop = .stopped → r.loop = .stopped) :
    ServiceBooks l start { s with serve := r } where
  serve := h.serve.next ha
  ends name hname :=
    ⟨fun hn => hl ((h.ends name hname).1 hn), fun hn => hc ((h.ends name hname).2 hn)⟩
  joined := h.joined
  nonempty := h.nonempty

theorem ServiceBooks.cancelToken (h : ServiceBooks l start s) :
    ServiceBooks l start s.cancelToken :=
  h.serveTo (a := .cancel) rfl (fun _ => rfl) id

theorem Quiet.finish (hi : s.services[i]? = some v) (hv : v.exit = none) {r : Proxy.Serve.State C}
    (hr : r.now = s.now) (hc : r.cancelled = s.cancelled) :
    Quiet s { s.setService i { v with exit := some x } with serve := r } where
  phase := rfl
  tunnel := rfl
  signalled := id
  cancelled := fun h => hc.trans h
  token := fun h => .inl (hc.symm.trans h)
  now := le_of_eq hr.symm
  kept := fun _ _ h => mem_outcomes_of_end hi hv h
  finished := by
    intro hall p hp
    rcases mem_outcomes_end hp with rfl | hp
    · rfl
    · exact hall p hp
  waiting := by
    intro _ hall w hw
    rcases List.mem_or_eq_of_mem_set hw with hw | rfl
    · exact hall w hw
    · exact hall v (List.mem_of_getElem? hi)

theorem Inv.finish (h : Inv l start s) (hi : s.services[i]? = some v) (hv : v.exit = none)
    (hm : s.mayEnd v.name x = true) : Inv l start (s.setService i { v with exit := some x }) where
  phase := h.phase.quiet (Quiet.finish hi hv rfl rfl)
  service := by
    refine ⟨h.service.serve, fun name hname => ?_, joined_set h.service fun _ => rfl, ?_⟩
    · rcases mem_outcomes_end hname with heq | hname
      · obtain ⟨rfl, hx⟩ := Prod.mk.inj heq
        obtain rfl := Option.some.inj hx
        cases hname : v.name with
        | supervisor =>
          rw [hname] at hm
          exact ⟨nofun, fun _ => hm⟩
        | socks5 =>
          rw [hname] at hm
          have hstopped := of_decide_eq_true hm
          have hbooks := Proxy.Serve.books_of_reachable h.service.serve
          exact ⟨fun _ => hstopped, fun _ => hbooks.stopping (.inr hstopped)⟩
        | metrics => exact ⟨nofun, fun hne => absurd rfl hne⟩
      · exact h.service.ends name hname
    · intro hn
      exact h.service.nonempty ((List.set_eq_nil_iff _ _).mp hn)

theorem exists_dropListener (s : State C) (hc : s.cancelled = true) :
    s.dropListener = s.serve ∨ s.serve.step l .stop = some s.dropListener := by
  change s.serve.cancelled = true at hc
  unfold State.dropListener
  cases hl : s.serve.loop with
  | listening | backingOff _ =>
    right
    simp [Proxy.Serve.State.step, hl, hc]
  | stopping | stopped => exact .inl rfl

theorem dropListener_keeps (s : State C) : s.dropListener.now = s.serve.now ∧
    s.dropListener.cancelled = s.serve.cancelled ∧
    (s.serve.loop = .stopped → s.dropListener.loop = .stopped) := by
  unfold State.dropListener
  split
  · next hl => exact ⟨rfl, rfl, fun h => by rw [hl] at h; cases h⟩
  · next hl => exact ⟨rfl, rfl, fun h => by rw [hl] at h; cases h⟩
  · exact ⟨rfl, rfl, id⟩

theorem Inv.abort (h : Inv l start s) (hp : s.phase.stopping = true) (hi : s.services[i]? = some v)
    (hv : v.exit = none) : Inv l start (s.endAborted i v) := by
  have hserve : ∃ r, (if v.name = .socks5 then s.dropListener else s.serve) = r ∧
      (Proxy.Serve.machine C l).Reachable (.init l start) r ∧ r.now = s.now ∧
      r.cancelled = s.cancelled ∧
      (s.serve.loop = .stopped → r.loop = .stopped) := by
    refine ⟨_, rfl, ?_⟩
    split
    · refine ⟨?_, dropListener_keeps s⟩
      rcases exists_dropListener (l := l) s (h.phase.stopping hp) with heq | hstep
      · rw [heq]
        exact h.service.serve
      · exact h.service.serve.next (a := .stop) hstep
    · exact ⟨h.service.serve, rfl, rfl, id⟩
  obtain ⟨r, hr, hreach, hnow, hc, hl⟩ := hserve
  rw [State.endAborted, hr]
  refine ⟨⟨hreach, fun name hname => ?_, joined_set h.service fun _ => rfl, ?_⟩,
    h.phase.quiet (Quiet.finish hi hv hnow hc)⟩
  · rcases mem_outcomes_end hname with heq | hname
    · cases (Prod.mk.inj heq).2
    · obtain ⟨h1, h2⟩ := h.service.ends name hname
      exact ⟨fun hn => hl (h1 hn), fun hn => hc.trans (h2 hn)⟩
  · intro hn
    exact h.service.nonempty ((List.set_eq_nil_iff _ _).mp hn)

theorem outcomes_all_joined (h : ServiceBooks l start s) (hall : s.services.all (·.joined) = true) :
    ∀ p ∈ s.outcomes, p.2.isSome = true := by
  intro p hp
  obtain ⟨v, hv, rfl⟩ := List.mem_map.mp hp
  exact h.joined v hv (List.all_eq_true.mp hall v hv)

theorem Inv.stepServe {a : Proxy.Serve.Action C} (h : Inv l start s)
    (ha : (machine C l).step s (.serve a) = some t) : Inv l start t := by
  change (if s.mayServe a then _ else none) = _ at ha
  by_cases hm : s.mayServe a = true
  · rw [if_pos hm] at ha
    obtain ⟨r, hr, rfl⟩ := Option.map_eq_some_iff.mp ha
    obtain ⟨hnow, hc, hl⟩ := serve_keeps hm hr
    exact ⟨h.service.serveTo hr hc.trans hl, h.phase.quiet ⟨rfl, rfl, id, hc.trans,
      fun hr => .inl (hc.symm.trans hr), le_of_eq hnow.symm, fun _ _ => id, id, fun _ => id⟩⟩
  · rw [if_neg hm] at ha
    cases ha

theorem Inv.stepSelect (h : Inv l start s) (ha : (machine C l).step s (.selectJoined i) = some t) :
    Inv l start t := by
  change (match s.phase with | .waiting => _ | _ => none) = _ at ha
  split at ha
  · next hp =>
    obtain ⟨⟨name, e, joined⟩, hi, hv⟩ := Option.bind_eq_some_iff.mp ha
    cases e with
    | none => cases hv
    | some x =>
      obtain ⟨_, rfl⟩ := of_guarded_not hv
      have ho := outcomes_join hi
      have hmem : (name, some x) ∈ s.outcomes := List.mem_map_of_mem (List.mem_of_getElem? hi)
      have hblamed : Blamed { s.setService i ⟨name, some x, true⟩ with
          phase := .decided (some (message name x)) } (message name x) := by
        refine ⟨name, x, (congrArg (fun o => (name, some x) ∈ o) ho).mpr hmem, rfl, ?_⟩
        rintro rfl hne
        refine (h.phase.token ((h.service.ends name hmem).2 hne)).resolve_right ?_
        rw [hp]
        exact Bool.false_ne_true
      exact ⟨h.service.of_eq rfl ho (joined_set h.service fun _ => rfl),
        h.phase.decide (u := some _) hp hblamed rfl rfl rfl rfl⟩
  · cases ha

theorem Inv.not_selectNone (h : Inv l start s) (hp : s.phase = .waiting) :
    s.services.all (·.joined) = false := by
  obtain ⟨v, hv⟩ := List.exists_mem_of_ne_nil _ h.service.nonempty
  refine Bool.eq_false_iff.mpr fun hall => ?_
  have hj := List.all_eq_true.mp hall v hv
  rw [h.phase.waiting hp v hv] at hj
  cases hj

theorem Inv.stepTick {d : Duration} (h : Inv l start s)
    (ha : (machine C l).step s (.tick d) = some t) : Inv l start t := by
  obtain rfl := Option.some.inj ha
  exact ⟨h.service.serveTo (a := .tick d) rfl id id, h.phase.quiet ⟨rfl, rfl, id, id, .inl,
    Nat.le_add_right _ _, fun _ _ => id, id, fun _ => id⟩⟩

theorem Inv.stepSignals {r : Except Text Unit} (h : Inv l start s)
    (ha : (machine C l).step s (.signals r) = some t) : Inv l start t := by
  simp only [machine, State.step] at ha
  split at ha
  · obtain rfl := Option.some.inj ha
    have hc := h.service.cancelToken
    exact ⟨⟨hc.serve, hc.ends, hc.joined, hc.nonempty⟩, h.phase.quiet ⟨rfl, rfl, fun _ => rfl,
      fun _ => rfl, fun _ => .inr rfl, le_rfl, fun _ _ => id, id, fun _ => id⟩⟩
  · cases ha

theorem Inv.stepFinish (h : Inv l start s) (ha : (machine C l).step s (.finish i x) = some t) :
    Inv l start t := by
  obtain ⟨v, hi, hv⟩ := Option.bind_eq_some_iff.mp ha
  obtain ⟨hc, rfl⟩ := of_guarded hv
  obtain ⟨hnone, hm⟩ := Bool.and_eq_true_iff.mp hc
  exact h.finish hi (Option.isNone_iff_eq_none.mp hnone) hm

theorem Inv.stepSelectCancelled (h : Inv l start s)
    (ha : (machine C l).step s .selectCancelled = some t) : Inv l start t := by
  simp only [machine, State.step] at ha
  split at ha
  · next hp =>
    obtain ⟨hc, rfl⟩ := of_guarded ha
    refine ⟨h.service.of_eq rfl rfl h.service.joined, h.phase.decide hp ?_ rfl rfl rfl rfl⟩
    refine (h.phase.token hc).resolve_right ?_
    rw [hp]
    exact Bool.false_ne_true
  · cases ha

theorem Inv.stepSelectNone (h : Inv l start s)
    (ha : (machine C l).step s .selectNone = some t) : Inv l start t := by
  simp only [machine, State.step] at ha
  split at ha
  · next hp =>
    obtain ⟨hall, _⟩ := of_guarded ha
    rw [h.not_selectNone hp] at hall
    cases hall
  · cases ha

theorem Inv.stepCancel (h : Inv l start s) (ha : (machine C l).step s .cancel = some t) :
    Inv l start t := by
  simp only [machine, State.step] at ha
  split at ha
  · next u hp =>
    obtain rfl := Option.some.inj ha
    have hc := h.service.cancelToken
    have hu : s.phase.unexpected = some u := by rw [hp, Phase.unexpected]
    refine ⟨⟨hc.serve, hc.ends, hc.joined, hc.nonempty⟩,
      h.phase.advance hu rfl rfl rfl rfl rfl rfl rfl ?_ ?_⟩
    · rintro ⟨_, ⟨⟩⟩
    · rintro _ _ ⟨⟩
      exact le_rfl
  · cases ha

theorem Inv.stepJoin (h : Inv l start s) (ha : (machine C l).step s (.join i) = some t) :
    Inv l start t := by
  simp only [machine, State.step] at ha
  split at ha
  · next u deadline hp =>
    obtain ⟨v, hi, hv⟩ := Option.bind_eq_some_iff.mp ha
    obtain ⟨hc, rfl⟩ := of_guarded hv
    obtain ⟨hsome, _⟩ := Bool.and_eq_true_iff.mp hc
    have ho := outcomes_join hi
    refine ⟨h.service.of_eq rfl ho (joined_set h.service fun _ => hsome), h.phase.quiet ⟨rfl, rfl,
      id, id, .inl, le_rfl, fun name x hx => ?_, fun hall p hp => ?_, fun hw => ?_⟩⟩
    · exact (congrArg (fun o => (name, some x) ∈ o) ho).mpr hx
    · exact hall p ((congrArg (fun o => p ∈ o) ho).mp hp)
    · rw [hp] at hw
      cases hw
  · cases ha

theorem Inv.stepDrained (h : Inv l start s) (ha : (machine C l).step s .drained = some t) :
    Inv l start t := by
  simp only [machine, State.step] at ha
  split at ha
  · next u deadline hp =>
    obtain ⟨hall, rfl⟩ := of_guarded ha
    have hu : s.phase.unexpected = some u := by rw [hp, Phase.unexpected]
    have hc : s.cancelled = true := h.phase.stopping (by rw [hp]; rfl)
    refine ⟨h.service.of_eq rfl rfl h.service.joined, h.phase.advance hu rfl rfl rfl hc rfl rfl rfl
      (fun _ => outcomes_all_joined h.service hall) ?_⟩
    rintro _ _ ⟨⟩
  · cases ha

theorem Inv.stepGraceOver (h : Inv l start s) (ha : (machine C l).step s .graceOver = some t) :
    Inv l start t := by
  simp only [machine, State.step] at ha
  split at ha
  · next u deadline hp =>
    obtain ⟨_, rfl⟩ := of_guarded ha
    have hu : s.phase.unexpected = some u := by rw [hp, Phase.unexpected]
    have hc : s.cancelled = true := h.phase.stopping (by rw [hp]; rfl)
    refine ⟨h.service.of_eq rfl rfl h.service.joined,
      h.phase.advance hu rfl rfl rfl hc rfl rfl rfl ?_ ?_⟩
    · rintro ⟨_, ⟨⟩⟩
    · rintro _ _ ⟨⟩
  · cases ha

theorem Inv.stepAbort (h : Inv l start s) (ha : (machine C l).step s (.abort i) = some t) :
    Inv l start t := by
  simp only [machine, State.step] at ha
  split at ha
  · next u hp =>
    obtain ⟨v, hi, hv⟩ := Option.bind_eq_some_iff.mp ha
    obtain ⟨hnone, rfl⟩ := of_guarded hv
    exact h.abort (by rw [hp]; rfl) hi (Option.isNone_iff_eq_none.mp hnone)
  · cases ha

theorem Inv.stepShutDown (h : Inv l start s) (ha : (machine C l).step s .shutDown = some t) :
    Inv l start t := by
  simp only [machine, State.step] at ha
  split at ha
  · next u hp =>
    obtain ⟨hall, rfl⟩ := of_guarded ha
    have hu : s.phase.unexpected = some u := by rw [hp, Phase.unexpected]
    have hc : s.cancelled = true := h.phase.stopping (by rw [hp]; rfl)
    have ho : (s.services.map ({ · with joined := true })).map outcome =
        s.services.map outcome := by
      rw [List.map_map]
      rfl
    refine ⟨h.service.of_eq rfl ho fun v hv _ => ?_,
      h.phase.advance hu rfl rfl rfl hc rfl rfl ho (fun _ p hp => ?_) ?_⟩
    · obtain ⟨w, hw, rfl⟩ := List.mem_map.mp hv
      exact List.all_eq_true.mp hall w hw
    · obtain ⟨w, hw, rfl⟩ := List.mem_map.mp hp
      exact List.all_eq_true.mp hall w hw
    · rintro _ _ ⟨⟩
  · cases ha

theorem Inv.stepClear (h : Inv l start s) (ha : (machine C l).step s .clear = some t) :
    Inv l start t := by
  simp only [machine, State.step] at ha
  split at ha
  · next u hp =>
    obtain rfl := Option.some.inj ha
    have hu : s.phase.unexpected = some u := by rw [hp, Phase.unexpected]
    have hc : s.cancelled = true := h.phase.stopping (by rw [hp]; rfl)
    refine ⟨h.service.of_eq rfl rfl h.service.joined, ⟨fun _ => .inr rfl, fun _ => hc, nofun, ?_,
      fun _ => h.phase.finished (.inl ⟨u, hp⟩), iff_of_true rfl ⟨_, rfl⟩, nofun, nofun⟩⟩
    intro r hr
    obtain rfl := Phase.exited.inj hr
    exact ⟨u, rfl, (h.phase.reason u hu).mono id fun _ _ => id⟩
  · cases ha

theorem Inv.step (h : Inv l start s) (ha : (machine C l).step s a = some t) : Inv l start t := by
  cases a with
  | tick d => exact h.stepTick ha
  | signals r => exact h.stepSignals ha
  | serve a => exact h.stepServe ha
  | finish i x => exact h.stepFinish ha
  | selectCancelled => exact h.stepSelectCancelled ha
  | selectJoined i => exact h.stepSelect ha
  | selectNone => exact h.stepSelectNone ha
  | cancel => exact h.stepCancel ha
  | join i => exact h.stepJoin ha
  | drained => exact h.stepDrained ha
  | graceOver => exact h.stepGraceOver ha
  | abort i => exact h.stepAbort ha
  | shutDown => exact h.stepShutDown ha
  | clear => exact h.stepClear ha

theorem inv_of_reachable (hs : (machine C l).Reachable (.init l enabled now) s) : Inv l now s :=
  hs.invariant ⟨serviceBooks_init now, phaseBooks_init now⟩ fun _ _ _ h ha => h.step ha

/-! ### The end of the process -/

/-- The process exits with `Ok` only after a signal, or a wait for one that failed, and otherwise
names a service that is over and what it returned. Of the supervisor and the listener it says that
they exited unexpectedly only in those cases too: they had stopped before `run` looked. -/
theorem exit_status {r : Except Error Unit} (hs : (machine C l).Reachable (.init l enabled now) s)
    (hr : s.phase = .exited r) : (r = .ok () → s.signalled = true) ∧
      ∀ e, r = .error e → ∃ v ∈ s.services, ∃ x, v.exit = some x ∧ e = .other (message v.name x) ∧
        (x = .ok → v.name ≠ .metrics → s.signalled = true) := by
  have h := inv_of_reachable hs
  obtain ⟨u, rfl, hu⟩ := h.phase.ended r hr
  cases u with
  | none => exact ⟨fun _ => hu, nofun⟩
  | some t =>
    obtain ⟨name, x, hx, rfl, hok⟩ := hu
    obtain ⟨v, hv, hvx⟩ := List.mem_map.mp hx
    obtain ⟨rfl, hexit⟩ := Prod.mk.inj hvx
    refine ⟨nofun, fun e he => ⟨v, hv, x, hexit, ?_, hok⟩⟩
    exact (Except.error.inj he).symm

theorem exit_status_late :
    let r : Except Error Unit :=
      .error (.other [.lit "SOCKS5", .lit " service exited unexpectedly"])
    ∃ s : State ℕ, s.signalled = true ∧ s.phase = .exited r ∧ (r = .ok () → s.signalled = true) ∧
      ∀ e, r = .error e → ∃ v ∈ s.services, ∃ x, v.exit = some x ∧ e = .other (message v.name x) ∧
        (x = .ok → v.name ≠ .metrics → s.signalled = true) := by
  intro r
  have hrun : (machine ℕ (.default none)).Reachable (.init (.default none) false 0) _ :=
    Machine.reachable_of_run [.signals (.ok ()), .serve .stop, .serve .stopped, .finish 1 .ok,
      .selectJoined 1, .cancel, .finish 0 .ok, .join 0, .drained, .clear] rfl
  exact ⟨_, rfl, rfl, exit_status hrun rfl⟩

/-- The tunnel is cleared last: every service is over by then, and if the listener returned, no
connection is left and every permit and association is back. -/
theorem tunnel_cleared_last (hs : (machine C l).Reachable (.init l enabled now) s)
    (ht : s.tunnelSet = false) : (∃ r, s.phase = .exited r) ∧ s.cancelled = true ∧
      (∀ v ∈ s.services, v.exit.isSome = true) ∧
      ((∃ v ∈ s.services, v.name = .socks5 ∧ v.exit = some .ok) →
        s.serve.permits = l.maxConcurrentConnections ∧ s.serve.dialPermits = l.maxPendingDials ∧
        s.serve.udpAssociatesActive = 0 ∧ ∀ x ∈ s.serve.conns, x.live = false) := by
  have h := inv_of_reachable hs
  obtain ⟨r, hr⟩ := h.phase.tunnel.mp ht
  refine ⟨⟨r, hr⟩, h.phase.stopping (by rw [hr]; rfl), fun v hv => ?_, ?_⟩
  · exact h.phase.finished (.inr ⟨r, hr⟩) (outcome v) (List.mem_map_of_mem hv)
  · rintro ⟨v, hv, hname, hexit⟩
    have hmem : (Name.socks5, some Exit.ok) ∈ s.outcomes :=
      List.mem_map.mpr ⟨v, hv, Prod.ext hname hexit⟩
    exact Proxy.Serve.all_back h.service.serve ((h.service.ends .socks5 hmem).1 rfl)

/-- A connection is open when the signal comes, and the metrics server outlasts the grace. -/
theorem tunnel_cleared_last_grace : ∃ s : State ℕ, s.serve.conns.length = 1 ∧
    (∃ r, s.phase = .exited r) ∧ s.cancelled = true ∧ (∀ v ∈ s.services, v.exit.isSome = true) ∧
    ((∃ v ∈ s.services, v.name = .socks5 ∧ v.exit = some .ok) →
      s.serve.permits = (LimitsConfig.default none).maxConcurrentConnections ∧
      s.serve.dialPermits = (LimitsConfig.default none).maxPendingDials ∧
      s.serve.udpAssociatesActive = 0 ∧ ∀ x ∈ s.serve.conns, x.live = false) := by
  have hrun : (machine ℕ (.default none)).Reachable (.init (.default none) true 0) _ :=
    Machine.reachable_of_run [.serve (.accept (.v4 1#32 5000#16)), .signals (.ok ()),
      .selectCancelled, .cancel, .serve .stop, .serve (.move 0 .abort), .serve .stopped,
      .finish 1 .ok, .join 1, .finish 0 .ok, .join 0, .tick shutdownGrace, .graceOver, .abort 2,
      .shutDown, .clear] rfl
  exact ⟨_, rfl, tunnel_cleared_last hrun rfl⟩

def Action.own : Action C → Prop
  | .serve _ | .finish _ _ | .signals _ | .abort _ => False
  | _ => True

def State.rank (s : State C) : ℕ :=
  match s.phase with
  | .waiting => 6
  | .decided _ => 5
  | .draining _ deadline => if deadline ≤ s.now then 3 else 4
  | .aborting _ => 2
  | .clearing _ => 1
  | .exited _ => 0

def By (T : Instant) (s : State C) : Prop :=
  match s.phase with
  | .waiting | .decided _ => s.now + shutdownGrace ≤ T
  | .draining _ deadline => deadline ≤ T ∧ s.now ≤ T
  | _ => s.now ≤ T

theorem by_grace (h : Inv l start s) : By (s.now + shutdownGrace) s := by
  unfold By
  cases hp : s.phase with
  | waiting | decided _ => exact le_rfl
  | draining u deadline => exact ⟨h.phase.due u deadline hp, Nat.le_add_right _ _⟩
  | aborting _ | clearing _ | exited _ => exact Nat.le_add_right _ _

def Called (s : State C) : Prop :=
  s.phase = .waiting → s.cancelled = true ∨ ∃ v ∈ s.services, v.exit.isSome = true

def Exited (s : State C) : Prop := (∃ r, s.phase = .exited r) ∧ s.tunnelSet = false

def Outlasting (s : State C) : Prop :=
  (∃ u, s.phase = .aborting u) ∧ ∃ v ∈ s.services, v.exit = none

theorem called_of_ne (hp : s.phase ≠ .waiting) : Called s := fun h => absurd h hp

theorem exists_ownWaiting {T : Instant} (h : Inv l start s) (hc : Called s) (hT : By T s)
    (hp : s.phase = .waiting) : ∃ a t, Action.own a ∧ (machine C l).step s a = some t ∧
      Called t ∧ By T t ∧ t.rank < s.rank := by
  rw [By, hp] at hT
  rcases hc hp with hcancelled | ⟨v, hv, hsome⟩
  · refine ⟨.selectCancelled, { s with phase := .decided none }, trivial, ?_, nofun, hT, ?_⟩
    · simp [machine, State.step, hp, hcancelled]
    · simp [State.rank, hp]
  · obtain ⟨i, hi⟩ := List.getElem?_of_mem hv
    obtain ⟨x, hx⟩ := Option.isSome_iff_exists.mp hsome
    have hj := h.phase.waiting hp v hv
    refine ⟨.selectJoined i, { s.setService i { v with joined := true } with
      phase := .decided (some (message v.name x)) }, trivial, ?_, nofun, hT, ?_⟩
    · simp [machine, State.step, hp, hi, hx, hj]
    · simp [State.rank, hp]

theorem exists_ownDraining {T deadline : Instant} (hT : By T s)
    (hp : s.phase = .draining u deadline) :
    ∃ a t, Action.own a ∧ (machine C l).step s a = some t ∧ Called t ∧ By T t ∧
      t.rank < s.rank := by
  rw [By, hp] at hT
  by_cases hd : deadline ≤ s.now
  · refine ⟨.graceOver, { s with phase := .aborting u }, trivial, ?_, nofun, hT.2, ?_⟩
    · simp [machine, State.step, hp, hd]
    · simp [State.rank, hp, hd]
  · have hnow : s.now + (deadline - s.now) = deadline := Nat.add_sub_cancel' (Nat.le_of_not_le hd)
    refine ⟨.tick (deadline - s.now), _, trivial, rfl, called_of_ne ?_, ?_, ?_⟩
    · change s.phase ≠ .waiting
      rw [hp]
      exact nofun
    · unfold By
      rw [hp]
      exact ⟨hT.1, hnow.le.trans hT.1⟩
    · have hle : deadline ≤ s.serve.now + (deadline - s.now) := hnow.ge
      rw [State.rank, State.rank, hp]
      change (if deadline ≤ s.serve.now + (deadline - s.now) then 3 else 4) < _
      rw [if_pos hle]
      change _ < if deadline ≤ s.now then 3 else 4
      rw [if_neg hd]
      omega

theorem exists_own {T : Instant} (h : Inv l start s) (hc : Called s) (hT : By T s)
    (hne : ¬ (Exited s ∨ Outlasting s)) : ∃ a t, Action.own a ∧ (machine C l).step s a = some t ∧
      Called t ∧ By T t ∧ t.rank < s.rank := by
  cases hp : s.phase with
  | exited r => exact absurd (.inl ⟨⟨r, hp⟩, h.phase.tunnel.mpr ⟨r, hp⟩⟩) hne
  | waiting => exact exists_ownWaiting h hc hT hp
  | decided u =>
    rw [By, hp] at hT
    refine ⟨.cancel, { s.cancelToken with phase := .draining u (s.now + shutdownGrace) }, trivial,
      ?_, nofun, ⟨hT, (Nat.le_add_right _ _).trans hT⟩, ?_⟩
    · simp [machine, State.step, hp]
    · simp only [State.rank, hp]
      split <;> omega
  | draining u deadline => exact exists_ownDraining hT hp
  | aborting u =>
    rw [By, hp] at hT
    have hall : s.services.all (·.exit.isSome) = true := by
      refine List.all_eq_true.mpr fun v hv => ?_
      by_contra hnone
      exact hne (.inr ⟨⟨u, hp⟩, v, hv, by simpa using hnone⟩)
    refine ⟨.shutDown, { s with
      services := s.services.map ({ · with joined := true }), phase := .clearing u }, trivial, ?_,
      nofun, hT, ?_⟩
    · simp only [machine, State.step, hp]
      exact if_pos hall
    · simp only [State.rank, hp]
      omega
  | clearing u =>
    rw [By, hp] at hT
    refine ⟨.clear, { s with tunnelSet := false, phase := .exited (result u) }, trivial, ?_, nofun,
      hT, ?_⟩
    · simp [machine, State.step, hp]
    · simp [State.rank, hp]

theorem exists_path {T : Instant} (h : Inv l start s) (hc : Called s) (hT : By T s) :
    ∃ t, (machine C l).Path Action.own s t ∧ t.now ≤ T ∧ (Exited t ∨ Outlasting t) := by
  obtain ⟨t, hpath, ⟨ht, _, hby⟩, hend⟩ := Machine.exists_path_of_rank (M := machine C l)
    (p := Action.own) (I := fun t => Inv l start t ∧ Called t ∧ By T t)
    (G := fun t => Exited t ∨ Outlasting t) State.rank (fun t ht hne => by
      obtain ⟨a, u, hown, ha, hcalled, hby, hlt⟩ := exists_own ht.1 ht.2.1 ht.2.2 hne
      exact ⟨a, u, hown, ha, ⟨ht.1.step ha, hcalled, hby⟩, hlt⟩) ⟨h, hc, hT⟩
  refine ⟨t, hpath, ?_, hend⟩
  rcases hend with ⟨⟨r, hr⟩, _⟩ | ⟨⟨u, hu⟩, _⟩
  · rwa [By, hr] at hby
  · rwa [By, hu] at hby

theorem exists_exit (hp : s.phase = .aborting u) (hall : ∀ v ∈ s.services, v.exit.isSome = true) :
    ∃ t, (machine C l).Path Action.own s t ∧ t.now ≤ s.now ∧ Exited t := by
  have hshut : (machine C l).step s .shutDown = some { s with
      services := s.services.map ({ · with joined := true }), phase := .clearing u } := by
    simp only [machine, State.step, hp]
    exact if_pos (List.all_eq_true.mpr hall)
  have hclear : (machine C l).step { s with
      services := s.services.map ({ · with joined := true }), phase := .clearing u } .clear =
      some { s with
        services := s.services.map ({ · with joined := true })
        tunnelSet := false
        phase := .exited (result u) } := rfl
  have hpath : (machine C l).Path Action.own s _ := .single ⟨.shutDown, trivial, hshut⟩
  exact ⟨_, hpath.tail ⟨.clear, trivial, hclear⟩, le_rfl, ⟨_, rfl⟩, rfl⟩

/-- Once the token is cancelled or a service is over, `run` exits within the grace by its own
moves, or it waits for a service that it has aborted to reach an await; when all have, it exits
without waiting any more. -/
theorem exits_in_time (hs : (machine C l).Reachable (.init l enabled now) s) (hc : Called s) :
    (∃ t, (machine C l).Path Action.own s t ∧ t.now ≤ s.now + shutdownGrace ∧
      (Exited t ∨ Outlasting t)) ∧
    ∀ t u, (machine C l).Reachable s t → t.phase = .aborting u →
      (∀ v ∈ t.services, v.exit.isSome = true) →
        ∃ t', (machine C l).Path Action.own t t' ∧ t'.now ≤ t.now ∧ Exited t' := by
  have h := inv_of_reachable hs
  exact ⟨exists_path h hc (by_grace h), fun t u _ hp hall => exists_exit hp hall⟩

theorem exits_in_time_failed : ∃ s : State ℕ, s.cancelled = false ∧
    (∃ t, (machine ℕ (.default none)).Path Action.own s t ∧ t.now ≤ s.now + shutdownGrace ∧
      (Exited t ∨ Outlasting t)) ∧
    ∀ t u, (machine ℕ (.default none)).Reachable s t → t.phase = .aborting u →
      (∀ v ∈ t.services, v.exit.isSome = true) →
        ∃ t', (machine ℕ (.default none)).Path Action.own t t' ∧ t'.now ≤ t.now ∧ Exited t' := by
  have hrun : (machine ℕ (.default none)).Reachable (.init (.default none) false 0) _ :=
    Machine.reachable_of_run [.finish 0 (.err .tunnelNotReady)] rfl
  refine ⟨_, rfl, exits_in_time hrun fun _ => .inr ⟨_, List.mem_cons_self, rfl⟩⟩

end WarpRust.Main
