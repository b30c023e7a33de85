import WarpRust.Config
import WarpRust.Proxy.StaggeredDial

/-!
# One SOCKS5 connection

`handle` up to the relay, as the ordered list of what it does to its client, the egress
counters and the metrics. Every answer of its environment is a field of `Host`; the dial is
the answer of a `StaggeredDial` run. Logging is left out.
-/

namespace WarpRust.Proxy
open StaggeredDial Library

variable {C : Type}

inductive Socks5Command where
  | tcpConnect
  | tcpBind
  | udpAssociate

inductive TargetAddr where
  | ip (a : SocketAddr)
  | domain (host : String) (port : BitVec 16)

inductive ReplyError where
  | generalFailure
  | hostUnreachable
  | commandNotSupported
  deriving DecidableEq

inductive Metric where
  | handshakeTimeout
  | connsRejected
  | connsRejectedUnhealthy
  | connsRejectedDialPressure
  | connsOpened
  | connsClosed
  | bytesUp
  | bytesDown
  deriving DecidableEq

inductive Effect where
  | count (m : Metric) (n : ℕ)
  | record (success : Bool)
  | replyError (e : ReplyError)
  | replySuccess (addr : SocketAddr)
  | udpAssociate
  | relay
  deriving DecidableEq

/-- The environment of one connection. `handshake` is `none` when it timed out; `reply` is
the outcome of writing the one reply that is sent. -/
structure Host (C : Type) where
  nodelay : Except Error Unit
  handshake : Option (Except Error (Socks5Command × TargetAddr))
  healthy : Bool
  dialPermit : Bool
  resolveDual : String → BitVec 16 → Except Error (List SocketAddr)
  hasIpv6 : Bool
  dial : Params → Answer C
  reply : Except Error Unit
  udpAssociate : Except Error Unit
  relay : Except Error (ℕ × ℕ)

def resolveTarget (h : Host C) : TargetAddr → Except Error (List SocketAddr)
  | .ip a => .ok [a]
  | .domain host port => h.resolveDual host port

/-- `retain(|addr| seen.insert(*addr))`: the first of equal addresses stays. -/
def retainUnseen (seen : List SocketAddr) : List SocketAddr → List SocketAddr
  | [] => []
  | a :: l => if a ∈ seen then retainUnseen seen l else a :: retainUnseen (a :: seen) l

def noUpstreamError : Error := .other [.lit "no upstream candidates"]

def ipv6OnlyError : Error :=
  .other [.lit "target resolved to IPv6 only, but tunnel has no IPv6 route"]

def dialParams (hasIpv6 : Bool) (limits : LimitsConfig) (candidates : List SocketAddr) :
    Except Error Params :=
  let usable := if hasIpv6 then candidates else candidates.filter SocketAddr.isIpv4
  if candidates.isEmpty then .error noUpstreamError
  else if usable.isEmpty then .error ipv6OnlyError
  else
    .ok { candidates := (retainUnseen [] usable).take limits.maxDialCandidates,
          delay := limits.happyEyeballsDelay,
          totalTimeout := limits.connectTimeout,
          maxParallel := limits.maxParallelDials }

def happyEyeballsDial (h : Host C) (limits : LimitsConfig) (candidates : List SocketAddr) :
    Answer C :=
  match dialParams h.hasIpv6 limits candidates with
  | .error e => .error e
  | .ok p => h.dial p

def replyWith (h : Host C) (e : ReplyError) (before : List Effect) :
    List Effect × Except Error Unit :=
  (before ++ [.replyError e], h.reply)

def rejectedAs (m : Metric) : List Effect := [.count .connsRejected 1, .count m 1]

/-- `TunnelNotReady` is the proxy's own refusal: it is no egress failure. -/
def dialEffects : Answer C → List Effect
  | .ok _ => [.record true]
  | .error .tunnelNotReady => []
  | .error _ => [.record false]

def dialReply : Error → ReplyError
  | .tunnelNotReady => .generalFailure
  | _ => .hostUnreachable

def afterDial (h : Host C) (answer : Answer C) : List Effect × Except Error Unit :=
  match answer with
  | .error e => replyWith h (dialReply e) (dialEffects answer)
  | .ok (upstreamAddr, _) =>
    let opened := dialEffects answer ++ [.replySuccess upstreamAddr]
    match h.reply with
    | .error e => (opened, .error e)
    | .ok () =>
      let relayed := opened ++ [.count .connsOpened 1, .relay]
      match h.relay with
      | .error e => (relayed, .error e)
      | .ok (up, down) =>
        (relayed ++ [.count .bytesUp up, .count .bytesDown down, .count .connsClosed 1], .ok ())

def handleConnect (h : Host C) (limits : LimitsConfig) (target : TargetAddr) :
    List Effect × Except Error Unit :=
  if !h.healthy then replyWith h .generalFailure (rejectedAs .connsRejectedUnhealthy)
  else if !h.dialPermit then
    replyWith h .generalFailure (rejectedAs .connsRejectedDialPressure)
  else
    match resolveTarget h target with
    | .error _ => replyWith h .hostUnreachable []
    | .ok candidates => afterDial h (happyEyeballsDial h limits candidates)

def handle (h : Host C) (limits : LimitsConfig) : List Effect × Except Error Unit :=
  match h.nodelay, h.handshake with
  | .error e, _ => ([], .error e)
  | .ok (), none => ([.count .handshakeTimeout 1], .ok ())
  | .ok (), some (.error e) => ([], .error e)
  | .ok (), some (.ok (.udpAssociate, _)) =>
    if !h.healthy then replyWith h .generalFailure (rejectedAs .connsRejectedUnhealthy)
    else ([.udpAssociate], h.udpAssociate)
  | .ok (), some (.ok (.tcpBind, _)) => replyWith h .commandNotSupported []
  | .ok (), some (.ok (.tcpConnect, target)) => handleConnect h limits target

/-! ## The candidates that are dialed -/

theorem mem_retainUnseen {a : SocketAddr} {seen l : List SocketAddr} :
    a ∈ retainUnseen seen l ↔ a ∈ l ∧ a ∉ seen := by
  induction l generalizing seen with
  | nil => simp [retainUnseen]
  | cons b l ih =>
    by_cases hb : b ∈ seen
    · rw [retainUnseen, if_pos hb, ih, List.mem_cons]
      constructor
      · rintro ⟨ha, hseen⟩
        exact ⟨.inr ha, hseen⟩
      · rintro ⟨rfl | ha, hseen⟩
        · exact absurd hb hseen
        · exact ⟨ha, hseen⟩
    · rw [retainUnseen, if_neg hb, List.mem_cons, ih, List.mem_cons, List.mem_cons, not_or]
      by_cases hab : a = b
      · simp [hab, hb]
      · simp [hab]

theorem retainUnseen_nodup (seen l : List SocketAddr) : (retainUnseen seen l).Nodup := by
  induction l generalizing seen with
  | nil => exact List.nodup_nil
  | cons b l ih =>
    by_cases hb : b ∈ seen
    · rw [retainUnseen, if_pos hb]
      exact ih seen
    · rw [retainUnseen, if_neg hb]
      refine List.nodup_cons.mpr ⟨?_, ih _⟩
      simp [mem_retainUnseen]

theorem dialParams_usable {hasIpv6 : Bool} {limits : LimitsConfig} {candidates : List SocketAddr}
    (hlimits : limits.InRange) (husable : ∃ a ∈ candidates, hasIpv6 = true ∨ a.isIpv4 = true) :
    ∃ p, dialParams hasIpv6 limits candidates = .ok p ∧ p.candidates ≠ [] ∧
      p.candidates.Nodup := by
  obtain ⟨a, ha, hkind⟩ := husable
  have hmem : a ∈ if hasIpv6 then candidates else candidates.filter SocketAddr.isIpv4 := by
    by_cases h6 : hasIpv6 = true
    · simpa [h6] using ha
    · have h4 : a.isIpv4 = true := hkind.resolve_left h6
      simp [h6, ha, h4]
  have hne : candidates.isEmpty = false := by
    cases candidates with
    | nil => cases ha
    | cons => rfl
  simp only [dialParams]
  generalize (if hasIpv6 then candidates else candidates.filter SocketAddr.isIpv4) = usable
    at hmem ⊢
  have husable : usable.isEmpty = false := by
    cases usable with
    | nil => cases hmem
    | cons => rfl
  rw [if_neg (by simp [hne]), if_neg (by simp [husable])]
  refine ⟨_, rfl, ?_, (retainUnseen_nodup [] usable).take⟩
  have hkept : a ∈ retainUnseen [] usable := mem_retainUnseen.mpr ⟨hmem, List.not_mem_nil⟩
  have hmax := hlimits.candidates.1
  simp only [ne_eq, List.take_eq_nil_iff, not_or]
  exact ⟨by omega, List.ne_nil_of_mem hkept⟩

/-! ## What a finished dial tells the egress counters -/

def records (effects : List Effect) : List Bool :=
  effects.filterMap fun
    | .record success => some success
    | _ => none

def AllRefused (s : State C) : Prop :=
  ∀ x ∈ s.ended, x.outcome = .done (.error .tunnelNotReady) ∧ x.time < s.deadline

def AllFailed (s : State C) : Prop :=
  ∀ x ∈ s.ended, x.outcome.connection = none ∧ x.time < s.deadline

def SomeConnected (s : State C) : Prop :=
  ∃ x ∈ s.ended, x.outcome.connection ≠ none ∧ x.time < s.deadline

def DeadlinePassed (l : List (Taken (State C) (Action C))) : Prop :=
  ∃ x ∈ l, x.action = .deadline

/-- Refusals of the proxy's own tunnel never count; another failure counts once, and so
does a success. -/
structure Recorded (l : List (Taken (State C) (Action C))) (s : State C)
    (effects : List Effect) : Prop where
  refused : AllRefused s → false ∉ records effects ∧ .replyError .generalFailure ∈ effects
  failed : ¬ AllRefused s → AllFailed s ∨ DeadlinePassed l → records effects = [false]
  connected : SomeConnected s → records effects = [true]

theorem records_afterDial_error (h : Host C) {e : Error} (he : e ≠ .tunnelNotReady) :
    records (afterDial h (.error e)).1 = [false] := by
  cases e with
  | tunnelNotReady => exact absurd rfl he
  | _ => rfl

theorem records_afterDial_ok (h : Host C) (addr : SocketAddr) (c : C) :
    records (afterDial h (.ok (addr, c))).1 = [true] := by
  unfold afterDial
  cases hr : h.reply with
  | error e => rfl
  | ok u =>
    cases hrelay : h.relay with
    | error e => rfl
    | ok bytes => rfl

section
variable {p : Params} {t₀ : Instant} {s s' : State C} {l : List (Taken (State C) (Action C))}

theorem settled_ne_tunnelNotReady {e : Error} (h : Settled p s (.error e)) :
    e ≠ .tunnelNotReady := by
  cases h with
  | timedOut => simp [timedOutError]
  | allFailed => simp [allFailedError]

theorem answer_kept {a : Action C} {r : Answer C} (hr : s.answer = some r)
    (ha : step p s a = some s') : s'.answer = some r := by
  have hsel (hs : s.phase = .selecting) : False := by simp [State.answer, hs] at hr
  cases step_cases ha with
  | tick => exact hr
  | finish => exact hr
  | join hs => exact (hsel hs).elim
  | launch hs => exact (hsel hs).elim
  | deadline hs => exact (hsel hs).elim
  | reap => exact hr
  | ret hs => simpa [State.answer, hs] using hr

theorem answer_of_deadline (h : (machine C p).Exec (State.init p t₀) l s)
    (hl : DeadlinePassed l) : ∃ e, s.answer = some (.error e) := by
  induction h with
  | nil =>
    obtain ⟨x, hx, _⟩ := hl
    cases hx
  | @snoc l t u a _ ha ih =>
    obtain ⟨x, hx, hdeadline⟩ := hl
    rcases List.mem_append.mp hx with hx | hx
    · obtain ⟨e, he⟩ := ih ⟨x, hx, hdeadline⟩
      exact ⟨e, answer_kept he ha⟩
    · obtain rfl := List.mem_singleton.mp hx
      obtain rfl : a = .deadline := hdeadline
      have ha : step p t .deadline = some u := ha
      cases step_cases ha with
      | deadline => exact ⟨_, rfl⟩

theorem connected_late {e : Error} (h : Inv p t₀ s) (hr : s.answer = some (.error e)) :
    ¬ SomeConnected s := by
  rintro ⟨x, hx, hconn, htime⟩
  have hset := h.settled hr
  have hjoined : x ∉ s.joined := by
    intro hmem
    have hc : connections s.joined = [] := hset.connections_joined
    exact hconn (List.filterMap_eq_nil_iff.mp hc x hmem)
  have hrest : x ∈ s.reaped ++ s.attempts.finished := by
    simp only [State.ended, List.mem_append] at hx ⊢
    tauto
  cases hset with
  | timedOut _ _ _ hlate => exact absurd htime (not_lt.mpr (hlate x hrest))
  | allFailed _ _ hlen =>
    have hreap : s.reaped = [] := List.eq_nil_of_length_eq_zero (by omega)
    have hatt : s.attempts = .empty := JoinSet.eq_empty (by omega)
    simp [hreap, hatt, JoinSet.empty] at hrest

theorem allRefused_answer (h : Inv p t₀ s) {r : Answer C} (hr : s.answer = some r)
    (hall : AllRefused s) : ∃ e, r = .error e := by
  cases h.settled hr with
  | @connected addr c t hx _ =>
    have := (hall _ (List.mem_append_left _ (List.mem_append_left _ hx))).1
    injection this with this
    cases this
  | timedOut => exact ⟨_, rfl⟩
  | allFailed => exact ⟨_, rfl⟩

theorem allFailed_answer (h : Inv p t₀ s) {r : Answer C} (hr : s.answer = some r)
    (hall : AllFailed s) : ∃ e, r = .error e := by
  cases h.settled hr with
  | @connected addr c t hx _ =>
    have := (hall _ (List.mem_append_left _ (List.mem_append_left _ hx))).1
    cases this
  | timedOut => exact ⟨_, rfl⟩
  | allFailed => exact ⟨_, rfl⟩

theorem recorded_afterDial_iff (hp : p.candidates ≠ []) (host : Host C)
    (h : (machine C p).Exec (State.init p t₀) l s) {r : Answer C} (hr : s.answer = some r) :
    Recorded l s (afterDial host r).1 ↔ ¬ AllRefused s := by
  have hinv := exec_inv hp h.reachable
  have hset := hinv.settled hr
  constructor
  · intro hrec hall
    obtain ⟨e, rfl⟩ := allRefused_answer hinv hr hall
    have hfalse := records_afterDial_error host (settled_ne_tunnelNotReady hset)
    have := (hrec.refused hall).1
    rw [hfalse] at this
    exact this (List.mem_singleton.mpr rfl)
  · intro hnot
    refine ⟨fun hall => absurd hall hnot, ?_, ?_⟩
    · intro _ hfail
      have herr : ∃ e, r = .error e := by
        rcases hfail with hfail | hdeadline
        · exact allFailed_answer hinv hr hfail
        · obtain ⟨e, he⟩ := answer_of_deadline h hdeadline
          exact ⟨e, Option.some.inj (hr.symm.trans he)⟩
      obtain ⟨e, rfl⟩ := herr
      exact records_afterDial_error host (settled_ne_tunnelNotReady hset)
    · intro hconn
      cases hr' : r with
      | error e =>
        rw [hr'] at hr
        exact absurd hconn (connected_late hinv hr)
      | ok v => exact records_afterDial_ok host v.1 v.2

end

structure Dials (h : Host C) (target : TargetAddr) (candidates : List SocketAddr) : Prop where
  nodelay : h.nodelay = .ok ()
  handshake : h.handshake = some (.ok (.tcpConnect, target))
  healthy : h.healthy = true
  dialPermit : h.dialPermit = true
  resolved : resolveTarget h target = .ok candidates
  usable : ∃ a ∈ candidates, h.hasIpv6 = true ∨ a.isIpv4 = true

theorem Dials.handle_eq {h : Host C} {target : TargetAddr} {candidates : List SocketAddr}
    (hd : Dials h target candidates) {limits : LimitsConfig} {p : Params}
    (hp : dialParams h.hasIpv6 limits candidates = .ok p) :
    handle h limits = afterDial h (h.dial p) := by
  simp [handle, hd.nodelay, hd.handshake, handleConnect, hd.healthy, hd.dialPermit,
    hd.resolved, happyEyeballsDial, hp]

theorem handle_recorded_iff {facts : HostFacts} {cfg : Config} {isContainer trustedHostNet : Bool}
    (hv : cfg.validateWith facts isContainer trustedHostNet = .ok ()) {host : Host C}
    {target : TargetAddr} {candidates : List SocketAddr} (hd : Dials host target candidates)
    {p : Params} (hp : dialParams host.hasIpv6 cfg.limits candidates = .ok p) {t₀ : Instant}
    {l : List (Taken (State C) (Action C))} {s : State C}
    (h : (machine C p).Exec (State.init p t₀) l s) (hret : s.phase = .returned (host.dial p)) :
    Recorded l s (handle host cfg.limits).1 ↔ ¬ AllRefused s := by
  obtain ⟨q, hq, hne, _⟩ := dialParams_usable (Config.limits_inRange hv) hd.usable
  obtain rfl : p = q := Except.ok.inj (hp.symm.trans hq)
  have hr : s.answer = some (host.dial p) := by simp [State.answer, hret]
  rw [hd.handle_eq hp]
  exact recorded_afterDial_iff hne host h hr

def oneCandidate (r : Answer ℕ) : Host ℕ where
  nodelay := .ok ()
  handshake := some (.ok (.tcpConnect, .ip (.v4 (v4 1 1 1 1) 443)))
  healthy := true
  dialPermit := true
  resolveDual := fun host _ => .error (.dnsNoIpv4 host)
  hasIpv6 := false
  dial := fun _ => r
  reply := .ok ()
  udpAssociate := .ok ()
  relay := .ok (0, 0)

theorem oneCandidate_dials (r : Answer ℕ) :
    Dials (oneCandidate r) (.ip (.v4 (v4 1 1 1 1) 443)) [.v4 (v4 1 1 1 1) 443] :=
  ⟨rfl, rfl, rfl, rfl, rfl, ⟨_, List.mem_singleton.mpr rfl, .inr rfl⟩⟩

def oneCandidateParams : Params where
  candidates := [.v4 (v4 1 1 1 1) 443]
  delay := .fromMillis 200
  totalTimeout := .fromSecs 8
  maxParallel := 2

theorem oneCandidate_params (r : Answer ℕ) :
    dialParams (oneCandidate r).hasIpv6 (Config.default none).limits [.v4 (v4 1 1 1 1) 443] =
      .ok oneCandidateParams := rfl

def failedAtOnce (e : Error) : State ℕ where
  now := 0
  pending := []
  attempts := .empty
  attempted := 1
  lastError := some e
  deadline := Duration.fromSecs 8
  launch := Duration.fromMillis 200
  phase := .returned (.error (allFailedError 1 (some e)))
  starts := [(.v4 (v4 1 1 1 1) 443, 0)]
  joined := [⟨.v4 (v4 1 1 1 1) 443, .done (.error e), 0⟩]
  reaped := []

theorem failedAtOnce_exec (e : Error) :
    ∃ l, (machine ℕ oneCandidateParams).Exec (State.init oneCandidateParams 0) l
      (failedAtOnce e) := by
  obtain ⟨l, hl, _⟩ := Machine.exec_of_run (M := machine ℕ oneCandidateParams)
    (s := State.init oneCandidateParams 0) (t := failedAtOnce e)
    [.finish 0 (.done (.error e)), .join 0] rfl
  exact ⟨l, hl⟩

/-- The only attempt is refused by the proxy's own tunnel, and that counts as a failure. -/
theorem refusal_recorded :
    ∃ l, (machine ℕ oneCandidateParams).Exec (State.init oneCandidateParams 0) l
        (failedAtOnce .tunnelNotReady) ∧
      ∃ r, (failedAtOnce .tunnelNotReady).phase = .returned r ∧
        AllRefused (failedAtOnce .tunnelNotReady) ∧
        (handle (oneCandidate r) (Config.default none).limits).1 =
          [.record false, .replyError .hostUnreachable] ∧
        ¬ Recorded l (failedAtOnce .tunnelNotReady)
          (handle (oneCandidate r) (Config.default none).limits).1 := by
  obtain ⟨l, hl⟩ := failedAtOnce_exec .tunnelNotReady
  have hrefused : AllRefused (failedAtOnce .tunnelNotReady) := by
    intro x hx
    obtain rfl := List.mem_singleton.mp hx
    exact ⟨rfl, by decide⟩
  refine ⟨l, hl, _, rfl, hrefused, rfl, ?_⟩
  intro hrec
  exact (hrec.refused hrefused).1 (by decide)

theorem handle_recorded_iff_refused :
    ∃ l r, (failedAtOnce (.other [])).phase = .returned r ∧
      (Recorded l (failedAtOnce (.other []))
        (handle (oneCandidate r) (Config.default none).limits).1
        ↔ ¬ AllRefused (failedAtOnce (.other []))) := by
  obtain ⟨l, hl⟩ := failedAtOnce_exec (.other [])
  exact ⟨l, _, rfl, handle_recorded_iff Config.default_valid (oneCandidate_dials _)
    (oneCandidate_params _) hl rfl⟩

end WarpRust.Proxy
