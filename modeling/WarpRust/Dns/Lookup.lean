import WarpRust.Dns.CacheHistory
import WarpRust.Dns.Query
import WarpRust.Dns.Singleflight

/-!
# Looking up a record set

`Resolver::query_record`: the system resolver, or the configured servers in order, each asked
once over a socket of its own. Anybody may send to that socket while a query waits.
-/

namespace WarpRust.Dns.Lookup
open Library Checked

structure Params where
  servers : List SocketAddr
  timeout : Duration
  key : Key

structure Datagram where
  src : SocketAddr
  bytes : Bytes

/-- The buffer of `query_one` takes it. -/
def Datagram.Fits (d : Datagram) : Prop := d.bytes.length ≤ 1500

instance decidableFits (d : Datagram) : Decidable d.Fits := inferInstanceAs (Decidable (_ ≤ _))

structure Query where
  server : SocketAddr
  id : BitVec 16
  deadline : Instant

inductive Failure where
  | opening (e : Error)
  | sending (e : NetstackError)
  | receiving (e : NetstackError)
  | timedOut (e : Error)
  | truncated (q : Query) (d : Datagram)
  | refused (q : Query) (d : Datagram) (e : Error)

inductive Phase where
  | choosing
  | sending (server : SocketAddr) (id : BitVec 16)
  -- the head of the loop of `query_one`
  | deciding (q : Query)
  | receiving (q : Query)
  | resolved (q : Query) (d : Datagram) (records : RecordSet)
  | exhausted
  | panicked

/-- `rest` are the servers not asked yet. The datagrams that wait at the socket of the query
under way are `inbox`; `read` are those it has read. -/
structure State where
  now : Instant
  rest : List SocketAddr
  failed : List (SocketAddr × Failure)
  queryFail : ℕ
  inbox : List Datagram
  read : List Datagram
  phase : Phase

inductive Action where
  | tick (d : Duration)
  | arrive (d : Datagram)
  -- what `bind_udp` or `bind_udp_v6` answers; `false` where there is no IPv6 route
  | begin (id : BitVec 16) (socket : Except Error Bool)
  | sent (r : Except NetstackError Unit)
  | clock
  | receive
  | lost (e : NetstackError)

def Datagram.hasId (d : Datagram) (id : BitVec 16) : Bool :=
  match d.bytes with
  | a :: b :: _ => u16FromBeBytes a b = id
  | _ => false

def openQuery (key : Key) (server : SocketAddr) (id : BitVec 16) :
    Except Error Bool → Except Error Bytes
  | .error e => .error e
  | .ok bound =>
    if server.isIpv6 ∧ bound = false then
      .error (.ofStr "DNS server is IPv6 but tunnel has no IPv6 route")
    else buildDnsQuery key.1 key.2 id

def timedOut (server : SocketAddr) : Failure :=
  .timedOut (.other [.lit "DNS query to ", .addr server, .lit " timed out"])

namespace State

def init (p : Params) (now : Instant) : State := ⟨now, p.servers, [], 0, [], [], .choosing⟩

def fail (s : State) (server : SocketAddr) (e : Failure) : State :=
  { s with failed := s.failed ++ [(server, e)], inbox := [], read := [], phase := .choosing }

def judge (p : Params) (s : State) (q : Query) (d : Datagram) : State :=
  -- `recv_slice` answers `Truncated`, whoever sent it
  if ¬ d.Fits then s.fail q.server (.truncated q d)
  else if d.src ≠ q.server then { s with phase := .deciding q }
  else if d.hasId q.id = false then { s with phase := .deciding q }
  else
    match parseDnsAnswers d.bytes p.key.2 q.id with
    | .ok records => { s with phase := .resolved q d records }
    | .err e => s.fail q.server (.refused q d e)
    | .panic => { s with phase := .panicked }

def step (p : Params) (s : State) : Action → Option State
  | .tick d => some { s with now := s.now + d }
  | .arrive d =>
    match s.phase with
    | .sending _ _ | .deciding _ | .receiving _ => some { s with inbox := s.inbox ++ [d] }
    | _ => none
  | .begin id socket =>
    match s.phase, s.rest with
    | .choosing, [] => some { s with queryFail := s.queryFail + 1, phase := .exhausted }
    | .choosing, server :: rest =>
      match openQuery p.key server id socket with
      | .error e => some ({ s with rest := rest }.fail server (.opening e))
      | .ok _ =>
        some { s with rest := rest, inbox := [], read := [], phase := .sending server id }
    | _, _ => none
  | .sent r =>
    match s.phase with
    | .sending server id =>
      match r with
      | .error e => some (s.fail server (.sending e))
      | .ok () => some { s with phase := .deciding ⟨server, id, s.now + p.timeout⟩ }
    | _ => none
  | .clock =>
    match s.phase with
    | .deciding q =>
      if q.deadline - s.now = 0 then some (s.fail q.server (timedOut q.server))
      else some { s with phase := .receiving q }
    | _ => none
  -- `recv_from` reads the socket before it looks at the clock
  | .receive =>
    match s.phase, s.inbox with
    | .receiving q, d :: inbox =>
      some ({ s with inbox := inbox, read := s.read ++ [d] }.judge p q d)
    | .receiving q, [] =>
      if q.deadline ≤ s.now then
        some (s.fail q.server (.receiving (.other [.lit "Read timeout"])))
      else none
    | _, _ => none
  -- the generation was retired, or smoltcp refused the read
  | .lost e =>
    match s.phase with
    | .receiving q => some (s.fail q.server (.receiving e))
    | _ => none

def result (p : Params) (s : State) : Option (Except Error RecordSet) :=
  match s.phase with
  | .resolved _ _ records => some (.ok records)
  | .exhausted => some (.error (negErr p.key))
  | _ => none

end State

def machine (p : Params) : Machine State Action := ⟨State.step p⟩

variable {p : Params} {s t : State} {q : Query} {d : Datagram}

/-! ### Steps -/

inductive Step (p : Params) (s : State) : Action → State → Prop
  | tick (d : Duration) : Step p s (.tick d) { s with now := s.now + d }
  | arrive (d : Datagram) : Step p s (.arrive d) { s with inbox := s.inbox ++ [d] }
  | exhaust {id : BitVec 16} {socket : Except Error Bool} (hp : s.phase = .choosing)
      (hrest : s.rest = []) : Step p s (.begin id socket)
        { s with queryFail := s.queryFail + 1, phase := .exhausted }
  | refuse {id : BitVec 16} {socket : Except Error Bool} {server : SocketAddr}
      {rest : List SocketAddr} {e : Error} (hp : s.phase = .choosing)
      (hrest : s.rest = server :: rest) :
      Step p s (.begin id socket) ({ s with rest := rest }.fail server (.opening e))
  | ask {id : BitVec 16} {socket : Except Error Bool} {server : SocketAddr}
      {rest : List SocketAddr} (hp : s.phase = .choosing) (hrest : s.rest = server :: rest) :
      Step p s (.begin id socket)
        { s with rest := rest, inbox := [], read := [], phase := .sending server id }
  | unsent {server : SocketAddr} {id : BitVec 16} {e : NetstackError}
    (hp : s.phase = .sending server id) :
      Step p s (.sent (.error e)) (s.fail server (.sending e))
  | sent {server : SocketAddr} {id : BitVec 16} (hp : s.phase = .sending server id) :
      Step p s (.sent (.ok ())) { s with phase := .deciding ⟨server, id, s.now + p.timeout⟩ }
  | timedOut {q : Query} (hp : s.phase = .deciding q) (hd : q.deadline ≤ s.now) :
      Step p s .clock (s.fail q.server (timedOut q.server))
  | wait {q : Query} (hp : s.phase = .deciding q) (hd : s.now < q.deadline) :
      Step p s .clock { s with phase := .receiving q }
  | read {q : Query} {d : Datagram} {inbox : List Datagram} (hp : s.phase = .receiving q)
      (hinbox : s.inbox = d :: inbox) :
      Step p s .receive ({ s with inbox := inbox, read := s.read ++ [d] }.judge p q d)
  | readTimeout {q : Query} (hp : s.phase = .receiving q) (hinbox : s.inbox = [])
      (hd : q.deadline ≤ s.now) :
      Step p s .receive (s.fail q.server (.receiving (.other [.lit "Read timeout"])))
  | lost {q : Query} {e : NetstackError} (hp : s.phase = .receiving q) :
      Step p s (.lost e) (s.fail q.server (.receiving e))

theorem step_cases {a : Action} (ha : (machine p).step s a = some t) : Step p s a t := by
  simp only [machine] at ha
  cases a with
  | tick d =>
    cases ha
    exact .tick d
  | arrive d =>
    simp only [State.step] at ha
    split at ha <;> cases ha <;> exact .arrive d
  | begin id socket =>
    simp only [State.step] at ha
    split at ha
    · next hp hrest =>
      cases ha
      exact .exhaust hp hrest
    · next hp hrest =>
      split at ha <;> cases ha
      · exact .refuse hp hrest
      · exact .ask hp hrest
    · cases ha
  | sent r =>
    simp only [State.step] at ha
    split at ha
    · next hp =>
      split at ha <;> cases ha
      · exact .unsent hp
      · exact .sent hp
    · cases ha
  | clock =>
    simp only [State.step] at ha
    split at ha
    · next hp =>
      split at ha <;> cases ha
      · next hd => exact .timedOut hp (Nat.sub_eq_zero_iff_le.mp hd)
      · next hd => exact .wait hp (not_le.mp fun h => hd (Nat.sub_eq_zero_iff_le.mpr h))
    · cases ha
  | receive =>
    simp only [State.step] at ha
    split at ha
    · next hp hinbox =>
      cases ha
      exact .read hp hinbox
    · next hp hinbox =>
      obtain ⟨hd, rfl⟩ := of_guarded ha
      exact .readTimeout hp hinbox hd
    · cases ha
  | lost e =>
    simp only [State.step] at ha
    split at ha
    · next hp =>
      cases ha
      exact .lost hp
    · cases ha

/-! ### What ends a query -/

def Query.Genuine (q : Query) (d : Datagram) : Prop := d.src = q.server ∧ d.hasId q.id = true

theorem Datagram.Fits.isizeMax (h : d.Fits) : d.bytes.length ≤ isizeMax :=
  Nat.le_trans h (by decide)

theorem parse_total (p : Params) (q : Query) (h : d.Fits) :
    (∃ records, parseDnsAnswers d.bytes p.key.2 q.id = .ok records) ∨
      ∃ e, parseDnsAnswers d.bytes p.key.2 q.id = .err e := by
  rcases parse_cases ⟨d.bytes, h.isizeMax⟩ p.key.2 q.id with ⟨e, he⟩ | ⟨found, hreply⟩
  · exact .inr ⟨e, he⟩
  · have hparse := hreply.parse h.isizeMax p.key.2
    split at hparse
    · exact .inr ⟨_, hparse⟩
    · exact .inl ⟨_, hparse⟩

/-- A datagram that does not fit ends the query, and so does a genuine one; any other is as if
it had not come. -/
inductive Judged (p : Params) (s : State) (q : Query) (d : Datagram) : State → Prop
  | truncated (hfits : ¬ d.Fits) : Judged p s q d (s.fail q.server (.truncated q d))
  | ignored (hfits : d.Fits) (hd : ¬ q.Genuine d) : Judged p s q d { s with phase := .deciding q }
  | resolved {records : RecordSet} (hfits : d.Fits) (hd : q.Genuine d)
      (hr : parseDnsAnswers d.bytes p.key.2 q.id = .ok records) :
      Judged p s q d { s with phase := .resolved q d records }
  | refused {e : Error} (hfits : d.Fits) (hd : q.Genuine d)
      (he : parseDnsAnswers d.bytes p.key.2 q.id = .err e) :
      Judged p s q d (s.fail q.server (.refused q d e))

theorem judge_cases (p : Params) (s : State) (q : Query) (d : Datagram) :
    Judged p s q d (s.judge p q d) := by
  by_cases hfits : d.Fits
  · by_cases hsrc : d.src = q.server
    · cases hid : d.hasId q.id with
      | false =>
        rw [State.judge, if_neg (not_not.mpr hfits), if_neg (not_not.mpr hsrc), if_pos hid]
        exact .ignored hfits fun h => Bool.false_ne_true (hid.symm.trans h.2)
      | true =>
        rw [State.judge, if_neg (not_not.mpr hfits), if_neg (not_not.mpr hsrc), hid,
          if_neg Bool.noConfusion]
        rcases parse_total p q hfits with ⟨records, hr⟩ | ⟨e, he⟩
        · rw [hr]
          exact .resolved hfits ⟨hsrc, hid⟩ hr
        · rw [he]
          exact .refused hfits ⟨hsrc, hid⟩ he
    · rw [State.judge, if_neg (not_not.mpr hfits), if_pos hsrc]
      exact .ignored hfits fun h => hsrc h.1
  · rw [State.judge, if_pos hfits]
    exact .truncated hfits

/-! ### The order of the servers -/

def Phase.server : Phase → Option SocketAddr
  | .sending server _ => some server
  | .deciding q | .receiving q | .resolved q _ _ => some q.server
  | _ => none

def Phase.Follows (p : Params) (rest : List SocketAddr) (read : List Datagram) : Phase → Prop
  | .choosing => True
  | .sending _ _ => read = []
  | .deciding q | .receiving q => ∀ d ∈ read, ¬ q.Genuine d
  | .resolved q d records =>
    q.Genuine d ∧ d.Fits ∧ parseDnsAnswers d.bytes p.key.2 q.id = .ok records ∧
      ∃ strays, read = strays ++ [d] ∧ ∀ x ∈ strays, ¬ q.Genuine x
  | .exhausted => rest = []
  | .panicked => False

def Phase.exhaustions : Phase → ℕ
  | .exhausted => 1
  | _ => 0

/-- A server is tried after all before it have failed, and a datagram has a part in the outcome
only if it is genuine. -/
structure Sound (p : Params) (s : State) : Prop where
  order : s.failed.map Prod.fst ++ s.phase.server.toList ++ s.rest = p.servers
  refused : ∀ server q d e, (server, Failure.refused q d e) ∈ s.failed →
    q.server = server ∧ q.Genuine d ∧ parseDnsAnswers d.bytes p.key.2 q.id = .err e
  truncated : ∀ server q d, (server, Failure.truncated q d) ∈ s.failed → ¬ d.Fits
  follows : s.phase.Follows p s.rest s.read
  queryFail : s.queryFail = s.phase.exhaustions

theorem Sound.init (now : Instant) : Sound p (.init p now) where
  order := rfl
  refused _ _ _ _ h := by cases h
  truncated _ _ _ h := by cases h
  follows := trivial
  queryFail := rfl

theorem Sound.fail {server : SocketAddr} {e : Failure} (hs : Sound p s)
    (hserver : s.phase.server = some server) (hcount : s.phase.exhaustions = 0)
    (he : ∀ q d e', e = .refused q d e' → q.server = server ∧ q.Genuine d ∧
      parseDnsAnswers d.bytes p.key.2 q.id = .err e')
    (ht : ∀ q d, e = .truncated q d → ¬ d.Fits) : Sound p (s.fail server e) where
  order := by
    have horder := hs.order
    rw [hserver] at horder
    simpa [State.fail, Phase.server] using horder
  refused server' q d e' hmem := by
    rcases List.mem_append.mp hmem with hmem | hmem
    · exact hs.refused server' q d e' hmem
    · obtain ⟨rfl, rfl⟩ := Prod.mk.inj (List.mem_singleton.mp hmem)
      exact he q d e' rfl
  truncated server' q d hmem := by
    rcases List.mem_append.mp hmem with hmem | hmem
    · exact hs.truncated server' q d hmem
    · obtain ⟨rfl, rfl⟩ := Prod.mk.inj (List.mem_singleton.mp hmem)
      exact ht q d rfl
  follows := trivial
  queryFail := hs.queryFail.trans hcount

theorem Sound.judge (hs : Sound p s) (hp : s.phase = .receiving q) {inbox : List Datagram} :
    Sound p ({ s with inbox := inbox, read := s.read ++ [d] }.judge p q d) := by
  have hread : ∀ x ∈ s.read, ¬ q.Genuine x := by
    have hfollows := hs.follows
    rwa [hp] at hfollows
  have hserver : s.phase.server = some q.server := by rw [hp]; rfl
  have hcount : s.phase.exhaustions = 0 := by rw [hp]; rfl
  have horder := hs.order
  rw [hserver] at horder
  have hjudged := judge_cases p { s with inbox := inbox, read := s.read ++ [d] } q d
  generalize State.judge p { s with inbox := inbox, read := s.read ++ [d] } q d = t at hjudged ⊢
  cases hjudged with
  | truncated hfits =>
    refine hs.fail hserver hcount nofun fun q' d' heq => ?_
    obtain ⟨rfl, rfl⟩ := Failure.truncated.inj heq
    exact hfits
  | ignored _ hd =>
    refine ⟨horder, hs.refused, hs.truncated, ?_, hs.queryFail.trans hcount⟩
    exact List.forall_mem_append.mpr ⟨hread, List.forall_mem_singleton.mpr hd⟩
  | resolved hfits hd hr =>
    exact ⟨horder, hs.refused, hs.truncated, ⟨hd, hfits, hr, s.read, rfl, hread⟩,
      hs.queryFail.trans hcount⟩
  | refused hfits hd he =>
    refine hs.fail hserver hcount (fun q' d' e' heq => ?_) nofun
    obtain ⟨rfl, rfl, rfl⟩ := Failure.refused.inj heq
    exact ⟨rfl, hd, he⟩

theorem Sound.step {a : Action} (hs : Sound p s) (ha : (machine p).step s a = some t) :
    Sound p t := by
  have hfollows := hs.follows
  have horder := hs.order
  have hcount := hs.queryFail
  cases step_cases ha with
  | tick e => exact ⟨hs.order, hs.refused, hs.truncated, hs.follows, hs.queryFail⟩
  | arrive d => exact ⟨hs.order, hs.refused, hs.truncated, hs.follows, hs.queryFail⟩
  | exhaust hp hrest =>
    rw [hp] at horder hcount
    exact ⟨horder, hs.refused, hs.truncated, hrest, congrArg (· + 1) hcount⟩
  | refuse hp hrest =>
    rw [hp, hrest] at horder
    rw [hp] at hcount
    have hs' : Sound p { s with rest := _, phase := .sending _ 0, read := [] } :=
      ⟨by simpa [Phase.server] using horder, hs.refused, hs.truncated, rfl, hcount⟩
    exact hs'.fail rfl rfl nofun nofun
  | ask hp hrest =>
    rw [hp, hrest] at horder
    rw [hp] at hcount
    exact ⟨by simpa [Phase.server] using horder, hs.refused, hs.truncated, rfl, hcount⟩
  | unsent hp => exact hs.fail (by rw [hp]; rfl) (by rw [hp]; rfl) nofun nofun
  | sent hp =>
    rw [hp] at horder hcount hfollows
    have hread : s.read = [] := hfollows
    exact ⟨horder, hs.refused, hs.truncated, hread ▸ List.forall_mem_nil _, hcount⟩
  | timedOut hp => exact hs.fail (by rw [hp]; rfl) (by rw [hp]; rfl) nofun nofun
  | wait hp =>
    rw [hp] at horder hcount hfollows
    exact ⟨horder, hs.refused, hs.truncated, hfollows, hcount⟩
  | read hp => exact hs.judge hp
  | readTimeout hp | lost hp => exact hs.fail (by rw [hp]; rfl) (by rw [hp]; rfl) nofun nofun

/-- What a lookup comes to: it tries the servers in order, gives up when all have failed and
counts that once, and a datagram decides anything only if it is the first genuine one that its
query has read. -/
theorem lookup_sound {now : Instant} (h : (machine p).Reachable (.init p now) s) : Sound p s :=
  h.invariant (.init now) fun _ _ _ hs ha => hs.step ha

def twoServers : Params :=
  ⟨[.v6 1#128 53#16 0#32 0#32, .v4 0x01010101#32 53#16], 5, ("a", qtypeA)⟩

def stray : Datagram := ⟨.v4 0x02020202#32 53#16, [0, 7]⟩

def shortReply : Datagram := ⟨.v4 0x01010101#32 53#16, [0, 7]⟩

theorem lookup_sound_refused :
    ∃ s : State, s.failed.length = 2 ∧ s.queryFail = 1 ∧ Sound twoServers s := by
  have hrun : (machine twoServers).Reachable (.init twoServers 0) _ :=
    Machine.reachable_of_run [.begin 3 (.ok false), .begin 7 (.ok true), .sent (.ok ()),
      .arrive stray, .arrive shortReply, .clock, .receive, .clock, .receive,
      .begin 0 (.ok true)] rfl
  exact ⟨_, rfl, rfl, lookup_sound hrun⟩

/-! ### A reply behind stray datagrams -/

def Running (s : State) (q : Query) : Prop := s.phase = .deciding q ∨ s.phase = .receiving q

theorem Running.deciding {q' : Query} (h : Running s q) (hp : s.phase = .deciding q') : q' = q := by
  rcases h with h | h <;> rw [hp] at h <;> cases h
  rfl

theorem Running.receiving {q' : Query} (h : Running s q) (hp : s.phase = .receiving q') :
    q' = q := by
  rcases h with h | h <;> rw [hp] at h <;> cases h
  rfl

def Query.EndedBy (q : Query) (d : Datagram) : Prop := q.Genuine d ∨ ¬ d.Fits

def Decided (s : State) (q : Query) (d : Datagram) : Prop :=
  (∃ records, s.phase = .resolved q d records) ∨
    (∃ e, (q.server, Failure.refused q d e) ∈ s.failed) ∨
    ¬ d.Fits ∧ (q.server, Failure.truncated q d) ∈ s.failed

def Waits (s : State) (q : Query) (d : Datagram) : Prop :=
  Running s q ∧ ∃ strays rest, s.inbox = strays ++ d :: rest ∧ ∀ x ∈ strays, ¬ q.EndedBy x

theorem fail_failed {server : SocketAddr} {e : Failure} {x : SocketAddr × Failure}
    (h : x ∈ s.failed) : x ∈ (s.fail server e).failed := List.mem_append_left _ h

theorem judge_failed {x : SocketAddr × Failure} (h : x ∈ s.failed) :
    x ∈ (s.judge p q d).failed := by
  have hjudged := judge_cases p s q d
  generalize s.judge p q d = t at hjudged ⊢
  cases hjudged with
  | truncated _ => exact fail_failed h
  | ignored _ _ => exact h
  | resolved _ _ _ => exact h
  | refused _ _ _ => exact fail_failed h

theorem Decided.step {a : Action} (hd : Decided s q d) (ha : (machine p).step s a = some t) :
    Decided t q d := by
  have hfailed {x : SocketAddr × Failure} (he : x ∈ s.failed) : x ∈ t.failed := by
    cases step_cases ha with
    | tick _ | arrive _ | exhaust _ _ | ask _ _ | sent _ | wait _ _ => exact he
    | refuse _ _ | unsent _ | timedOut _ _ | readTimeout _ _ _ | lost _ => exact fail_failed he
    | read _ _ => exact judge_failed he
  rcases hd with ⟨records, hp⟩ | ⟨e, he⟩ | ⟨hfits, he⟩
  · cases step_cases ha with
    | tick _ | arrive _ => exact .inl ⟨records, hp⟩
    | exhaust hp' | refuse hp' | ask hp' | unsent hp' | sent hp' | timedOut hp' | wait hp'
    | read hp' | readTimeout hp' | lost hp' =>
      rw [hp] at hp'
      cases hp'
  · exact .inr (.inl ⟨e, hfailed he⟩)
  · exact .inr (.inr ⟨hfits, hfailed he⟩)

theorem judge_decides (hd : q.EndedBy d) : Decided (s.judge p q d) q d := by
  have hjudged := judge_cases p s q d
  generalize s.judge p q d = t at hjudged ⊢
  cases hjudged with
  | truncated hfits => exact .inr (.inr ⟨hfits, List.mem_append_right _ List.mem_cons_self⟩)
  | ignored hfits hnot => exact absurd hd (not_or.mpr ⟨hnot, not_not.mpr hfits⟩)
  | resolved _ _ _ => exact .inl ⟨_, rfl⟩
  | refused _ _ _ => exact .inr (.inl ⟨_, List.mem_append_right _ List.mem_cons_self⟩)

theorem judge_stray (hd : ¬ q.EndedBy d) : s.judge p q d = { s with phase := .deciding q } := by
  have hjudged := judge_cases p s q d
  generalize s.judge p q d = t at hjudged ⊢
  cases hjudged with
  | truncated hfits => exact absurd (.inr hfits) hd
  | ignored _ _ => rfl
  | resolved _ hgenuine _ => exact absurd (.inl hgenuine) hd
  | refused _ hgenuine _ => exact absurd (.inl hgenuine) hd

theorem Waits.read (hw : Waits s q d) (hd : q.EndedBy d) {q' : Query} {x : Datagram}
    {inbox : List Datagram} (hp : s.phase = .receiving q') (hinbox : s.inbox = x :: inbox) :
    Waits ({ s with inbox := inbox, read := s.read ++ [x] }.judge p q' x) q d ∨
      Decided ({ s with inbox := inbox, read := s.read ++ [x] }.judge p q' x) q d := by
  obtain ⟨hrun, strays, rest, hin, hstrays⟩ := hw
  obtain rfl := hrun.receiving hp
  rw [hinbox] at hin
  cases strays with
  | nil =>
    obtain ⟨rfl, _⟩ := List.cons.inj hin
    exact .inr (judge_decides hd)
  | cons y strays =>
    obtain ⟨rfl, rfl⟩ := List.cons.inj hin
    rw [judge_stray (hstrays _ List.mem_cons_self)]
    exact .inl ⟨.inl rfl, strays, rest, rfl, fun z hz => hstrays z (List.mem_cons_of_mem x hz)⟩

theorem Waits.step {a : Action} (hw : Waits s q d) (hd : q.EndedBy d)
    (ha : (machine p).step s a = some t) (htime : t.now < q.deadline) (hlost : ∀ e, a ≠ .lost e) :
    Waits t q d ∨ Decided t q d := by
  have hrun := hw.1
  obtain ⟨_, strays, rest, hin, hstrays⟩ := hw
  cases step_cases ha with
  | tick e => exact .inl ⟨hrun, strays, rest, hin, hstrays⟩
  | arrive x =>
    refine .inl ⟨hrun, strays, rest ++ [x], ?_, hstrays⟩
    simp only [hin, List.append_assoc, List.cons_append]
  | exhaust hp | refuse hp | ask hp | unsent hp | sent hp =>
    rcases hrun with hrun | hrun <;> rw [hrun] at hp <;> cases hp
  | timedOut hp hdl =>
    obtain rfl := hrun.deciding hp
    exact absurd htime (not_lt.mpr hdl)
  | wait hp =>
    obtain rfl := hrun.deciding hp
    exact .inl ⟨.inr rfl, strays, rest, hin, hstrays⟩
  | read hp hinbox => exact Waits.read ⟨hrun, strays, rest, hin, hstrays⟩ hd hp hinbox
  | readTimeout hp hinbox =>
    rw [hinbox] at hin
    exact absurd hin.symm (by simp)
  | lost hp => exact absurd rfl (hlost _)

theorem judge_now : (s.judge p q d).now = s.now := by
  have hjudged := judge_cases p s q d
  generalize s.judge p q d = t at hjudged ⊢
  cases hjudged <;> rfl

theorem now_le {a : Action} (ha : (machine p).step s a = some t) : s.now ≤ t.now := by
  cases step_cases ha with
  | tick e => exact Nat.le_add_right s.now e
  | read _ _ => rw [judge_now]
  | _ => exact le_rfl

def Action.own : Action → Prop
  | .clock | .receive => True
  | _ => False

def State.roundsLeft (s : State) : ℕ :=
  match s.phase with
  | .deciding _ => 2 * s.inbox.length + 1
  | .receiving _ => 2 * s.inbox.length
  | _ => 0

theorem judge_rounds {x : Datagram} {inbox : List Datagram} (hp : s.phase = .receiving q)
    (hinbox : s.inbox = x :: inbox) :
    ({ s with inbox := inbox, read := s.read ++ [x] }.judge p q x).roundsLeft < s.roundsLeft := by
  have hjudged := judge_cases p { s with inbox := inbox, read := s.read ++ [x] } q x
  generalize State.judge p { s with inbox := inbox, read := s.read ++ [x] } q x = t at hjudged ⊢
  cases hjudged <;>
    simp only [State.roundsLeft, State.fail, hp, hinbox, List.length_cons] <;> omega

theorem Waits.next (hw : Waits s q d) (hd : q.EndedBy d) (htime : s.now < q.deadline) :
    ∃ a t, a.own ∧ (machine p).step s a = some t ∧ (Waits t q d ∨ Decided t q d) ∧
      t.now = s.now ∧ t.roundsLeft < s.roundsLeft := by
  obtain ⟨hrun, strays, rest, hin, hstrays⟩ := id hw
  rcases hrun with hp | hp
  · refine ⟨.clock, { s with phase := .receiving q }, trivial, ?_,
      .inl ⟨.inr rfl, strays, rest, hin, hstrays⟩, rfl, ?_⟩
    · simp only [machine, State.step, hp]
      exact if_neg fun h => not_le.mpr htime (Nat.sub_eq_zero_iff_le.mp h)
    · simp [State.roundsLeft, hp]
  · cases hinbox : s.inbox with
    | nil =>
      rw [hinbox] at hin
      exact absurd hin.symm (by simp)
    | cons x inbox =>
      refine ⟨.receive, { s with inbox := inbox, read := s.read ++ [x] }.judge p q x, trivial, ?_,
        hw.read hd hp hinbox, ?_⟩
      · simp only [machine, State.step, hp, hinbox]
      · exact ⟨judge_now, judge_rounds hp hinbox⟩

/-- The first datagram at the socket that is genuine or does not fit decides the query, whatever
else arrives: it does so as long as the socket is not lost and the deadline has not come, and
the query's own steps get there. -/
theorem reply_decides {l : List (Taken State Action)} (hw : Waits s q d) (hd : q.EndedBy d)
    (h : (machine p).Exec s l t) (hlost : ∀ x ∈ l, ∀ e, x.action ≠ .lost e)
    (htime : t.now < q.deadline) :
    Decided t q d ∨
      Waits t q d ∧ ∃ u, (machine p).Path Action.own t u ∧ u.now = t.now ∧ Decided u q d := by
  have hrun : Decided t q d ∨ Waits t q d := by
    induction h with
    | nil => exact .inr hw
    | @snoc l t u a _ ha ih =>
      obtain ⟨hl, ha'⟩ := List.forall_mem_append.mp hlost
      have htu : t.now ≤ u.now := now_le ha
      rcases ih hl (htu.trans_lt htime) with hdec | hwait
      · exact .inl (hdec.step ha)
      · exact (hwait.step hd ha htime (ha' _ List.mem_cons_self)).symm
  refine hrun.imp id fun hwait => ⟨hwait, ?_⟩
  let I (u : State) : Prop := (Waits u q d ∨ Decided u q d) ∧ u.now = t.now
  have hstep (u : State) (hu : I u) (hnot : ¬ Decided u q d) :
      ∃ a v, a.own ∧ (machine p).step u a = some v ∧ I v ∧ v.roundsLeft < u.roundsLeft := by
    obtain ⟨hu, hnow⟩ := hu
    obtain ⟨a, v, hown, ha, hv, hvnow, hless⟩ :=
      (hu.resolve_right hnot).next (p := p) hd (hnow ▸ htime)
    exact ⟨a, v, hown, ha, ⟨hv, hvnow.trans hnow⟩, hless⟩
  obtain ⟨u, hpath, hu, hdec⟩ :=
    Machine.exists_path_of_rank State.roundsLeft hstep ⟨.inl hwait, rfl⟩
  exact ⟨u, hpath, hu.2, hdec⟩

theorem reply_decides_behind_stray :
    ∃ t : State, t.inbox = [shortReply] ∧
      (Decided t ⟨.v4 0x01010101#32 53#16, 7, 5⟩ shortReply ∨
        Waits t ⟨.v4 0x01010101#32 53#16, 7, 5⟩ shortReply ∧
          ∃ u, (machine twoServers).Path Action.own t u ∧ u.now = t.now ∧
            Decided u ⟨.v4 0x01010101#32 53#16, 7, 5⟩ shortReply) := by
  let q : Query := ⟨.v4 0x01010101#32 53#16, 7, 5⟩
  let s : State := ⟨3, [], [], 0, [stray, shortReply], [], .receiving q⟩
  have hstray : ∀ x ∈ [stray], ¬ q.EndedBy x :=
    List.forall_mem_singleton.mpr (not_or.mpr ⟨fun h => absurd h.1 (by decide), by decide⟩)
  have hw : Waits s q shortReply := ⟨.inr rfl, [stray], [], rfl, hstray⟩
  have hrun : (machine twoServers).Exec s [⟨s, .receive, _⟩] _ := .cons rfl .nil
  refine ⟨_, ?_, reply_decides hw (.inl ⟨rfl, rfl⟩) hrun ?_ ?_⟩
  · rfl
  · exact List.forall_mem_singleton.mpr nofun
  · decide

/-! ### Record sets -/

/-- What `tokio::time::timeout` makes of `lookup_host`. -/
inductive HostAnswer where
  | elapsed
  | io (t : Text)
  | found (addrs : List SocketAddr)

def ofFamily (qtype : QType) (a : SocketAddr) : Option IpAddr :=
  match a with
  | .v4 ip _ => if qtype = qtypeA then some (.v4 ip) else none
  | .v6 ip _ _ _ => if qtype = qtypeAaaa then some (.v6 ip) else none

def collect (qtype : QType) (addrs : List SocketAddr) : RecordSet :=
  addrs.foldl (fun records a =>
    match ofFamily qtype a with
    | some ip => appendNew records ip
    | none => records) []

/-- `resolve_system` and by how much it raises the failure counter. -/
def resolveSystem (key : Key) : HostAnswer → Except Error RecordSet × ℕ
  | .elapsed =>
    (.error (.other [.lit "DNS 解析超时（system, qtype=", .nat key.2.toNat, .lit "）：", .lit key.1]), 1)
  | .io t => (.error (.io t), 1)
  | .found addrs =>
    let records := collect key.2 addrs
    if records = [] then (.error (negErr key), 1) else (.ok records, 0)

inductive QueryRecord (key : Key) : Except Error RecordSet → Prop
  | system (a : HostAnswer) : QueryRecord key (resolveSystem key a).1
  | tunnel {p : Params} {now : Instant} {s : State} {r : Except Error RecordSet}
    (hkey : p.key = key)
      (h : (machine p).Reachable (.init p now) s) (hr : s.result p = some r) : QueryRecord key r

def OfFamily (qtype : QType) (ip : IpAddr) : Prop :=
  ip.isIpv4 = true ∧ qtype = qtypeA ∨ ip.isIpv4 = false ∧ qtype = qtypeAaaa

/-- Addresses of the family asked for, at least one, none twice. -/
structure WellFormed (qtype : QType) (records : RecordSet) : Prop where
  nonempty : records ≠ []
  nodup : records.Nodup
  family : ∀ ip ∈ records, OfFamily qtype ip

theorem collect_eq (qtype : QType) (addrs : List SocketAddr) :
    collect qtype addrs = firstOccurrences (addrs.filterMap (ofFamily qtype)) := by
  rw [collect, ← foldl_appendNew_nil, List.foldl_filterMap]
  congr 1
  funext records a
  cases ofFamily qtype a <;> rfl

theorem wellFormed_firstOccurrences {qtype : QType} {ips : List IpAddr} (hne : ips ≠ [])
    (hfamily : ∀ ip ∈ ips, OfFamily qtype ip) : WellFormed qtype (firstOccurrences ips) where
  nonempty := by
    obtain ⟨ip, hip⟩ := List.exists_mem_of_ne_nil ips hne
    exact List.ne_nil_of_mem (mem_firstOccurrences.mpr hip)
  nodup := firstOccurrences_nodup ips
  family ip hip := hfamily ip (mem_firstOccurrences.mp hip)

theorem ofFamily_of_address {qtype : QType} {r : Record} {ip : IpAddr}
    (h : r.address qtype = some ip) : OfFamily qtype ip := by
  unfold Record.address at h
  split_ifs at h with _ h4 h6
  · cases h
    exact .inl ⟨rfl, h4.1⟩
  · cases h
    exact .inr ⟨rfl, h6.1⟩

theorem ofFamily_of_addr {qtype : QType} {a : SocketAddr} {ip : IpAddr}
    (h : ofFamily qtype a = some ip) : OfFamily qtype ip := by
  cases a with
  | v4 bits port =>
    obtain ⟨hq, hip⟩ := Option.ite_none_right_eq_some.mp h
    cases hip
    exact .inl ⟨rfl, hq⟩
  | v6 bits port flowinfo scopeId =>
    obtain ⟨hq, hip⟩ := Option.ite_none_right_eq_some.mp h
    cases hip
    exact .inr ⟨rfl, hq⟩

theorem wellFormed_of_parse {qtype : QType} {records : RecordSet}
    (hfits : d.bytes.length ≤ isizeMax)
    (h : parseDnsAnswers d.bytes qtype q.id = .ok records) : WellFormed qtype records := by
  rcases parse_cases ⟨d.bytes, hfits⟩ qtype q.id with ⟨e, he⟩ | ⟨found, hreply⟩
  · rw [he] at h
    cases h
  · rw [hreply.parse hfits qtype] at h
    split_ifs at h with hne
    cases h
    apply wellFormed_firstOccurrences hne
    intro ip hip
    obtain ⟨r, _, hr⟩ := List.mem_filterMap.mp hip
    exact ofFamily_of_address hr

theorem QueryRecord.wellFormed {key : Key} {records : RecordSet} {r : Except Error RecordSet}
    (h : QueryRecord key r) (hr : r = .ok records) : WellFormed key.2 records := by
  cases h with
  | system a =>
    cases a with
    | elapsed => cases hr
    | io e => cases hr
    | found addrs =>
      rw [resolveSystem] at hr
      split at hr
      · cases hr
      · next hne =>
        cases hr
        rw [collect_eq] at hne ⊢
        apply wellFormed_firstOccurrences
        · intro hnil
          exact hne (by rw [hnil]; rfl)
        · intro ip hip
          obtain ⟨a, _, ha⟩ := List.mem_filterMap.mp hip
          exact ofFamily_of_addr ha
  | @tunnel p now s r hkey h hs =>
    subst hkey hr
    have hfollows := (lookup_sound h).follows
    unfold State.result at hs
    split at hs
    · next q d found hp =>
      cases hs
      rw [hp] at hfollows
      exact wellFormed_of_parse hfollows.2.1.isizeMax hfollows.2.2.1
    · cases hs
    · cases hs

/-! ### What callers are given -/

section
open Singleflight (Shared Result)

def heldBy : Singleflight.Proc → Option Result
  | .leader _ (.got r) | .leader _ (.cached r) | .leader _ (.published r) | .leader _ (.led r) =>
    some r
  | .waiter _ (.waited r) | .waiter _ (.answered r) => some r
  | _ => none

structure AllWellFormed (p : Singleflight.Params) (s : Singleflight.State) : Prop where
  held : ∀ x ∈ s.procs, ∀ records, heldBy x = some (.ok records) → WellFormed p.key.2 records
  carried : ∀ ch ∈ s.channels, ∀ records, ch.value = some (.ok records) → WellFormed p.key.2 records
  kept : ∀ key e, s.cache.lookup key = some e → ∀ records, e.records = some records →
    WellFormed key.2 records

variable {p : Singleflight.Params} {s t : Singleflight.State}

theorem AllWellFormed.move (hs : AllWellFormed p s) {i : ℕ} {x : Singleflight.Proc}
    (hx : ∀ records, heldBy x = some (.ok records) → WellFormed p.key.2 records) :
    ∀ y ∈ s.procs.set i x, ∀ records, heldBy y = some (.ok records) →
      WellFormed p.key.2 records := by
  intro y hy
  rcases List.mem_or_eq_of_mem_set hy with hy | rfl
  · exact hs.held y hy
  · exact hx

theorem wellFormed_of_store {cache : Cache} {now : Instant} {victim key : Key}
    {records : Option RecordSet}
    (hkept : ∀ k e, cache.lookup k = some e → ∀ rs, e.records = some rs → WellFormed k.2 rs)
    (hrecords : ∀ rs, records = some rs → WellFormed key.2 rs) :
    ∀ k e, (storeCache p.cfg cache now victim key records).lookup k = some e →
      ∀ rs, e.records = some rs → WellFormed k.2 rs := by
  intro k e he rs hrs
  rw [storeCache_eq] at he
  by_cases hk : k = key
  · subst hk
    rw [AList.lookup_insert] at he
    cases he
    exact hrecords rs hrs
  · rw [AList.lookup_insert_ne hk] at he
    exact hkept k e (lookup_of_makeRoom he) rs hrs

theorem AllWellFormed.step {a : Singleflight.Action} (hs : AllWellFormed p s)
    (hquery : ∀ i r, a = .backend i r → QueryRecord p.key r)
    (ha : (Singleflight.machine p).step s a = some t) : AllWellFormed p t := by
  have hold {i : ℕ} {x : Singleflight.Proc} (hi : s.procs[i]? = some x) (records : RecordSet)
      (hx : heldBy x = some (.ok records)) : WellFormed p.key.2 records :=
    hs.held x (List.mem_of_getElem? hi) records hx
  cases Singleflight.step_cases ha with
  | tick d => exact ⟨hs.held, hs.carried, hs.kept⟩
  | wait hc =>
    refine ⟨List.forall_mem_append.mpr ⟨hs.held, List.forall_mem_singleton.mpr ?_⟩, hs.carried,
      hs.kept⟩
    exact nofun
  | lead hc =>
    refine ⟨List.forall_mem_append.mpr ⟨hs.held, List.forall_mem_singleton.mpr ?_⟩,
      List.forall_mem_append.mpr ⟨hs.carried, List.forall_mem_singleton.mpr ?_⟩, hs.kept⟩
    · exact nofun
    · exact nofun
  | got hi =>
    refine ⟨hs.move fun records hx => ?_, hs.carried, hs.kept⟩
    exact (hquery _ _ rfl).wellFormed (Option.some.inj hx)
  | answered hi =>
    refine ⟨hs.move fun records hx => ?_, hs.carried, hs.kept⟩
    exact (hquery _ _ rfl).wellFormed (Option.some.inj hx)
  | @store i c r victim hi =>
    have hr : ∀ records, r = .ok records → WellFormed p.key.2 records := fun records h =>
      hold hi records (congrArg some h)
    refine ⟨hs.move fun records hx => hr records (Option.some.inj hx), hs.carried,
      wellFormed_of_store hs.kept fun rs hrs => ?_⟩
    cases r with
    | ok records => exact hr rs (congrArg Except.ok (Option.some.inj hrs))
    | error e => cases hrs
  | @publish i c r hi =>
    have hr : ∀ records, r = .ok records → WellFormed p.key.2 records := fun records h =>
      hold hi records (congrArg some h)
    refine ⟨hs.move fun records hx => hr records (Option.some.inj hx), ?_, hs.kept⟩
    apply forall_mem_modify c hs.carried
    intro ch _ records hv
    cases r with
    | ok found => exact hr records (congrArg Except.ok (Except.ok.inj (Option.some.inj hv)))
    | error e => cases hv
  | @remove i c r hi =>
    refine ⟨hs.move fun records hx => hold hi records hx, ?_, hs.kept⟩
    exact forall_mem_modify c hs.carried hs.carried
  | @woken i c ch v hi hc hv =>
    refine ⟨hs.move fun records hx => ?_, hs.carried, hs.kept⟩
    apply hs.carried ch (List.mem_of_getElem? hc) records
    cases v with
    | ok found =>
      exact hv.trans (congrArg some (congrArg Except.ok (Except.ok.inj (Option.some.inj hx))))
    | error e => cases hx
  | closed hi hc hv ha => exact ⟨hs.move nofun, hs.carried, hs.kept⟩
  | cancelLead hi => exact ⟨hs.move nofun, forall_mem_modify _ hs.carried hs.carried, hs.kept⟩
  | cancelWait hi => exact ⟨hs.move nofun, hs.carried, hs.kept⟩

/-- Callers share, and the cache keeps, only addresses of the family asked for, at least one and
none twice. -/
theorem record_sets_well_formed {cache : Cache} {now : Instant}
    {l : List (Taken Singleflight.State Singleflight.Action)}
    (hcache : ∀ key e, cache.lookup key = some e → ∀ rs, e.records = some rs → WellFormed key.2 rs)
    (h : (Singleflight.machine p).Exec (.init cache now) l s)
    (hquery : ∀ x ∈ l, ∀ i r, x.action = .backend i r → QueryRecord p.key r) :
    AllWellFormed p s := by
  have h0 : AllWellFormed p (.init cache now) := ⟨nofun, nofun, hcache⟩
  exact h.invariant h0 hquery fun x hx hq ha => hx.step hq ha

theorem record_sets_well_formed_shared :
    let p : Singleflight.Params := ⟨.default, ("a", qtypeA)⟩
    ∃ s : Singleflight.State, s.procs.map heldBy = [some (.ok [.v4 1#32]), some (.ok [.v4 1#32])] ∧
      AllWellFormed p s := by
  intro p
  let found : HostAnswer := .found [.v4 1#32 0#16, .v4 1#32 0#16]
  obtain ⟨l, hl, hactions⟩ := Machine.exec_of_run (M := Singleflight.machine p) (s := .init ∅ 0)
    [.call, .call, .backend 0 (resolveSystem p.key found).1, .store 0 p.key, .publish 0, .wake 1]
    rfl
  refine ⟨_, ?_, record_sets_well_formed ?_ hl ?_⟩
  · rfl
  · intro key e he
    rw [AList.lookup_empty] at he
    cases he
  · intro x hx i r hr
    have hmem : Singleflight.Action.backend i r ∈ l.map Taken.action :=
      hr ▸ List.mem_map_of_mem hx
    rw [hactions] at hmem
    simp only [List.mem_cons, List.not_mem_nil, or_false, Singleflight.Action.backend.injEq,
      reduceCtorEq, false_or] at hmem
    exact hmem.2 ▸ .system found

end

end WarpRust.Dns.Lookup
