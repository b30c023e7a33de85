import WarpRust.Library.Machine
import WarpRust.Library.Lists
import WarpRust.Proxy.UdpLimits

/-!
# Sending datagrams

`UdpHandle::send_to` over `NetStack::udp_send_to` and its flush of IP fragments. Any number of
sends run at once. Each waits for room in the transmit buffer of its socket up to a deadline of
its own, and whoever awaits it may drop it while it waits.
-/

namespace WarpRust.Netstack.UdpSend
open Library Proxy

def udpSendWaitTimeout : Duration := .fromMillis 200
def maxFragmentFlushRounds : ℕ := 32

/-- The errors of `wireguard_netstack::Error` that a send can end with. -/
inductive SendError where
  | udpSendBufferFull
  | udpSendTimeout (waited : Duration)
  | udpPacketTooLarge (family : String) (size max : ℕ)
  | udpSend (t : Text)
  | udpFragmentFlush (rounds : ℕ)
  deriving DecidableEq

/-! ### Fragments -/

structure Ipv4Packet where
  moreFrags : Bool
  fragOffset : ℕ

/-- One `Interface::poll` of the flush: the packets it put into the transmit queue, as
`new_checked` reads them, and what `poll_at` says after it. -/
structure Round where
  emitted : List (Option Ipv4Packet)
  pollAt : Option Instant

def lastFragment (packet : Option Ipv4Packet) : Bool :=
  packet.elim false fun p => !p.moreFrags && decide (0 < p.fragOffset)

/-- The loop of `flush_pending_fragments` with `n` rounds left; `queue` is the transmit queue
from `start` on. -/
def flushRounds (queue : List (Option Ipv4Packet)) (rounds : ℕ → Round) : ℕ → Except SendError Unit
  | 0 => .error (.udpFragmentFlush maxFragmentFlushRounds)
  | n + 1 =>
    if (queue ++ (rounds 0).emitted).any lastFragment then .ok ()
    else if (rounds 0).pollAt ≠ some 0 then .ok ()
    else flushRounds (queue ++ (rounds 0).emitted) (fun k => rounds (k + 1)) n

def flushPendingFragments (rounds : ℕ → Round) : Except SendError Unit :=
  flushRounds [] rounds maxFragmentFlushRounds

def Round.settles (r : Round) : Prop := (∃ p ∈ r.emitted, lastFragment p = true) ∨ r.pollAt ≠ some 0

theorem flushRounds_eq (queue : List (Option Ipv4Packet)) (rounds : ℕ → Round) (n : ℕ)
    (hq : queue.any lastFragment = false) :
    flushRounds queue rounds n = .ok () ∧ (∃ k < n, (rounds k).settles) ∨
      flushRounds queue rounds n = .error (.udpFragmentFlush maxFragmentFlushRounds) ∧
        ∀ k < n, ¬ (rounds k).settles := by
  induction n generalizing queue rounds with
  | zero => exact .inr ⟨rfl, fun k hk => absurd hk (Nat.not_lt_zero k)⟩
  | succ n ih =>
    have hany : (queue ++ (rounds 0).emitted).any lastFragment =
        (rounds 0).emitted.any lastFragment := by
      rw [List.any_append, hq, Bool.false_or]
    rw [flushRounds]
    by_cases hs : (rounds 0).settles
    · refine .inl ⟨?_, 0, Nat.succ_pos n, hs⟩
      rw [hany]
      by_cases he : (rounds 0).emitted.any lastFragment = true
      · rw [if_pos he]
      · have hat : (rounds 0).pollAt ≠ some 0 :=
          hs.resolve_left fun h => he (List.any_eq_true.mpr h)
        rw [if_neg he, if_pos hat]
    · obtain ⟨he, hat⟩ := not_or.mp hs
      have hnone : (queue ++ (rounds 0).emitted).any lastFragment = false := by
        rw [hany]
        exact Bool.eq_false_iff.mpr fun h => he (List.any_eq_true.mp h)
      rw [if_neg (by rw [hnone]; exact Bool.false_ne_true), if_neg hat]
      rcases ih _ (fun k => rounds (k + 1)) hnone with ⟨hr, k, hk, hsk⟩ | ⟨hr, hall⟩
      · exact .inl ⟨hr, k + 1, Nat.succ_lt_succ hk, hsk⟩
      · refine .inr ⟨hr, fun k hk => ?_⟩
        cases k with
        | zero => exact hs
        | succ k => exact hall k (Nat.lt_of_succ_lt_succ hk)

/-! ### One send -/

/-- What `send_slice` answers; after `Ok` come the rounds of the flush. -/
inductive SendSlice where
  | ok (rounds : ℕ → Round)
  | bufferFull
  | unaddressable

def needsFragmentation (mtu : ℕ) (payload : Bytes) (dest : SocketAddr) : Bool :=
  dest.isIpv4 && decide (mtu < payload.length + ipv4HeaderBytes + udpHeaderBytes)

def udpSendTo (mtu : ℕ) (payload : Bytes) (dest : SocketAddr) : SendSlice → Except SendError Unit
  | .ok rounds =>
    if needsFragmentation mtu payload dest then flushPendingFragments rounds else .ok ()
  | .bufferFull => .error .udpSendBufferFull
  | .unaddressable => .error (.udpSend [.lit "unaddressable destination ", .addr dest])

inductive DropReason where
  | packetTooLarge
  | fragmentFlush
  | sendError
  | bufferTimeout
  deriving DecidableEq

inductive Counter where
  | bufferFull
  | recovered
  | dropped (reason : DropReason)
  deriving DecidableEq

def dropReason : SendError → DropReason
  | .udpFragmentFlush _ => .fragmentFlush
  | _ => .sendError

inductive Phase where
  | trying
  -- the buffer was full, the clock is not read yet
  | full
  | waiting
  | returned (r : Except SendError Unit)
  | cancelled

structure Send where
  payload : Bytes
  dest : SocketAddr
  deadline : Instant
  wasFull : Bool
  phase : Phase

inductive Move where
  | attempt (answer : SendSlice)
  | checkClock
  | wake (notified : Bool)
  | cancel

/-- `queued` are the datagrams that `send_slice` has taken, by the position of their send. -/
structure State where
  now : Instant
  sends : List Send
  queued : List ℕ
  counters : Counter → ℕ

inductive Action where
  | tick (d : Duration)
  | sendTo (payload : Bytes) (dest : SocketAddr)
  | move (i : ℕ) (m : Move)

namespace State

def init (now : Instant) : State := ⟨now, [], [], fun _ => 0⟩

def increment (s : State) (c : Counter) : State :=
  { s with counters := Function.update s.counters c (s.counters c + 1) }

def put (s : State) (i : ℕ) (w : Send) : State := { s with sends := s.sends.set i w }

def start (mtu : ℕ) (s : State) (payload : Bytes) (dest : SocketAddr) : State :=
  let max := maxPayloadFor mtu dest
  if max < payload.length then
    let family := if dest.isIpv4 then "ipv4" else "ipv6"
    { s.increment (.dropped .packetTooLarge) with
      sends := s.sends ++ [⟨payload, dest, s.now, false,
        .returned (.error (.udpPacketTooLarge family payload.length max))⟩] }
  else
    { s with sends := s.sends ++ [⟨payload, dest, s.now + udpSendWaitTimeout, false, .trying⟩] }

def enqueue (s : State) (i : ℕ) : SendSlice → State
  | .ok _ => { s with queued := s.queued ++ [i] }
  | _ => s

def attempt (mtu : ℕ) (s : State) (i : ℕ) (w : Send) (answer : SendSlice) : State :=
  let r := udpSendTo mtu w.payload w.dest answer
  let s := s.enqueue i answer
  match r with
  | .ok () =>
    let s := if w.wasFull then s.increment .recovered else s
    s.put i { w with phase := .returned r }
  | .error .udpSendBufferFull =>
    let s := if w.wasFull then s else s.increment .bufferFull
    s.put i { w with wasFull := true, phase := .full }
  | .error e =>
    (s.increment (.dropped (dropReason e))).put i { w with phase := .returned r }

def checkClock (s : State) (i : ℕ) (w : Send) : State :=
  if w.deadline ≤ s.now then
    (s.increment (.dropped .bufferTimeout)).put i
      { w with phase := .returned (.error (.udpSendTimeout udpSendWaitTimeout)) }
  else s.put i { w with phase := .waiting }

def move (mtu : ℕ) (s : State) (i : ℕ) (w : Send) : Move → Option State
  | .attempt answer =>
    match w.phase with
    | .trying => some (s.attempt mtu i w answer)
    | _ => none
  | .checkClock =>
    match w.phase with
    | .full => some (s.checkClock i w)
    | _ => none
  | .wake notified =>
    match w.phase with
    | .waiting =>
      if notified ∨ w.deadline ≤ s.now then some (s.put i { w with phase := .trying }) else none
    | _ => none
  -- the only place where the future can be dropped is its await
  | .cancel =>
    match w.phase with
    | .waiting => some (s.put i { w with phase := .cancelled })
    | _ => none

def step (mtu : ℕ) (s : State) : Action → Option State
  | .tick d => some { s with now := s.now + d }
  | .sendTo payload dest => some (s.start mtu payload dest)
  | .move i m => s.sends[i]?.bind fun w => s.move mtu i w m

end State

def machine (mtu : ℕ) : Machine State Action := ⟨State.step mtu⟩

/-! ### What a send has come to -/

namespace SendError

def reason : SendError → DropReason
  | udpPacketTooLarge _ _ _ => .packetTooLarge
  | udpFragmentFlush _ => .fragmentFlush
  | udpSendTimeout _ => .bufferTimeout
  | udpSendBufferFull | udpSend _ => .sendError

end SendError

namespace Send

def accepted (w : Send) : Bool :=
  match w.phase with
  | .returned (.ok ()) | .returned (.error (.udpFragmentFlush _)) => true
  | _ => false

def succeeded (w : Send) : Bool :=
  match w.phase with
  | .returned (.ok ()) => true
  | _ => false

def lost (reason : DropReason) (w : Send) : Bool :=
  match w.phase with
  | .returned (.error e) => e.reason = reason
  | _ => false

def counts (c : Counter) (w : Send) : Bool :=
  match c with
  | .bufferFull => w.wasFull
  | .recovered => w.wasFull && w.succeeded
  | .dropped reason => w.lost reason

def rank (w : Send) : ℕ :=
  match w.phase with
  | .waiting => 3
  | .trying => 2
  | .full => 1
  | .returned _ | .cancelled => 0

structure Sound (mtu : ℕ) (now : Instant) (w : Send) : Prop where
  fits : w.payload.length ≤ maxPayloadFor mtu w.dest ∨ w.lost .packetTooLarge = true
  full : w.rank = 1 ∨ w.rank = 3 → w.wasFull = true
  timedOut : w.lost .bufferTimeout = true → w.wasFull = true ∧ w.deadline ≤ now

end Send

variable {mtu : ℕ} {s t : State} {i : ℕ} {w : Send} {m : Move}

theorem udpSendTo_eq (mtu : ℕ) (payload : Bytes) (dest : SocketAddr) (answer : SendSlice) :
    udpSendTo mtu payload dest answer = .ok () ∧ (∃ rounds, answer = .ok rounds) ∨
      udpSendTo mtu payload dest answer = .error (.udpFragmentFlush maxFragmentFlushRounds) ∧
        (∃ rounds, answer = .ok rounds ∧ ∀ k < maxFragmentFlushRounds, ¬ (rounds k).settles) ∨
      udpSendTo mtu payload dest answer = .error .udpSendBufferFull ∧ answer = .bufferFull ∨
      (∃ text, udpSendTo mtu payload dest answer = .error (.udpSend text)) ∧
        answer = .unaddressable := by
  cases answer with
  | bufferFull => exact .inr (.inr (.inl ⟨rfl, rfl⟩))
  | unaddressable => exact .inr (.inr (.inr ⟨⟨_, rfl⟩, rfl⟩))
  | ok rounds =>
    rw [udpSendTo]
    split
    · rcases flushRounds_eq [] rounds maxFragmentFlushRounds rfl with ⟨hr, _⟩ | ⟨hr, hall⟩
      · exact .inl ⟨hr, rounds, rfl⟩
      · exact .inr (.inl ⟨hr, rounds, rfl, hall⟩)
    · exact .inl ⟨rfl, rounds, rfl⟩

structure Moved (s : State) (i : ℕ) (w w' : Send) (t : State) : Prop where
  now : t.now = s.now
  sends : t.sends = s.sends.set i w'
  payload : w'.payload = w.payload
  dest : w'.dest = w.dest
  deadline : w'.deadline = w.deadline
  live : w.rank ≠ 0
  queued : t.queued = s.queued ++ if w'.accepted then [i] else []
  counters : ∀ c, t.counters c + (w.counts c).toNat = s.counters c + (w'.counts c).toNat
  sized : w'.lost .packetTooLarge = false
  wasFull : w.wasFull = true ∨ w'.rank = 1 → w'.wasFull = true
  waits : w'.rank = 3 → w.rank = 1
  timedOut : w'.lost .bufferTimeout = true → w.rank = 1 ∧ w.deadline ≤ s.now
  less : w.deadline ≤ s.now → w'.rank < w.rank

def Send.fail (w : Send) (e : SendError) : Send := { w with phase := .returned (.error e) }

theorem Send.not_accepted (h : w.rank ≠ 0) : w.accepted = false := by
  unfold Send.rank at h
  unfold Send.accepted
  cases hp : w.phase <;> simp [hp] at h ⊢

theorem Send.not_over (h : w.rank ≠ 0) : w.succeeded = false ∧ ∀ reason, w.lost reason = false := by
  unfold Send.rank at h
  unfold Send.succeeded Send.lost
  cases hp : w.phase <;> simp [hp] at h ⊢

theorem fail_moved {e : SendError} {queued : List ℕ} (hlive : w.rank ≠ 0)
    (hq : queued = s.queued ++ if (w.fail e).accepted then [i] else [])
    (hsized : e.reason ≠ .packetTooLarge)
    (htime : e.reason = .bufferTimeout → w.rank = 1 ∧ w.deadline ≤ s.now) :
    Moved s i w (w.fail e) { (s.increment (.dropped e.reason)).put i (w.fail e) with
      queued := queued } where
  now := rfl
  sends := rfl
  payload := rfl
  dest := rfl
  deadline := rfl
  live := hlive
  queued := hq
  counters := by
    intro c
    obtain ⟨hs, hl⟩ := Send.not_over hlive
    cases c with
    | bufferFull => simp [State.put, State.increment, Send.counts, Send.fail]
    | recovered =>
      have hf : (w.fail e).succeeded = false := rfl
      simp [State.put, State.increment, Send.counts, hs, hf]
    | dropped reason =>
      rw [Send.counts, Send.counts, hl]
      by_cases he : reason = e.reason
      · simp [State.put, State.increment, Send.fail, Send.lost, he]
      · simp [State.put, State.increment, Send.fail, Send.lost, he, Ne.symm he]
  sized := by simpa [Send.fail, Send.lost] using hsized
  wasFull := by simp [Send.fail, Send.rank]
  waits := by simp [Send.fail, Send.rank]
  timedOut := by simpa [Send.fail, Send.lost] using htime
  less _ := Nat.pos_of_ne_zero hlive

theorem attempt_moved (answer : SendSlice) (hp : w.phase = .trying) :
    ∃ w', Moved s i w w' (s.attempt mtu i w answer) := by
  have hrank : w.rank = 2 := by rw [Send.rank, hp]
  have hlive : w.rank ≠ 0 := by rw [hrank]; decide
  have htry : w.rank = 1 → False := by rw [hrank]; decide
  rcases udpSendTo_eq mtu w.payload w.dest answer with
    ⟨hr, rounds, rfl⟩ | ⟨hr, rounds, rfl, -⟩ | ⟨hr, rfl⟩ | ⟨⟨text, hr⟩, rfl⟩
  · refine ⟨{ w with phase := .returned (.ok ()) }, ?_⟩
    obtain ⟨hs, hl⟩ := Send.not_over hlive
    simp only [State.attempt, hr]
    cases hf : w.wasFull with
    | false =>
      constructor
      case counters =>
        intro c
        cases c <;> simp [State.put, State.enqueue, Send.counts, Send.succeeded, Send.lost, hp, hf]
      all_goals simp [State.put, State.enqueue, Send.accepted, Send.lost, Send.rank, hp, hf]
    | true =>
      constructor
      case counters =>
        intro c
        cases c <;> simp [State.put, State.enqueue, State.increment, Send.counts, Send.succeeded,
          Send.lost, hp, hf]
      all_goals simp [State.put, State.enqueue, State.increment, Send.accepted, Send.lost,
        Send.rank, hp, hf]
  · refine ⟨w.fail (.udpFragmentFlush maxFragmentFlushRounds), ?_⟩
    simp only [State.attempt, hr]
    exact fail_moved hlive rfl nofun nofun
  · refine ⟨{ w with wasFull := true, phase := .full }, ?_⟩
    simp only [State.attempt, hr]
    cases hf : w.wasFull with
    | false =>
      constructor
      case counters =>
        intro c
        cases c <;> simp [State.put, State.enqueue, State.increment, Send.counts, Send.succeeded,
          Send.lost, hp, hf]
      all_goals simp [State.put, State.enqueue, State.increment, Send.accepted, Send.lost,
        Send.rank, hp]
    | true =>
      constructor
      case counters =>
        intro c
        cases c <;> simp [State.put, State.enqueue, Send.counts, Send.succeeded, Send.lost, hp, hf]
      all_goals simp [State.put, State.enqueue, Send.accepted, Send.lost, Send.rank, hp]
  · refine ⟨w.fail (.udpSend text), ?_⟩
    simp only [State.attempt, hr]
    exact fail_moved hlive (List.append_nil _).symm nofun nofun

theorem phase_moved {p : Phase} (hlive : w.rank ≠ 0)
    (hp : p = .trying ∨ p = .waiting ∨ p = .cancelled)
    (hwaits : p = .waiting → w.rank = 1)
    (hless : w.deadline ≤ s.now → ({ w with phase := p } : Send).rank < w.rank) :
    Moved s i w { w with phase := p } (s.put i { w with phase := p }) := by
  obtain ⟨hs, hl⟩ := Send.not_over hlive
  have hs' : ({ w with phase := p } : Send).succeeded = false := by
    rcases hp with rfl | rfl | rfl <;> rfl
  have hl' : ∀ reason, ({ w with phase := p } : Send).lost reason = false := by
    rcases hp with rfl | rfl | rfl <;> exact fun _ => rfl
  constructor
  case counters =>
    intro c
    cases c <;> simp [State.put, Send.counts, hs, hl, hs', hl']
  case less => exact hless
  case live => exact hlive
  case sized => exact hl' _
  case timedOut => exact fun h => absurd ((hl' _).symm.trans h) Bool.false_ne_true
  case queued => rcases hp with rfl | rfl | rfl <;> exact (List.append_nil _).symm
  case wasFull => rcases hp with rfl | rfl | rfl <;> simp [Send.rank]
  case waits =>
    rcases hp with rfl | rfl | rfl
    · exact nofun
    · exact fun _ => hwaits rfl
    · exact nofun
  all_goals rfl

theorem move_moved (h : s.move mtu i w m = some t) : ∃ w', Moved s i w w' t := by
  cases m with
  | attempt answer =>
    cases hp : w.phase <;> simp only [State.move, hp] at h <;> cases h
    exact attempt_moved answer hp
  | checkClock =>
    cases hp : w.phase <;> simp only [State.move, hp] at h <;> cases h
    have hrank : w.rank = 1 := by rw [Send.rank, hp]
    have hlive : w.rank ≠ 0 := by rw [hrank]; exact one_ne_zero
    rw [State.checkClock]
    split
    · next hd =>
      exact ⟨_, fail_moved (e := .udpSendTimeout udpSendWaitTimeout) hlive
        (List.append_nil _).symm nofun fun _ => ⟨hrank, hd⟩⟩
    · next hd =>
        exact ⟨_, phase_moved hlive (.inr (.inl rfl)) (fun _ => hrank) fun h => absurd h hd⟩
  | wake notified =>
    cases hp : w.phase <;> simp only [State.move, hp] at h <;> try cases h
    obtain ⟨_, rfl⟩ := of_guarded h
    have hrank : w.rank = 3 := by rw [Send.rank, hp]
    refine ⟨_, phase_moved (by rw [hrank]; decide) (.inl rfl) nofun fun _ => ?_⟩
    rw [hrank]
    exact Nat.lt_succ_self 2
  | cancel =>
    cases hp : w.phase <;> simp only [State.move, hp] at h <;> cases h
    have hrank : w.rank = 3 := by rw [Send.rank, hp]
    refine ⟨_, phase_moved (by rw [hrank]; decide) (.inr (.inr rfl)) nofun fun _ => ?_⟩
    rw [hrank]
    exact Nat.succ_pos 2

/-! ### Runs -/

structure Accounted (mtu : ℕ) (s : State) : Prop where
  sound : ∀ w ∈ s.sends, w.Sound mtu s.now
  counters : ∀ c, s.counters c = s.sends.countP (Send.counts c)
  nodup : s.queued.Nodup
  queued : ∀ i, i ∈ s.queued ↔ ∃ w, s.sends[i]? = some w ∧ w.accepted = true

theorem Accounted.init (now : Instant) : Accounted mtu (.init now) where
  sound _ hw := by cases hw
  counters _ := rfl
  nodup := List.nodup_nil
  queued i := by simp [State.init]

namespace Send

theorem Sound.later {now now' : Instant} (h : w.Sound mtu now) (hle : now ≤ now') :
    w.Sound mtu now' where
  fits := h.fits
  full := h.full
  timedOut hl := ⟨(h.timedOut hl).1, (h.timedOut hl).2.trans hle⟩

end Send

theorem Moved.sound {w' : Send} (h : Moved s i w w' t) (hw : w.Sound mtu s.now) :
    w'.Sound mtu t.now := by
  have hfits := hw.fits.resolve_right fun hl =>
    absurd (((Send.not_over h.live).2 _).symm.trans hl) Bool.false_ne_true
  constructor
  · rw [h.payload, h.dest]
    exact .inl hfits
  · intro hr
    rcases hr with hr | hr
    · exact h.wasFull (.inr hr)
    · exact h.wasFull (.inl (hw.full (.inl (h.waits hr))))
  · intro hl
    obtain ⟨hr, hd⟩ := h.timedOut hl
    rw [h.deadline, h.now]
    exact ⟨h.wasFull (.inl (hw.full (.inl hr))), hd⟩

theorem Moved.accounted {w' : Send} (hm : Moved s i w w' t) (hs : Accounted mtu s)
    (hi : s.sends[i]? = some w) : Accounted mtu t := by
  have hfresh : i ∉ s.queued := by
    intro hmem
    obtain ⟨v, hv, hacc⟩ := (hs.queued i).mp hmem
    obtain rfl := Option.some.inj (hi.symm.trans hv)
    exact absurd ((Send.not_accepted hm.live).symm.trans hacc) Bool.false_ne_true
  constructor
  · intro v hv
    rw [hm.sends] at hv
    rcases List.mem_or_eq_of_mem_set hv with hv | rfl
    · exact hm.now ▸ hs.sound v hv
    · exact hm.sound (hs.sound w (List.mem_of_getElem? hi))
  · intro c
    have hcount := countP_set (y := w') (Send.counts c) hi
    have hc := hm.counters c
    rw [hs.counters c] at hc
    rw [hm.sends]
    omega
  · rw [hm.queued]
    split
    · apply List.nodup_append.mpr ⟨hs.nodup, List.nodup_singleton i, ?_⟩
      intro a ha b hb
      rw [List.mem_singleton.mp hb]
      exact fun he => hfresh (he ▸ ha)
    · rw [List.append_nil]
      exact hs.nodup
  · intro j
    rw [hm.queued, hm.sends, getElem?_set_of_some hi, List.mem_append, hs.queued j]
    by_cases hij : i = j
    · subst hij
      rw [if_pos rfl]
      have hno : ¬ ∃ v, s.sends[i]? = some v ∧ v.accepted = true :=
        fun h => hfresh ((hs.queued i).mpr h)
      cases hacc : w'.accepted <;> simp [hacc, hno]
    · rw [if_neg hij]
      cases w'.accepted <;> simp [Ne.symm hij]

theorem start_accounted {payload : Bytes} {dest : SocketAddr} (hs : Accounted mtu s) :
    Accounted mtu (s.start mtu payload dest) := by
  have hadd {v : Send} (hacc : v.accepted = false) (i : ℕ) :
      (∃ w, (s.sends ++ [v])[i]? = some w ∧ w.accepted = true) ↔
        ∃ w, s.sends[i]? = some w ∧ w.accepted = true := by
    rw [getElem?_append_singleton]
    split
    · next hi => simp [hi, hacc]
    · rfl
  rw [State.start]
  split
  · constructor
    · intro v hv
      rcases List.mem_append.mp hv with hv | hv
      · exact hs.sound v hv
      · rw [List.mem_singleton.mp hv]
        exact ⟨.inr rfl, by simp [Send.rank], by simp [Send.lost, SendError.reason]⟩
    · intro c
      rw [List.countP_append, ← hs.counters c]
      cases c with
      | dropped reason => cases reason <;> rfl
      | _ => rfl
    · exact hs.nodup
    · intro i
      rw [hadd rfl i]
      exact hs.queued i
  · next hmax =>
    constructor
    · intro v hv
      rcases List.mem_append.mp hv with hv | hv
      · exact hs.sound v hv
      · rw [List.mem_singleton.mp hv]
        exact ⟨.inl (not_lt.mp hmax), by simp [Send.rank], by simp [Send.lost]⟩
    · intro c
      rw [List.countP_append, ← hs.counters c]
      cases c <;> rfl
    · exact hs.nodup
    · intro i
      rw [hadd rfl i]
      exact hs.queued i

theorem Accounted.step {a : Action} (hs : Accounted mtu s) (ha : (machine mtu).step s a = some t) :
    Accounted mtu t := by
  cases a with
  | tick d =>
    cases ha
    exact ⟨fun w hw => (hs.sound w hw).later (Nat.le_add_right s.now d), hs.counters, hs.nodup,
      hs.queued⟩
  | sendTo payload dest =>
    cases ha
    exact start_accounted hs
  | move i m =>
    obtain ⟨w, hi, hm⟩ := Option.bind_eq_some_iff.mp ha
    obtain ⟨w', hmoved⟩ := move_moved hm
    exact hmoved.accounted hs hi

theorem accounted_of_reachable {now : Instant} (h : (machine mtu).Reachable (.init now) s) :
    Accounted mtu s :=
  h.invariant (.init now) fun _ _ _ hs ha => hs.step ha

/-- The counters count datagrams, however often each was tried, so that `recovered / buffer_full`
is a rate. -/
theorem counted_per_datagram {now : Instant} (h : (machine mtu).Reachable (.init now) s) :
    (∀ c, s.counters c = s.sends.countP (Send.counts c)) ∧
      s.counters .recovered + s.counters (.dropped .bufferTimeout) ≤ s.counters .bufferFull ∧
        ∀ w ∈ s.sends, w.lost .bufferTimeout = true → w.wasFull = true ∧ w.deadline ≤ s.now := by
  have hs := accounted_of_reachable h
  refine ⟨hs.counters, ?_, fun w hw => (hs.sound w hw).timedOut⟩
  rw [hs.counters, hs.counters, hs.counters]
  apply countP_add_countP_le
  · intro w hw hr
    obtain ⟨hfull, hok⟩ := Bool.and_eq_true_iff.mp hr
    refine ⟨hfull, ?_⟩
    unfold Send.succeeded at hok
    rw [Send.counts, Send.lost]
    cases hp : w.phase with
    | returned r => cases r <;> simp [hp] at hok ⊢
    | _ => rfl
  · exact fun w hw hl => ((hs.sound w hw).timedOut hl).1

def recovering (dest : SocketAddr) : List Action :=
  [.sendTo [1] dest, .move 0 (.attempt .bufferFull), .move 0 .checkClock, .move 0 (.wake true),
    .move 0 (.attempt (.ok fun _ => ⟨[], none⟩))]

theorem counted_per_datagram_recovering :
    ∃ s : State, s.counters .recovered = 1 ∧ (∀ c, s.counters c = s.sends.countP (Send.counts c)) ∧
      s.counters .recovered + s.counters (.dropped .bufferTimeout) ≤ s.counters .bufferFull ∧
        ∀ w ∈ s.sends, w.lost .bufferTimeout = true → w.wasFull = true ∧ w.deadline ≤ s.now := by
  have hrun : (machine 1280).Reachable (.init 0) _ :=
    Machine.reachable_of_run (recovering (.v4 1#32 53#16)) rfl
  exact ⟨_, rfl, counted_per_datagram hrun⟩

/-- smoltcp has taken a datagram once if its send ended with `Ok` or while its fragments were
flushed, and never otherwise; and only one that fits. -/
theorem datagram_queued_once {now : Instant} (h : (machine mtu).Reachable (.init now) s) :
    s.queued.Nodup ∧ (∀ i ∈ s.queued, i < s.sends.length) ∧
      ∀ i w, s.sends[i]? = some w →
        (i ∈ s.queued ↔ w.accepted = true) ∧
          (i ∈ s.queued → w.payload.length ≤ maxPayloadFor mtu w.dest) := by
  have hs := accounted_of_reachable h
  have hiff (i : ℕ) (w : Send) (hi : s.sends[i]? = some w) : i ∈ s.queued ↔ w.accepted = true := by
    rw [hs.queued i, hi]
    simp
  refine ⟨hs.nodup, fun i hmem => ?_, fun i w hi => ⟨hiff i w hi, fun hmem => ?_⟩⟩
  · obtain ⟨w, hi, _⟩ := (hs.queued i).mp hmem
    exact (List.getElem?_eq_some_iff.mp hi).1
  · apply ((hs.sound w (List.mem_of_getElem? hi)).fits).resolve_right
    have hacc := (hiff i w hi).mp hmem
    unfold Send.accepted at hacc
    unfold Send.lost
    split at hacc
    · next hp => simp [hp]
    · next hp => simp [hp, SendError.reason]
    · cases hacc

theorem datagram_queued_once_recovering :
    ∃ s : State, s.queued = [0] ∧ s.queued.Nodup ∧ (∀ i ∈ s.queued, i < s.sends.length) ∧
      ∀ i w, s.sends[i]? = some w →
        (i ∈ s.queued ↔ w.accepted = true) ∧
          (i ∈ s.queued → w.payload.length ≤ maxPayloadFor 1280 w.dest) := by
  have hrun : (machine 1280).Reachable (.init 0) _ :=
    Machine.reachable_of_run (recovering (.v4 1#32 53#16)) rfl
  exact ⟨_, rfl, datagram_queued_once hrun⟩

/-! ### The deadline -/

def Send.over (w : Send) : Prop := w.rank = 0

def movesOf (i : ℕ) (x : Taken State Action) : Bool :=
  match x.action with
  | .move j _ => i = j
  | _ => false

def Send.nextMove (w : Send) (answer : SendSlice) : Move :=
  match w.phase with
  | .waiting => .wake false
  | .full => .checkClock
  | _ => .attempt answer

theorem exists_next (mtu : ℕ) (answer : SendSlice) (hover : ¬ w.over) (hd : w.deadline ≤ s.now) :
    ∃ t, s.move mtu i w (w.nextMove answer) = some t := by
  unfold Send.over Send.rank at hover
  unfold Send.nextMove
  cases hp : w.phase with
  | trying => simp [State.move, hp]
  | full => simp [State.move, hp]
  | waiting => simp [State.move, hp, hd]
  | returned r => simp [hp] at hover
  | cancelled => simp [hp] at hover

theorem Send.rank_le (w : Send) : w.rank ≤ 3 := by
  unfold Send.rank
  split <;> decide

theorem start_eq (mtu : ℕ) (payload : Bytes) (dest : SocketAddr) :
    (s.start mtu payload dest).now = s.now ∧
      ∃ v, (s.start mtu payload dest).sends = s.sends ++ [v] := by
  rw [State.start]
  split <;> exact ⟨rfl, _, rfl⟩

/-- After its deadline a send moves at most three times more, and it can always move. -/
theorem over_soon_after_deadline {l : List (Taken State Action)} (hi : s.sends[i]? = some w)
    (hd : w.deadline ≤ s.now) (h : (machine mtu).Exec s l t) :
    l.countP (movesOf i) ≤ 3 ∧ ∃ v, t.sends[i]? = some v ∧ (v.over ∨
      ∀ answer, ∃ u, (machine mtu).step t (.move i (v.nextMove answer)) = some u) := by
  have hrun : ∃ v, t.sends[i]? = some v ∧ v.deadline ≤ t.now ∧
      l.countP (movesOf i) + v.rank ≤ w.rank := by
    induction h with
    | nil => exact ⟨w, hi, hd, (Nat.zero_add _).le⟩
    | @snoc l t u a _ ha ih =>
      obtain ⟨v, hv, hdv, hle⟩ := ih
      rw [List.countP_append, List.countP_singleton]
      cases a with
      | tick d =>
        cases ha
        exact ⟨v, hv, hdv.trans (Nat.le_add_right t.now d), hle⟩
      | sendTo payload dest =>
        cases ha
        obtain ⟨hnow, x, hx⟩ := start_eq (s := t) mtu payload dest
        refine ⟨v, ?_, hnow ▸ hdv, hle⟩
        rw [hx, List.getElem?_append_left (List.getElem?_eq_some_iff.mp hv).1]
        exact hv
      | move j m =>
        obtain ⟨x, hj, hm⟩ := Option.bind_eq_some_iff.mp ha
        obtain ⟨x', hmoved⟩ := move_moved hm
        rw [hmoved.sends, hmoved.now, getElem?_set_of_some hj]
        by_cases hij : j = i
        · subst hij
          obtain rfl := Option.some.inj (hv.symm.trans hj)
          have hless := hmoved.less hdv
          refine ⟨x', if_pos rfl, hmoved.deadline ▸ hdv, ?_⟩
          simp only [movesOf, decide_true, if_true]
          omega
        · refine ⟨v, (if_neg hij).trans hv, hdv, ?_⟩
          simpa [movesOf, Ne.symm hij] using hle
  obtain ⟨v, hv, hdv, hle⟩ := hrun
  have hrank := w.rank_le
  refine ⟨by omega, v, hv, or_iff_not_imp_left.mpr fun hover answer => ?_⟩
  obtain ⟨u, hu⟩ := exists_next (i := i) mtu answer hover hdv
  exact ⟨u, Option.bind_eq_some_iff.mpr ⟨v, hv, hu⟩⟩

theorem over_soon_after_deadline_waiting :
    ∃ (t : State) (l : List (Taken State Action)), t.sends.map Send.rank = [0] ∧
      l.countP (movesOf 0) ≤ 3 ∧ ∃ v, t.sends[0]? = some v ∧
        (v.over ∨ ∀ answer, ∃ u, (machine 1280).step t (.move 0 (v.nextMove answer)) = some u) := by
  let w : Send := ⟨[1], .v4 1#32 53#16, 5, true, .waiting⟩
  have hrun : (machine 1280).Exec ⟨7, [w], [], fun _ => 0⟩
      [⟨_, .move 0 (.wake false), _⟩, ⟨_, .move 0 (.attempt .bufferFull), _⟩,
        ⟨_, .move 0 .checkClock, _⟩] _ := .cons rfl (.cons rfl (.cons rfl .nil))
  exact ⟨_, _, rfl, over_soon_after_deadline rfl (show w.deadline ≤ 7 by decide) hrun⟩

end WarpRust.Netstack.UdpSend
