import WarpRust.Basic
import WarpRust.Library.Lists
import WarpRust.Library.Machine

/-!
# Bounded Happy Eyeballs

`staggered_dial` as a machine. The dial tasks, the launch timer and the deadline are its
environment; `select!` is biased, so a finished task is joined before a timer is looked at.
`starts`, `joined` and `reaped` are history.
-/

namespace WarpRust.Proxy.StaggeredDial
open Library

variable {C : Type}

structure Params where
  candidates : List SocketAddr
  delay : Duration
  totalTimeout : Duration
  maxParallel : ℕ

/-- How a dial task ends; the texts are those of the `JoinError`. -/
inductive Outcome (C : Type) where
  | done (r : Except Error C)
  | panicked (t : Text)
  | cancelled (t : Text)

def Outcome.connection : Outcome C → Option C
  | .done (.ok c) => some c
  | _ => none

structure Ended (C : Type) where
  addr : SocketAddr
  outcome : Outcome C
  time : Instant

structure JoinSet (C : Type) where
  running : List SocketAddr
  finished : List (Ended C)

namespace JoinSet

def empty : JoinSet C := ⟨[], []⟩
def len (j : JoinSet C) : ℕ := j.running.length + j.finished.length
def isEmpty (j : JoinSet C) : Bool := j.len == 0
def spawn (j : JoinSet C) (addr : SocketAddr) : JoinSet C :=
  { j with running := j.running ++ [addr] }
def complete (j : JoinSet C) (i : ℕ) (x : Ended C) : JoinSet C :=
  { running := j.running.eraseIdx i, finished := j.finished ++ [x] }
def take (j : JoinSet C) (i : ℕ) : JoinSet C :=
  { j with finished := j.finished.eraseIdx i }

end JoinSet

abbrev Answer (C : Type) := Except Error (SocketAddr × C)

inductive Phase (C : Type) where
  | selecting
  | shuttingDown (r : Answer C)
  | returned (r : Answer C)

structure State (C : Type) where
  now : Instant
  pending : List SocketAddr
  attempts : JoinSet C
  attempted : ℕ
  lastError : Option Error
  deadline : Instant
  launch : Instant
  phase : Phase C
  starts : List (SocketAddr × Instant)
  joined : List (Ended C)
  reaped : List (Ended C)

def noCandidatesError : Error := .other [.lit "no usable upstream candidates"]

def timedOutError (totalTimeout : Duration) (attempted : ℕ) : Error :=
  .other [.lit "upstream dial timed out after ", .duration totalTimeout, .lit " (",
    .nat attempted, .lit " candidates started)"]

def allFailedError (attempted : ℕ) (lastError : Option Error) : Error :=
  let detail := (lastError.map Error.text).getD [.lit "no dial result"]
  .other ([.lit "all ", .nat attempted, .lit " upstream candidates failed; last error: "] ++ detail)

namespace State

def start (s : State C) (addr : SocketAddr) : State C :=
  { s with attempts := s.attempts.spawn addr, starts := s.starts ++ [(addr, s.now)] }

def startNext (p : Params) (s : State C) (addr : SocketAddr) (rest : List SocketAddr) : State C :=
  { s.start addr with
    pending := rest, attempted := s.attempted + 1, launch := s.now + p.delay }

def init (p : Params) (now : Instant) : State C :=
  let s : State C :=
    { now, pending := p.candidates, attempts := .empty, attempted := 0, lastError := none,
      deadline := now + p.totalTimeout, launch := now + p.delay, phase := .selecting,
      starts := [], joined := [], reaped := [] }
  match p.candidates with
  | [] => { s with phase := .returned (.error noCandidatesError) }
  | first :: rest => { s.start first with pending := rest, attempted := 1 }

def refill (p : Params) (s : State C) : State C :=
  if s.attempts.isEmpty then
    match s.pending with
    | addr :: rest => s.startNext p addr rest
    | [] => { s with phase := .returned (.error (allFailedError s.attempted s.lastError)) }
  else s

/-- The `join_next` branch, the task already taken out of the set. -/
def joinNext (p : Params) (s : State C) (x : Ended C) : State C :=
  match x.outcome with
  | .done (.ok c) => { s with phase := .shuttingDown (.ok (x.addr, c)) }
  | .done (.error e) => refill p { s with lastError := some e }
  | .panicked t | .cancelled t =>
      refill p { s with lastError := some (.other (.lit "dial task failed: " :: t)) }

def answer (s : State C) : Option (Answer C) :=
  match s.phase with
  | .selecting => none
  | .shuttingDown r | .returned r => some r

end State

inductive Action (C : Type) where
  | tick (d : Duration)
  | finish (i : ℕ) (o : Outcome C)
  | join (i : ℕ)
  | launch
  | deadline
  | reap (i : ℕ)
  | ret

def mayEnd (phase : Phase C) (o : Outcome C) : Bool :=
  match phase, o with
  | .selecting, .cancelled _ => false
  | _, _ => true

def step (p : Params) (s : State C) : Action C → Option (State C)
  | .tick d => some { s with now := s.now + d }
  | .finish i o =>
    match s.attempts.running[i]? with
    | some addr =>
      if mayEnd s.phase o then
        some { s with attempts := s.attempts.complete i ⟨addr, o, s.now⟩ }
      else none
    | none => none
  | .join i =>
    match s.phase, s.attempts.finished[i]? with
    | .selecting, some x =>
      some (State.joinNext p
        { s with attempts := s.attempts.take i, joined := s.joined ++ [x] } x)
    | _, _ => none
  | .launch =>
    match s.phase, s.attempts.finished, s.pending with
    | .selecting, [], addr :: rest =>
      if s.attempts.len < max p.maxParallel 1 ∧ s.launch ≤ s.now then
        some (s.startNext p addr rest)
      else none
    | _, _, _ => none
  | .deadline =>
    match s.phase, s.attempts.finished with
    | .selecting, [] =>
      if s.deadline ≤ s.now then
        some { s with phase := .shuttingDown (.error (timedOutError p.totalTimeout s.attempted)) }
      else none
    | _, _ => none
  | .reap i =>
    match s.phase, s.attempts.finished[i]? with
    | .shuttingDown _, some x =>
      some { s with attempts := s.attempts.take i, reaped := s.reaped ++ [x] }
    | _, _ => none
  | .ret =>
    match s.phase with
    | .shuttingDown r =>
      if s.attempts.isEmpty then some { s with phase := .returned r } else none
    | _ => none

def machine (C : Type) (p : Params) : Machine (State C) (Action C) := ⟨step p⟩

inductive Step (p : Params) (s : State C) : Action C → State C → Prop
  | tick (d : Duration) : Step p s (.tick d) { s with now := s.now + d }
  | finish {i : ℕ} {addr : SocketAddr} {o : Outcome C} :
      s.attempts.running[i]? = some addr → mayEnd s.phase o = true →
      Step p s (.finish i o) { s with attempts := s.attempts.complete i ⟨addr, o, s.now⟩ }
  | join {i : ℕ} {x : Ended C} :
      s.phase = .selecting → s.attempts.finished[i]? = some x →
      Step p s (.join i) (State.joinNext p
        { s with attempts := s.attempts.take i, joined := s.joined ++ [x] } x)
  | launch {addr : SocketAddr} {rest : List SocketAddr} :
      s.phase = .selecting → s.attempts.finished = [] → s.pending = addr :: rest →
      s.attempts.len < max p.maxParallel 1 → s.launch ≤ s.now →
      Step p s .launch (s.startNext p addr rest)
  | deadline :
      s.phase = .selecting → s.attempts.finished = [] → s.deadline ≤ s.now →
      Step p s .deadline
        { s with phase := .shuttingDown (.error (timedOutError p.totalTimeout s.attempted)) }
  | reap {r : Answer C} {i : ℕ} {x : Ended C} :
      s.phase = .shuttingDown r → s.attempts.finished[i]? = some x →
      Step p s (.reap i) { s with attempts := s.attempts.take i, reaped := s.reaped ++ [x] }
  | ret {r : Answer C} :
      s.phase = .shuttingDown r → s.attempts.isEmpty = true →
      Step p s .ret { s with phase := .returned r }

theorem step_cases {p : Params} {s s' : State C} {a : Action C} (ha : step p s a = some s') :
    Step p s a s' := by
  cases a with
  | tick d =>
    obtain rfl := Option.some.inj ha
    exact .tick d
  | finish i o =>
    simp only [step] at ha
    split at ha
    · next addr hi =>
      obtain ⟨ho, rfl⟩ := of_guarded ha
      exact .finish hi ho
    · cases ha
  | join i =>
    simp only [step] at ha
    split at ha
    · next x hs hi =>
      obtain rfl := Option.some.inj ha
      exact .join hs hi
    · cases ha
  | launch =>
    simp only [step] at ha
    split at ha
    · next addr rest hs hfin hpend =>
      obtain ⟨⟨hlen, hlaunch⟩, rfl⟩ := of_guarded ha
      exact .launch hs hfin hpend hlen hlaunch
    · cases ha
  | deadline =>
    simp only [step] at ha
    split at ha
    · next hs hfin =>
      obtain ⟨hd, rfl⟩ := of_guarded ha
      exact .deadline hs hfin hd
    · cases ha
  | reap i =>
    simp only [step] at ha
    split at ha
    · next r x hs hi =>
      obtain rfl := Option.some.inj ha
      exact .reap hs hi
    · cases ha
  | ret =>
    simp only [step] at ha
    split at ha
    · next r hs =>
      obtain ⟨hemp, rfl⟩ := of_guarded ha
      exact .ret hs hemp
    · cases ha

def connections (l : List (Ended C)) : List C := l.filterMap fun x => x.outcome.connection

def State.ended (s : State C) : List (Ended C) := s.joined ++ s.reaped ++ s.attempts.finished

/-- What every phase keeps: the order of the starts, and where each started task now is. -/
structure Books (p : Params) (t₀ : Instant) (s : State C) : Prop where
  order : s.starts.map Prod.fst ++ s.pending = p.candidates
  attempted : s.attempted = s.starts.length
  bounded : s.attempts.len ≤ max p.maxParallel 1
  placed : (s.ended.map Ended.addr ++ s.attempts.running).Perm (s.starts.map Prod.fst)
  deadline : s.deadline = t₀ + p.totalTimeout
  past : ∀ x ∈ s.starts, x.2 ≤ s.now
  spaced : ∀ x ∈ s.starts, x.2 + p.delay ≤ s.launch

inductive Settled (p : Params) (s : State C) : Answer C → Prop
  | connected {addr : SocketAddr} {c : C} {t : Instant} :
      ⟨addr, .done (.ok c), t⟩ ∈ s.joined → connections s.joined = [c] →
      Settled p s (.ok (addr, c))
  | timedOut :
      connections s.joined = [] → s.deadline ≤ s.now → s.attempts.len + s.reaped.length ≠ 0 →
      (∀ x ∈ s.reaped ++ s.attempts.finished, s.deadline ≤ x.time) →
      Settled p s (.error (timedOutError p.totalTimeout s.attempted))
  | allFailed :
      connections s.joined = [] → s.pending = [] → s.attempts.len + s.reaped.length = 0 →
      Settled p s (.error (allFailedError s.attempted s.lastError))

def PhaseInv (p : Params) (s : State C) : Prop :=
  match s.phase with
  | .selecting => s.attempts.len ≠ 0 ∧ s.reaped = [] ∧ connections s.joined = []
  | .shuttingDown r => Settled p s r
  | .returned r => Settled p s r ∧ s.attempts.len = 0

structure Inv (p : Params) (t₀ : Instant) (s : State C) : Prop where
  books : Books p t₀ s
  phase : PhaseInv p s

variable {p : Params} {t₀ : Instant} {s s' : State C}

@[simp] theorem len_spawn (j : JoinSet C) (addr : SocketAddr) :
    (j.spawn addr).len = j.len + 1 := by
  simp only [JoinSet.spawn, JoinSet.len, List.length_append, List.length_singleton]
  omega

theorem len_complete {j : JoinSet C} {i : ℕ} {addr : SocketAddr} (h : j.running[i]? = some addr)
    (x : Ended C) : (j.complete i x).len = j.len := by
  have := length_eraseIdx_add_one h
  simp only [JoinSet.complete, JoinSet.len, List.length_append, List.length_singleton]
  omega

theorem len_take {j : JoinSet C} {i : ℕ} {x : Ended C} (h : j.finished[i]? = some x) :
    (j.take i).len + 1 = j.len := by
  have := length_eraseIdx_add_one h
  simp only [JoinSet.take, JoinSet.len]
  omega

theorem isEmpty_iff (j : JoinSet C) : j.isEmpty = true ↔ j.len = 0 := by
  simp [JoinSet.isEmpty]

theorem connections_append (l k : List (Ended C)) :
    connections (l ++ k) = connections l ++ connections k := List.filterMap_append

theorem Inv.init (hp : p.candidates ≠ []) (t₀ : Instant) :
    Inv p t₀ (State.init p t₀ : State C) := by
  cases hc : p.candidates with
  | nil => exact absurd hc hp
  | cons first rest =>
    refine ⟨⟨?_, ?_, ?_, ?_, ?_, ?_, ?_⟩, ?_⟩
    all_goals simp [State.init, hc, State.start, JoinSet.empty, JoinSet.spawn, JoinSet.len,
      State.ended, PhaseInv, connections]

theorem Books.startNext (h : Books p t₀ s) {addr : SocketAddr} {rest : List SocketAddr}
    (hpend : s.pending = addr :: rest) (hlen : s.attempts.len < max p.maxParallel 1) :
    Books p t₀ (s.startNext p addr rest) := by
  refine ⟨?_, ?_, ?_, ?_, h.deadline, ?_, ?_⟩
  · have := h.order
    rw [hpend] at this
    simpa [State.startNext, State.start] using this
  · simp [State.startNext, State.start, h.attempted]
  · simp only [State.startNext, State.start, len_spawn]
    omega
  · have := h.placed.append_right [addr]
    simpa [State.startNext, State.start, State.ended, JoinSet.spawn] using this
  · intro x hx
    rcases List.mem_append.mp hx with hx | hx
    · exact h.past x hx
    · obtain rfl := List.mem_singleton.mp hx
      exact le_rfl
  · intro x hx
    rcases List.mem_append.mp hx with hx | hx
    · exact Nat.add_le_add_right (h.past x hx) _
    · obtain rfl := List.mem_singleton.mp hx
      exact le_rfl

theorem Books.tick (h : Books p t₀ s) (d : Duration) : Books p t₀ { s with now := s.now + d } :=
  { h with past := fun x hx => Nat.le_add_right_of_le (h.past x hx) }

theorem Books.complete (h : Books p t₀ s) {i : ℕ} {addr : SocketAddr}
    (hi : s.attempts.running[i]? = some addr) (o : Outcome C) :
    Books p t₀ { s with attempts := s.attempts.complete i ⟨addr, o, s.now⟩ } := by
  refine { h with bounded := ?_, placed := ?_ }
  · simpa only [len_complete hi] using h.bounded
  · have hrun := perm_cons_eraseIdx hi
    have := (hrun.append_left (s.ended.map Ended.addr)).trans h.placed
    simpa [State.ended, JoinSet.complete] using this

theorem Books.moved (h : Books p t₀ s) {i : ℕ} {x : Ended C} (joined reaped : List (Ended C))
    (hi : s.attempts.finished[i]? = some x)
    (hmoved : (joined ++ reaped).Perm (s.joined ++ s.reaped ++ [x])) :
    Books p t₀ { s with attempts := s.attempts.take i, joined := joined, reaped := reaped } := by
  refine { h with bounded := ?_, placed := ?_ }
  · have := len_take hi
    have := h.bounded
    show (s.attempts.take i).len ≤ _
    omega
  · have hfin := (perm_cons_eraseIdx hi).append_left (s.joined ++ s.reaped)
    have hall : (joined ++ reaped ++ s.attempts.finished.eraseIdx i).Perm s.ended := by
      refine (hmoved.append_right _).trans ?_
      simpa [State.ended] using hfin
    exact ((hall.map Ended.addr).append_right s.attempts.running).trans h.placed

theorem Books.refill (h : Books p t₀ s) (hs : s.phase = .selecting) (hr : s.reaped = [])
    (hc : connections s.joined = []) : Inv p t₀ (s.refill p) := by
  by_cases hlen : s.attempts.len = 0
  · have hemp := (isEmpty_iff s.attempts).mpr hlen
    cases hpend : s.pending with
    | nil =>
      have heq : s.refill p =
          { s with phase := .returned (.error (allFailedError s.attempted s.lastError)) } := by
        rw [State.refill, if_pos hemp, hpend]
      rw [heq]
      exact ⟨{ h with }, .allFailed hc hpend (by simp [hlen, hr]), hlen⟩
    | cons addr rest =>
      simp only [State.refill, hemp, hpend, if_true]
      refine ⟨h.startNext hpend (by omega), ?_⟩
      simp [PhaseInv, State.startNext, State.start, hs, hr, hc]
  · have hemp : s.attempts.isEmpty = false := by simpa [JoinSet.isEmpty] using hlen
    simp only [State.refill, hemp, Bool.false_eq_true, if_false]
    refine ⟨h, ?_⟩
    simp [PhaseInv, hs, hlen, hr, hc]

theorem Inv.join (h : Inv p t₀ s) (hs : s.phase = .selecting) {i : ℕ} {x : Ended C}
    (hi : s.attempts.finished[i]? = some x) :
    Inv p t₀ (State.joinNext p
      { s with attempts := s.attempts.take i, joined := s.joined ++ [x] } x) := by
  obtain ⟨hbooks, hphase⟩ := h
  simp only [PhaseInv, hs] at hphase
  obtain ⟨_, hr, hc⟩ := hphase
  have hmoved := hbooks.moved (s.joined ++ [x]) s.reaped hi (by simp [hr])
  have hjoined (ho : x.outcome.connection = none) : connections (s.joined ++ [x]) = [] := by
    rw [connections_append, hc]
    simp [connections, ho]
  cases ho : x.outcome with
  | panicked t =>
    simp only [State.joinNext, ho]
    exact Books.refill { hmoved with } hs hr (hjoined (by rw [ho]; rfl))
  | cancelled t =>
    simp only [State.joinNext, ho]
    exact Books.refill { hmoved with } hs hr (hjoined (by rw [ho]; rfl))
  | done r =>
    cases r with
    | error e =>
      simp only [State.joinNext, ho]
      exact Books.refill { hmoved with } hs hr (hjoined (by rw [ho]; rfl))
    | ok c =>
      simp only [State.joinNext, ho]
      refine ⟨{ hmoved with }, .connected (t := x.time) ?_ ?_⟩
      · obtain ⟨addr, o, t⟩ := x
        obtain rfl : o = .done (.ok c) := ho
        simp
      · rw [connections_append, hc]
        simp [connections, ho, Outcome.connection]

theorem Settled.tick {r : Answer C} (h : Settled p s r) (d : Duration) :
    Settled p { s with now := s.now + d } r := by
  cases h with
  | connected hx hc => exact .connected hx hc
  | timedOut hc hd hl hx => exact .timedOut hc (Nat.le_add_right_of_le hd) hl hx
  | allFailed hc hp hl => exact .allFailed hc hp hl

theorem Settled.complete {r : Answer C} (h : Settled p s r) {i : ℕ} {addr : SocketAddr}
    (hi : s.attempts.running[i]? = some addr) (o : Outcome C) :
    Settled p { s with attempts := s.attempts.complete i ⟨addr, o, s.now⟩ } r := by
  have hlen := len_complete hi ⟨addr, o, s.now⟩
  cases h with
  | connected hx hc => exact .connected hx hc
  | timedOut hc hd hl hx =>
    refine .timedOut hc hd (by simpa only [hlen] using hl) ?_
    intro y hy
    simp only [JoinSet.complete, ← List.append_assoc] at hy
    rcases List.mem_append.mp hy with hy | hy
    · exact hx y hy
    · obtain rfl := List.mem_singleton.mp hy
      exact hd
  | allFailed hc hp hl => exact .allFailed hc hp (by simpa only [hlen] using hl)

theorem Settled.reap {r : Answer C} (h : Settled p s r) {i : ℕ} {x : Ended C}
    (hi : s.attempts.finished[i]? = some x) :
    Settled p { s with attempts := s.attempts.take i, reaped := s.reaped ++ [x] } r := by
  have hlen := len_take hi
  cases h with
  | connected hx hc => exact .connected hx hc
  | timedOut hc hd hl hx =>
    refine .timedOut hc hd (by simp) ?_
    intro y hy
    have hperm := (perm_cons_eraseIdx hi).append_left s.reaped
    refine hx y (hperm.mem_iff.mp ?_)
    simpa [JoinSet.take] using hy
  | allFailed hc hp hl => omega

theorem PhaseInv.map (h : PhaseInv p s) (hphase : s'.phase = s.phase)
    (hlen : s.attempts.len = 0 → s'.attempts.len = 0)
    (hselecting : s.attempts.len ≠ 0 ∧ s.reaped = [] ∧ connections s.joined = [] →
      s'.attempts.len ≠ 0 ∧ s'.reaped = [] ∧ connections s'.joined = [])
    (hsettled : ∀ r, Settled p s r → Settled p s' r) : PhaseInv p s' := by
  unfold PhaseInv at h ⊢
  rw [hphase]
  cases hs : s.phase with
  | selecting =>
    rw [hs] at h
    exact hselecting h
  | shuttingDown r =>
    rw [hs] at h
    exact hsettled r h
  | returned r =>
    rw [hs] at h
    exact ⟨hsettled r h.1, hlen h.2⟩

theorem step_inv {a : Action C} (h : Inv p t₀ s) (ha : step p s a = some s') : Inv p t₀ s' := by
  obtain ⟨hbooks, hphase⟩ := id h
  cases step_cases ha with
  | tick d => exact ⟨hbooks.tick d, hphase.map rfl id id fun r hr => hr.tick d⟩
  | @finish i addr o hi ho =>
    refine ⟨hbooks.complete hi o, ?_⟩
    have hlen := len_complete hi ⟨addr, o, s.now⟩
    refine hphase.map rfl ?_ ?_ fun r hr => hr.complete hi o
    · simp only [hlen, imp_self]
    · simp only [hlen, imp_self]
  | join hs hi => exact h.join hs hi
  | launch hs hfin hpend hlen hlaunch =>
    simp only [PhaseInv, hs] at hphase
    refine ⟨hbooks.startNext hpend hlen, ?_⟩
    simpa [PhaseInv, State.startNext, State.start, hs] using hphase.2
  | deadline hs hfin hd =>
    simp only [PhaseInv, hs] at hphase
    obtain ⟨hlen, hr, hc⟩ := hphase
    refine ⟨{ hbooks with }, .timedOut hc hd ?_ ?_⟩
    · show s.attempts.len + s.reaped.length ≠ 0
      omega
    · intro x hx
      simp [hr, hfin] at hx
  | @reap r i x hs hi =>
    refine ⟨hbooks.moved s.joined (s.reaped ++ [x]) hi (by simp), ?_⟩
    simp only [PhaseInv, hs] at hphase
    have hset := hphase.reap hi
    unfold PhaseInv
    split
    · next hsel => exact absurd (hs.symm.trans hsel) (by simp)
    · next r' hr =>
      obtain rfl : r = r' := by simpa using hs.symm.trans hr
      exact hset
    · next r' hret => exact absurd (hs.symm.trans hret) (by simp)
  | ret hs hemp =>
    simp only [PhaseInv, hs] at hphase
    refine ⟨{ hbooks with }, ?_, (isEmpty_iff s.attempts).mp hemp⟩
    cases hphase with
    | connected hx hc => exact .connected hx hc
    | timedOut hc hd hl hx => exact .timedOut hc hd hl hx
    | allFailed hc hp hl => exact .allFailed hc hp hl

theorem exec_inv (hp : p.candidates ≠ []) (h : (machine C p).Reachable (State.init p t₀) s) :
    Inv p t₀ s :=
  h.invariant (Inv.init hp t₀) fun _ _ _ hi ha => step_inv hi ha

def Answer.connections : Answer C → List C
  | .ok (_, c) => [c]
  | .error _ => []

/-- The connections that exist: those of finished tasks still in the set, and the answer's. -/
def State.held (s : State C) : List C :=
  connections s.attempts.finished ++ (s.answer.map Answer.connections).getD []

structure Correct (p : Params) (t₀ : Instant) (s : State C) : Prop where
  inOrder : s.starts.map Prod.fst <+: p.candidates
  bounded : s.attempts.len ≤ max 1 p.maxParallel
  connected : ∀ addr c, s.answer = some (.ok (addr, c)) →
    ∃ t, ⟨addr, .done (.ok c), t⟩ ∈ s.joined
  allFailed : ∀ n e, s.answer = some (.error (allFailedError n e)) →
    (s.joined.map Ended.addr).Perm p.candidates ∧ connections s.joined = []
  timedOut : ∀ d n, s.answer = some (.error (timedOutError d n)) →
    t₀ + p.totalTimeout ≤ s.now ∧ connections s.joined = []
  failure : ∀ e, s.answer = some (.error e) →
    (∃ n e', e = allFailedError n e') ∨ ∃ d n, e = timedOutError d n
  returned : ∀ r, s.phase = .returned r →
    s.attempts = .empty ∧ (s.ended.map Ended.addr).Perm (s.starts.map Prod.fst) ∧
      s.held = r.connections ∧ connections s.ended = r.connections ++ connections s.reaped

/-- What one step may do to the starts: none, or one, spaced while another task is unjoined,
and at once when the last unjoined task failed with a candidate left. -/
structure Launches (p : Params) (x : Taken (State C) (Action C)) : Prop where
  one : x.after.starts = x.before.starts ∨
    ∃ addr, x.after.starts = x.before.starts ++ [(addr, x.before.now)]
  spaced : x.after.starts ≠ x.before.starts → 1 < x.after.attempts.len →
    ∀ y ∈ x.before.starts, y.2 + p.delay ≤ x.before.now
  prompt : ∀ i y addr rest, x.action = .join i → x.before.attempts.finished[i]? = some y →
    y.outcome.connection = none → x.before.attempts.len = 1 → x.before.pending = addr :: rest →
      x.after.starts = x.before.starts ++ [(addr, x.before.now)]

theorem JoinSet.eq_empty {j : JoinSet C} (h : j.len = 0) : j = .empty := by
  obtain ⟨running, finished⟩ := j
  simp only [JoinSet.len, Nat.add_eq_zero_iff, List.length_eq_zero_iff] at h
  obtain ⟨rfl, rfl⟩ := h
  rfl

theorem timedOutError_ne (d : Duration) (n m : ℕ) (e : Option Error) :
    timedOutError d n ≠ allFailedError m e := by
  simp [timedOutError, allFailedError]

theorem Inv.settled (h : Inv p t₀ s) {r : Answer C} (hr : s.answer = some r) : Settled p s r := by
  have hphase := h.phase
  unfold PhaseInv at hphase
  unfold State.answer at hr
  split at hphase
  · next hs => rw [hs] at hr; cases hr
  · next r' hs =>
    rw [hs] at hr
    obtain rfl := Option.some.inj hr
    exact hphase
  · next r' hs =>
    rw [hs] at hr
    obtain rfl := Option.some.inj hr
    exact hphase.1

theorem Settled.connections_joined {r : Answer C} (h : Settled p s r) :
    connections s.joined = r.connections := by
  cases h with
  | connected _ hc => exact hc
  | timedOut hc => exact hc
  | allFailed hc => exact hc

theorem Inv.allFailed (h : Inv p t₀ s) {n : ℕ} {e : Option Error}
    (hr : s.answer = some (.error (allFailedError n e))) :
    s.pending = [] ∧ s.attempts = .empty ∧ s.reaped = [] := by
  have hset := h.settled hr
  generalize hx : (Except.error (allFailedError n e) : Answer C) = x at hset
  cases hset with
  | connected => cases hx
  | timedOut =>
    injection hx with hx
    exact absurd hx.symm (timedOutError_ne _ _ _ _)
  | allFailed _ hp hl =>
    refine ⟨hp, JoinSet.eq_empty (by omega), List.eq_nil_of_length_eq_zero (by omega)⟩

theorem Inv.timedOut (h : Inv p t₀ s) {d : Duration} {n : ℕ}
    (hr : s.answer = some (.error (timedOutError d n))) :
    s.deadline ≤ s.now ∧ s.attempts.len + s.reaped.length ≠ 0 ∧
      ∀ x ∈ s.reaped ++ s.attempts.finished, s.deadline ≤ x.time := by
  have hset := h.settled hr
  generalize hy : (Except.error (timedOutError d n) : Answer C) = y at hset
  cases hset with
  | connected => cases hy
  | timedOut _ hd hl hx => exact ⟨hd, hl, hx⟩
  | allFailed =>
    injection hy with hy
    exact absurd hy (timedOutError_ne _ _ _ _)

theorem Inv.correct (h : Inv p t₀ s) : Correct p t₀ s := by
  refine ⟨⟨s.pending, h.books.order⟩, ?_, ?_, ?_, ?_, ?_, ?_⟩
  · have := h.books.bounded
    omega
  · intro addr c hr
    cases h.settled hr with
    | connected hx _ => exact ⟨_, hx⟩
  · intro n e hr
    obtain ⟨hpend, hatt, hreap⟩ := h.allFailed hr
    refine ⟨?_, (h.settled hr).connections_joined⟩
    have hplaced := h.books.placed
    have horder := h.books.order
    rw [hpend, List.append_nil] at horder
    rw [State.ended, hatt, hreap, horder] at hplaced
    simpa [JoinSet.empty] using hplaced
  · intro d n hr
    obtain ⟨hd, _⟩ := h.timedOut hr
    exact ⟨h.books.deadline ▸ hd, (h.settled hr).connections_joined⟩
  · intro e hr
    cases h.settled hr with
    | timedOut => exact .inr ⟨_, _, rfl⟩
    | allFailed => exact .inl ⟨_, _, rfl⟩
  · intro r hr
    have hphase := h.phase
    simp only [PhaseInv, hr] at hphase
    have hatt := JoinSet.eq_empty hphase.2
    have hplaced := h.books.placed
    refine ⟨hatt, ?_, ?_, ?_⟩
    · rw [hatt] at hplaced
      simpa [JoinSet.empty] using hplaced
    · simp [State.held, State.answer, hr, hatt, JoinSet.empty, connections]
    · rw [State.ended, connections_append, connections_append, hatt, hphase.1.connections_joined]
      simp [JoinSet.empty, connections]

theorem Launches.quiet {x : Taken (State C) (Action C)} (h : x.after.starts = x.before.starts)
    (hjoin : ∀ i, x.action ≠ .join i) : Launches p x :=
  ⟨.inl h, fun hne => absurd h hne, fun i _ _ _ hi => absurd hi (hjoin i)⟩

theorem refill_starts (s : State C) :
    (s.refill p).starts = s.starts ∨ (s.refill p).attempts.len = 1 ∧
      ∃ addr, (s.refill p).starts = s.starts ++ [(addr, s.now)] := by
  by_cases hlen : s.attempts.len = 0
  · have hemp := (isEmpty_iff s.attempts).mpr hlen
    cases hpend : s.pending with
    | nil =>
      simp only [State.refill, hemp, hpend, if_true]
      exact .inl trivial
    | cons addr rest =>
      simp only [State.refill, hemp, hpend, if_true]
      refine .inr ⟨?_, addr, rfl⟩
      simp only [State.startNext, State.start, len_spawn]
      omega
  · have hemp : s.attempts.isEmpty = false := by simpa [JoinSet.isEmpty] using hlen
    simp only [State.refill, hemp, Bool.false_eq_true, if_false]
    exact .inl trivial

theorem refill_prompt (s : State C) {addr : SocketAddr} {rest : List SocketAddr}
    (hlen : s.attempts.len = 0) (hpend : s.pending = addr :: rest) :
    (s.refill p).starts = s.starts ++ [(addr, s.now)] := by
  have hemp := (isEmpty_iff s.attempts).mpr hlen
  simp [State.refill, hemp, hpend, State.startNext, State.start]

theorem joinNext_failed {x : Ended C} (hx : x.outcome.connection = none) (s : State C) :
    ∃ e, s.joinNext p x = State.refill p { s with lastError := some e } := by
  cases ho : x.outcome with
  | panicked t => exact ⟨_, by rw [State.joinNext, ho]⟩
  | cancelled t => exact ⟨_, by rw [State.joinNext, ho]⟩
  | done r =>
    cases r with
    | error e => exact ⟨e, by rw [State.joinNext, ho]⟩
    | ok c =>
      rw [ho] at hx
      cases hx

theorem joinNext_connected {x : Ended C} {c : C} (hx : x.outcome.connection = some c)
    (s : State C) : (s.joinNext p x).starts = s.starts := by
  cases ho : x.outcome with
  | done r =>
    cases r with
    | ok c => simp [State.joinNext, ho]
    | error e => simp [ho, Outcome.connection] at hx
  | panicked t => simp [ho, Outcome.connection] at hx
  | cancelled t => simp [ho, Outcome.connection] at hx

theorem join_launches (s : State C) {i : ℕ} {x : Ended C}
    (hi : s.attempts.finished[i]? = some x) :
    Launches p ⟨s, .join i, State.joinNext p
      { s with attempts := s.attempts.take i, joined := s.joined ++ [x] } x⟩ := by
  have hlen := len_take hi
  cases hx : x.outcome.connection with
  | some c =>
    have hstarts := joinNext_connected (p := p) hx
      { s with attempts := s.attempts.take i, joined := s.joined ++ [x] }
    refine ⟨.inl hstarts, fun hne => absurd hstarts hne, ?_⟩
    intro j y addr rest hj hy hfail
    obtain rfl : i = j := by injection hj
    rw [hi] at hy
    obtain rfl := Option.some.inj hy
    rw [hx] at hfail
    cases hfail
  | none =>
    obtain ⟨e, he⟩ := joinNext_failed (p := p) hx
      { s with attempts := s.attempts.take i, joined := s.joined ++ [x] }
    rw [he]
    set r : State C := { s with attempts := s.attempts.take i, joined := s.joined ++ [x],
                                lastError := some e } with hr
    have hstarts : r.starts = s.starts := rfl
    refine ⟨?_, ?_, ?_⟩
    · rcases refill_starts (p := p) r with h | ⟨_, addr, h⟩
      · exact .inl h
      · exact .inr ⟨addr, h⟩
    · intro hne hmany
      rcases refill_starts (p := p) r with h | ⟨hone, _⟩
      · exact absurd h hne
      · exact absurd hone (Nat.ne_of_gt hmany)
    · intro j y addr rest hj hy hfail hlast hpend
      refine refill_prompt r ?_ hpend
      show (s.attempts.take i).len = 0
      have : s.attempts.len = 1 := hlast
      omega

theorem step_launches {a : Action C} (h : Inv p t₀ s) (ha : step p s a = some s') :
    Launches p ⟨s, a, s'⟩ := by
  cases step_cases ha with
  | tick d => exact .quiet rfl (by simp)
  | finish => exact .quiet rfl (by simp)
  | join hs hi => exact join_launches s hi
  | @launch addr rest hs hfin hpend hlen hlaunch =>
    refine ⟨.inr ⟨addr, rfl⟩, ?_, fun i _ _ _ hi => by cases hi⟩
    intro _ _ y hy
    exact (h.books.spaced y hy).trans hlaunch
  | deadline => exact .quiet rfl (by simp)
  | reap => exact .quiet rfl (by simp)
  | ret => exact .quiet rfl (by simp)

theorem staggeredDial_correct (hp : p.candidates ≠ [])
    {l : List (Taken (State C) (Action C))} (h : (machine C p).Exec (State.init p t₀) l s) :
    Correct p t₀ s ∧ ∀ x ∈ l, Launches p x := by
  refine ⟨(exec_inv hp h.reachable).correct, ?_⟩
  intro x hx
  obtain ⟨hreach, hstep⟩ := h.taken hx
  exact step_launches (exec_inv hp hreach) hstep

theorem staggeredDial_correct_refused :
    let p : Params := ⟨[.v4 1 443, .v4 2 443], 200, 8000, 2⟩
    ∃ (l : List (Taken (State ℕ) (Action ℕ))) (s : State ℕ),
      (machine ℕ p).Exec (State.init p 5) l s ∧
      s.phase = .returned (.ok (.v4 2 443, 7)) ∧ Correct p 5 s ∧ ∀ x ∈ l, Launches p x := by
  intro p
  obtain ⟨l, hl, _⟩ := Machine.exec_of_run (M := machine ℕ p) (s := State.init p 5)
    [.finish 0 (.done (.error .tunnelNotReady)), .join 0, .tick 30,
      .finish 0 (.done (.ok 7)), .join 0, .ret] rfl
  exact ⟨l, _, hl, rfl, staggeredDial_correct (by simp [p]) hl⟩

end WarpRust.Proxy.StaggeredDial
