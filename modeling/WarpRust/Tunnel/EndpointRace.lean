import WarpRust.Library.Lists
import WarpRust.Library.Machine
import WarpRust.Tunnel.Failover

/-!
# The race of handshakes

`connect_candidate` as a machine: the probes end in any order and with any outcome, a joined
probe is replaced before its result is looked at, and the winner aborts the others. The
timeouts are the probes' own. `started`, `ended` and `joined` are history.
-/

namespace WarpRust.Tunnel.EndpointRace
open Library

abbrev Probe := SocketAddr × Joined

inductive Phase where
  | selecting
  | shuttingDown (t : ConnectedTunnel)
  | returned (r : Except Error ConnectedTunnel)

structure State where
  running : List SocketAddr
  finished : List Probe
  pending : List SocketAddr
  failures : List (SocketAddr × Text)
  phase : Phase
  started : List SocketAddr
  ended : List Probe
  joined : List Probe

structure Params where
  cfg : WireGuardConfig
  firewallHint : List (SocketAddr × Text) → Text

namespace State

def startNext (s : State) : State :=
  match s.pending with
  | [] => s
  | endpoint :: rest =>
    { s with
      running := s.running ++ [endpoint], pending := rest, started := s.started ++ [endpoint] }

def init (cfg : WireGuardConfig) : State :=
  let s : State :=
    { running := [], finished := [], pending := endpointAttempts cfg, failures := [],
      phase := .selecting, started := [], ended := [], joined := [] }
  (List.replicate maxParallelEndpointAttempts ()).foldl (fun s _ => s.startNext) s

def joinNext (cfg : WireGuardConfig) (s : State) (x : Probe) : State :=
  let s := s.startNext
  match tryEndpoint cfg x.1 x.2 with
  | .ok (candidate, .ok managed) => { s with phase := .shuttingDown ⟨managed, candidate⟩ }
  | .ok (candidate, .error e) =>
    { s with failures := s.failures ++ [(candidate.peerEndpoint, e.text)] }
  | .error t =>
    { s with failures := s.failures ++
        [(.new IpAddr.unspecifiedV4 0, .lit "endpoint probe task failed: " :: t)] }

end State

inductive Action where
  | finish (i : ℕ) (o : Joined)
  | join (i : ℕ)
  | exhausted
  | abort (i : ℕ)
  | reap (i : ℕ)
  | ret

def step (p : Params) (s : State) : Action → Option State
  | .finish i o =>
    match s.running[i]? with
    | some e =>
      some { s with
        running := s.running.eraseIdx i, finished := s.finished ++ [(e, o)],
        ended := s.ended ++ [(e, o)] }
    | none => none
  | .join i =>
    match s.phase, s.finished[i]? with
    | .selecting, some x =>
      some (State.joinNext p.cfg
        { s with finished := s.finished.eraseIdx i, joined := s.joined ++ [x] } x)
    | _, _ => none
  | .exhausted =>
    match s.phase, s.running, s.finished with
    | .selecting, [], [] =>
      some { s with phase := .returned (.error (allFailedError p.firewallHint s.failures)) }
    | _, _, _ => none
  | .abort i =>
    match s.phase, s.running[i]? with
    | .shuttingDown _, some _ => some { s with running := s.running.eraseIdx i }
    | _, _ => none
  | .reap i =>
    match s.phase, s.finished[i]? with
    | .shuttingDown _, some _ => some { s with finished := s.finished.eraseIdx i }
    | _, _ => none
  | .ret =>
    match s.phase, s.running, s.finished with
    | .shuttingDown t, [], [] => some { s with phase := .returned (.ok t) }
    | _, _, _ => none

def machine (p : Params) : Machine State Action := ⟨step p⟩

inductive Step (p : Params) (s : State) : State → Prop
  | finish {i : ℕ} {e : SocketAddr} {o : Joined} : s.running[i]? = some e →
      Step p s { s with
        running := s.running.eraseIdx i, finished := s.finished ++ [(e, o)],
        ended := s.ended ++ [(e, o)] }
  | join {i : ℕ} {x : Probe} : s.phase = .selecting → s.finished[i]? = some x →
      Step p s (State.joinNext p.cfg
        { s with finished := s.finished.eraseIdx i, joined := s.joined ++ [x] } x)
  | exhausted : s.phase = .selecting → s.running = [] → s.finished = [] →
      Step p s { s with phase := .returned (.error (allFailedError p.firewallHint s.failures)) }
  | abort {t : ConnectedTunnel} {i : ℕ} {e : SocketAddr} : s.phase = .shuttingDown t →
      s.running[i]? = some e → Step p s { s with running := s.running.eraseIdx i }
  | reap {t : ConnectedTunnel} {i : ℕ} {x : Probe} : s.phase = .shuttingDown t →
      s.finished[i]? = some x → Step p s { s with finished := s.finished.eraseIdx i }
  | ret {t : ConnectedTunnel} : s.phase = .shuttingDown t → s.running = [] → s.finished = [] →
      Step p s { s with phase := .returned (.ok t) }

theorem step_cases {p : Params} {s s' : State} {a : Action} (ha : step p s a = some s') :
    Step p s s' := by
  cases a with
  | finish i o =>
    simp only [step] at ha
    split at ha
    · next e he =>
      obtain rfl := Option.some.inj ha
      exact .finish he
    · cases ha
  | join i =>
    simp only [step] at ha
    split at ha
    · next x hs hx =>
      obtain rfl := Option.some.inj ha
      exact .join hs hx
    · cases ha
  | exhausted =>
    simp only [step] at ha
    split at ha
    · next hs hrunning hfinished =>
      obtain rfl := Option.some.inj ha
      exact .exhausted hs hrunning hfinished
    · cases ha
  | abort i =>
    simp only [step] at ha
    split at ha
    · next hs he =>
      obtain rfl := Option.some.inj ha
      exact .abort hs he
    · cases ha
  | reap i =>
    simp only [step] at ha
    split at ha
    · next hs hx =>
      obtain rfl := Option.some.inj ha
      exact .reap hs hx
    · cases ha
  | ret =>
    simp only [step] at ha
    split at ha
    · next hs hrunning hfinished =>
      obtain rfl := Option.some.inj ha
      exact .ret hs hrunning hfinished
    · cases ha

def recorded : Probe → Option (SocketAddr × Text)
  | (_, .connected) => none
  | (endpoint, .failed e) => some (endpoint, e.text)
  | (_, .panicked t) =>
    some (.new IpAddr.unspecifiedV4 0, .lit "endpoint probe task failed: " :: t)

def connectedTo (cfg : WireGuardConfig) (e : SocketAddr) : ConnectedTunnel :=
  ⟨⟨{ cfg with peerEndpoint := e }⟩, { cfg with peerEndpoint := e }⟩

def State.inFlight (s : State) : ℕ := s.running.length + s.finished.length

structure Books (cfg : WireGuardConfig) (s : State) : Prop where
  order : s.started ++ s.pending = endpointAttempts cfg
  bounded : s.inFlight ≤ maxParallelEndpointAttempts
  begun : ∀ e ∈ s.running ++ s.ended.map Prod.fst, e ∈ s.started
  seen : ∀ x ∈ s.joined ++ s.finished, x ∈ s.ended

/-- What holds until a probe has won: every started probe is still in flight or has failed. -/
structure Selecting (s : State) : Prop where
  placed : (s.running ++ s.ended.map Prod.fst).Perm s.started
  open_ : (s.joined ++ s.finished).Perm s.ended
  full : s.pending ≠ [] → s.inFlight = maxParallelEndpointAttempts
  failed : ∀ e, (e, .connected) ∉ s.joined
  failures : s.failures = s.joined.filterMap recorded

def Won (cfg : WireGuardConfig) (s : State) (t : ConnectedTunnel) : Prop :=
  ∃ e, (e, .connected) ∈ s.joined ∧ t = connectedTo cfg e

def Settled (p : Params) (s : State) : Except Error ConnectedTunnel → Prop
  | .ok t => Won p.cfg s t
  | .error e => Selecting s ∧ s.pending = [] ∧ e = allFailedError p.firewallHint s.failures

def PhaseInv (p : Params) (s : State) : Prop :=
  match s.phase with
  | .selecting => Selecting s
  | .shuttingDown t => Won p.cfg s t
  | .returned r => s.inFlight = 0 ∧ Settled p s r

structure Inv (p : Params) (s : State) : Prop where
  books : Books p.cfg s
  phase : PhaseInv p s

variable {p : Params} {cfg : WireGuardConfig} {s s' : State}

theorem startNext_cases (s : State) : (s.pending = [] ∧ s.startNext = s) ∨
    ∃ endpoint rest, s.pending = endpoint :: rest ∧ s.startNext = { s with
      running := s.running ++ [endpoint]
      pending := rest
      started := s.started ++ [endpoint] } := by
  cases hpend : s.pending with
  | nil => exact .inl ⟨rfl, by rw [State.startNext, hpend]⟩
  | cons endpoint rest =>
    refine .inr ⟨endpoint, rest, rfl, ?_⟩
    rw [State.startNext, hpend]

theorem Books.startNext (h : Books cfg s) (hlt : s.inFlight < maxParallelEndpointAttempts) :
    Books cfg s.startNext := by
  rcases startNext_cases s with ⟨-, heq⟩ | ⟨endpoint, rest, hpend, heq⟩
  · rwa [heq]
  · rw [heq]
    refine ⟨?_, ?_, ?_, h.seen⟩
    · rw [List.append_assoc, List.singleton_append, ← hpend]
      exact h.order
    · simp only [State.inFlight, List.length_append, List.length_singleton] at hlt ⊢
      omega
    · intro e he
      rw [(perm_append_middle _ _ _).mem_iff] at he
      rcases List.mem_append.mp he with he | he
      · exact List.mem_append_left _ (h.begun e he)
      · exact List.mem_append_right _ he

theorem Selecting.startNext (hplaced : (s.running ++ s.ended.map Prod.fst).Perm s.started)
    (hopen : (s.joined ++ s.finished).Perm s.ended)
    (hfull : s.pending ≠ [] → s.inFlight + 1 = maxParallelEndpointAttempts)
    (hfailed : ∀ e, (e, .connected) ∉ s.joined)
    (hfailures : s.failures = s.joined.filterMap recorded) : Selecting s.startNext := by
  rcases startNext_cases s with ⟨hnil, heq⟩ | ⟨endpoint, rest, hpend, heq⟩
  · rw [heq]
    exact ⟨hplaced, hopen, fun h => absurd hnil h, hfailed, hfailures⟩
  · rw [heq]
    refine ⟨?_, hopen, fun _ => ?_, hfailed, hfailures⟩
    · exact (perm_append_middle _ _ _).trans (hplaced.append_right [endpoint])
    · have := hfull (by rw [hpend]; nofun)
      simp only [State.inFlight, List.length_append, List.length_singleton] at this ⊢
      omega

theorem Inv.init (p : Params) : Inv p (.init p.cfg) := by
  cases hattempts : endpointAttempts p.cfg with
  | nil =>
    have hhead := endpointAttempts_head p.cfg
    rw [hattempts] at hhead
    cases hhead
  | cons a rest =>
    cases rest with
    | nil =>
      simp only [State.init, maxParallelEndpointAttempts, List.replicate, List.foldl, hattempts,
        State.startNext]
      refine ⟨⟨hattempts.symm, (by decide : 1 ≤ 2), fun _ he => he, fun _ hx => hx⟩, ?_⟩
      exact ⟨.refl _, .refl _, fun h => absurd rfl h, fun _ => List.not_mem_nil, rfl⟩
    | cons b rest =>
      simp only [State.init, maxParallelEndpointAttempts, List.replicate, List.foldl, hattempts,
        State.startNext]
      refine ⟨⟨hattempts.symm, (by decide : 2 ≤ 2), fun _ he => he, fun _ hx => hx⟩, ?_⟩
      exact ⟨.refl _, .refl _, fun _ => rfl, fun _ => List.not_mem_nil, rfl⟩

theorem joinNext_cases (cfg : WireGuardConfig) (s : State) (x : Probe) :
    (x.2 = .connected ∧ s.joinNext cfg x =
      ({ s with phase := .shuttingDown (connectedTo cfg x.1) } : State).startNext) ∨
    ∃ f, recorded x = some f ∧ s.joinNext cfg x =
      ({ s with failures := s.failures ++ [f] } : State).startNext := by
  obtain ⟨endpoint, o⟩ := x
  cases o with
  | connected =>
    refine .inl ⟨rfl, ?_⟩
    rcases hpend : s.pending with _ | ⟨next, rest⟩ <;>
      simp only [State.joinNext, tryEndpoint, State.startNext, connectedTo, hpend]
  | failed e | panicked t =>
    refine .inr ⟨_, rfl, ?_⟩
    rcases hpend : s.pending with _ | ⟨next, rest⟩ <;>
      simp only [State.joinNext, tryEndpoint, State.startNext, hpend]

theorem recorded_eq_some {x : Probe} {f : SocketAddr × Text} (h : recorded x = some f)
    (e : SocketAddr) :
    x ≠ (e, .connected) := by
  rintro rfl
  cases h

theorem startNext_phase (s : State) : s.startNext.phase = s.phase := by
  rcases startNext_cases s with ⟨-, heq⟩ | ⟨_, _, -, heq⟩ <;> rw [heq]

theorem startNext_joined (s : State) : s.startNext.joined = s.joined := by
  rcases startNext_cases s with ⟨-, heq⟩ | ⟨_, _, -, heq⟩ <;> rw [heq]

theorem Books.erase (h : Books cfg s) {i : ℕ} {x : Probe} (hx : s.finished[i]? = some x) :
    Books cfg { s with finished := s.finished.eraseIdx i, joined := s.joined ++ [x] } := by
  have hlen := length_eraseIdx_add_one hx
  have hbound := h.bounded
  refine ⟨h.order, ?_, h.begun, ?_⟩
  · simp only [State.inFlight] at hbound ⊢
    omega
  · intro y hy
    apply h.seen
    simp only [List.mem_append, List.mem_singleton] at hy ⊢
    rcases hy with (hy | rfl) | hy
    · exact .inl hy
    · exact .inr (List.mem_of_getElem? hx)
    · exact .inr (List.mem_of_mem_eraseIdx hy)

theorem Inv.join (h : Inv p s) {i : ℕ} {x : Probe} (hs : s.phase = .selecting)
    (hx : s.finished[i]? = some x) :
    Inv p (State.joinNext p.cfg
      { s with finished := s.finished.eraseIdx i, joined := s.joined ++ [x] } x) := by
  have hsel : Selecting s := by
    have := h.phase
    rwa [PhaseInv, hs] at this
  have hlen := length_eraseIdx_add_one hx
  have hbooks := h.books.erase hx
  have hlt : s.running.length + (s.finished.eraseIdx i).length < maxParallelEndpointAttempts := by
    have := h.books.bounded
    simp only [State.inFlight] at this
    omega
  rcases joinNext_cases p.cfg
    { s with finished := s.finished.eraseIdx i, joined := s.joined ++ [x] } x
    with ⟨hconn, heq⟩ | ⟨f, hf, heq⟩
  · rw [heq]
    refine ⟨Books.startNext ⟨hbooks.order, hbooks.bounded, hbooks.begun, hbooks.seen⟩ hlt, ?_⟩
    rw [PhaseInv, startNext_phase]
    refine ⟨x.1, ?_, rfl⟩
    rw [startNext_joined, ← hconn]
    exact List.mem_concat_self
  · rw [heq]
    refine ⟨Books.startNext ⟨hbooks.order, hbooks.bounded, hbooks.begun, hbooks.seen⟩ hlt, ?_⟩
    rw [PhaseInv, startNext_phase]
    simp only [hs]
    refine Selecting.startNext hsel.placed ?_ ?_ ?_ ?_
    · have hperm := (perm_cons_eraseIdx hx).append_left s.joined
      rw [List.append_assoc, List.singleton_append]
      exact hperm.trans hsel.open_
    · intro hpend
      have := hsel.full hpend
      simp only [State.inFlight] at this ⊢
      omega
    · intro e he
      rcases List.mem_append.mp he with he | he
      · exact hsel.failed e he
      · exact recorded_eq_some hf e (List.mem_singleton.mp he).symm
    · rw [List.filterMap_append, List.filterMap_cons_some hf, List.filterMap_nil, hsel.failures]

theorem finish_perm {running : List SocketAddr} {l : List Probe} {i : ℕ} {e : SocketAddr}
    {o : Joined} (he : running[i]? = some e) :
    (running.eraseIdx i ++ (l ++ [(e, o)]).map Prod.fst).Perm (running ++ l.map Prod.fst) := by
  rw [List.map_append, List.map_cons, List.map_nil, ← List.append_assoc]
  exact (List.perm_append_singleton e _).trans ((perm_cons_eraseIdx he).append_right _)

theorem Inv.finish (h : Inv p s) {i : ℕ} {e : SocketAddr} {o : Joined}
    (he : s.running[i]? = some e) :
    Inv p { s with
      running := s.running.eraseIdx i, finished := s.finished ++ [(e, o)],
      ended := s.ended ++ [(e, o)] } := by
  have hlen := length_eraseIdx_add_one he
  have hin : (s.running.eraseIdx i).length + (s.finished ++ [(e, o)]).length = s.inFlight := by
    rw [State.inFlight, List.length_append, List.length_singleton]
    omega
  have hphase := h.phase
  refine ⟨⟨h.books.order, hin.trans_le h.books.bounded, ?_, ?_⟩, ?_⟩
  · intro e' he'
    exact h.books.begun e' ((finish_perm he).mem_iff.mp he')
  · intro x hx
    rw [← List.append_assoc] at hx
    rcases List.mem_append.mp hx with hx | hx
    · exact List.mem_append_left _ (h.books.seen x hx)
    · exact List.mem_append_right _ hx
  · unfold PhaseInv at hphase ⊢
    cases hs : s.phase with
    | selecting =>
      simp only [hs] at hphase ⊢
      refine ⟨(finish_perm he).trans hphase.placed, ?_, fun hpend => ?_, hphase.failed,
        hphase.failures⟩
      · rw [← List.append_assoc]
        exact hphase.open_.append_right _
      · exact hin.trans (hphase.full hpend)
    | shuttingDown t =>
      simp only [hs] at hphase ⊢
      exact hphase
    | returned r =>
      simp only [hs] at hphase
      have := hphase.1
      simp only [State.inFlight] at this
      omega

theorem Inv.drop (h : Inv p s) {t : ConnectedTunnel} (hs : s.phase = .shuttingDown t)
    {running : List SocketAddr} {finished : List Probe} (hrunning : running.Sublist s.running)
    (hfinished : finished.Sublist s.finished) : Inv p { s with running, finished } := by
  have hphase := h.phase
  simp only [PhaseInv, hs] at hphase
  refine ⟨⟨h.books.order, ?_, ?_, ?_⟩, ?_⟩
  · exact (Nat.add_le_add hrunning.length_le hfinished.length_le).trans h.books.bounded
  · exact fun e he => h.books.begun e ((hrunning.append (.refl _)).subset he)
  · exact fun x hx => h.books.seen x (((List.Sublist.refl _).append hfinished).subset hx)
  · simp only [PhaseInv, hs]
    exact hphase

theorem Inv.step (h : Inv p s) (hs : Step p s s') : Inv p s' := by
  have hphase := h.phase
  cases hs with
  | finish he => exact h.finish he
  | join hsel hx => exact h.join hsel hx
  | exhausted hsel hrunning hfinished =>
    simp only [PhaseInv, hsel] at hphase
    have hnone : s.inFlight = 0 := by rw [State.inFlight, hrunning, hfinished]; rfl
    have hpend : s.pending = [] := by
      by_contra hne
      have := hphase.full hne
      rw [hnone] at this
      cases this
    exact ⟨⟨h.books.order, h.books.bounded, h.books.begun, h.books.seen⟩, hnone,
      ⟨hphase.placed, hphase.open_, hphase.full, hphase.failed, hphase.failures⟩, hpend, rfl⟩
  | abort hs he => exact h.drop hs (List.eraseIdx_sublist _ _) (.refl _)
  | reap hs hx => exact h.drop hs (.refl _) (List.eraseIdx_sublist _ _)
  | ret hs hrunning hfinished =>
    simp only [PhaseInv, hs] at hphase
    have hnone : s.inFlight = 0 := by rw [State.inFlight, hrunning, hfinished]; rfl
    exact ⟨⟨h.books.order, h.books.bounded, h.books.begun, h.books.seen⟩, hnone, hphase⟩

theorem Inv.reachable (h : (machine p).Reachable (.init p.cfg) s) : Inv p s :=
  h.invariant (Inv.init p) fun _ _ _ ht ha => ht.step (step_cases ha)

/-! ### Termination -/

def Phase.weight : Phase → ℕ
  | .selecting => 2
  | .shuttingDown _ => 1
  | .returned _ => 0

def State.rank (s : State) : ℕ :=
  4 * s.pending.length + 3 * s.running.length + 2 * s.finished.length + s.phase.weight

theorem rank_startNext_le (s : State) : s.startNext.rank ≤ s.rank := by
  rcases startNext_cases s with ⟨-, heq⟩ | ⟨_, _, hpend, heq⟩
  · rw [heq]
  · rw [heq, State.rank, State.rank, hpend]
    simp only [List.length_append, List.length_cons, List.length_nil]
    omega

theorem rank_step (hs : Step p s s') : s'.rank < s.rank := by
  cases hs with
  | finish he =>
    have := length_eraseIdx_add_one he
    simp only [State.rank, List.length_append, List.length_singleton]
    omega
  | @join i x hsel hx =>
    have := length_eraseIdx_add_one hx
    rcases joinNext_cases p.cfg
      { s with finished := s.finished.eraseIdx i, joined := s.joined ++ [x] } x
      with ⟨-, heq⟩ | ⟨f, -, heq⟩
    · rw [heq]
      refine (rank_startNext_le _).trans_lt ?_
      simp only [State.rank, hsel, Phase.weight]
      omega
    · rw [heq]
      refine (rank_startNext_le _).trans_lt ?_
      simp only [State.rank, hsel, Phase.weight]
      omega
  | exhausted hsel =>
    simp only [State.rank, hsel, Phase.weight]
    omega
  | abort hs he =>
    have := length_eraseIdx_add_one he
    simp only [State.rank]
    omega
  | reap hs hx =>
    have := length_eraseIdx_add_one hx
    simp only [State.rank]
    omega
  | ret hs =>
    simp only [State.rank, hs, Phase.weight]
    omega

theorem rank_init_le (cfg : WireGuardConfig) :
    (State.init cfg).rank ≤ 4 * (endpointAttempts cfg).length + 2 := by
  simp only [State.init, maxParallelEndpointAttempts, List.replicate, List.foldl]
  refine ((rank_startNext_le _).trans (rank_startNext_le _)).trans ?_
  simp [State.rank, Phase.weight]

theorem step_enabled (p : Params) (hs : ∀ r, s.phase ≠ .returned r) :
    ∃ a s', (machine p).step s a = some s' := by
  cases hrunning : s.running with
  | cons e running =>
    exact ⟨.finish 0 .connected, _, by simp only [machine, EndpointRace.step, hrunning]; rfl⟩
  | nil =>
    cases hfinished : s.finished with
    | cons x finished =>
      cases hphase : s.phase with
      | selecting =>
        exact ⟨.join 0, _, by simp only [machine, EndpointRace.step, hphase, hfinished]; rfl⟩
      | shuttingDown t =>
        exact ⟨.reap 0, _, by simp only [machine, EndpointRace.step, hphase, hfinished]; rfl⟩
      | returned r => exact absurd hphase (hs r)
    | nil =>
      cases hphase : s.phase with
      | selecting =>
        exact ⟨.exhausted, _, by
          simp only [machine, EndpointRace.step, hphase, hrunning, hfinished]; rfl⟩
      | shuttingDown t =>
        exact ⟨.ret, _, by simp only [machine, EndpointRace.step, hphase, hrunning, hfinished]; rfl⟩
      | returned r => exact absurd hphase (hs r)

/-! ### What the race answers -/

structure AllFailed (p : Params) (s : State) (e : Error) : Prop where
  started : s.started = endpointAttempts p.cfg
  joined : (s.joined.map Prod.fst).Perm (endpointAttempts p.cfg)
  failures : List.Forall₂ (fun x f => recorded x = some f) s.joined s.failures
  error : e = allFailedError p.firewallHint s.failures

structure Answer (p : Params) (s : State) (r : Except Error ConnectedTunnel) : Prop where
  quiet : s.running = [] ∧ s.finished = []
  ok_iff : (∃ t, r = .ok t) ↔ ∃ e ∈ s.started, (e, .connected) ∈ s.ended
  winner : ∀ t, r = .ok t → ∃ e ∈ s.started, (e, .connected) ∈ s.ended ∧ t = connectedTo p.cfg e
  failed : ∀ e, r = .error e → AllFailed p s e
  reliable : ∀ e ∈ endpointAttempts p.cfg, (∀ o, (e, o) ∈ s.ended → o = .connected) →
    ∃ t, r = .ok t

structure Correct (p : Params) (s : State) : Prop where
  parallel : s.running.length + s.finished.length ≤ 2
  order : s.started <+: endpointAttempts p.cfg
  once : s.started.Nodup
  answer : ∀ r, s.phase = .returned r → Answer p s r

theorem Selecting.recorded (h : Selecting s) :
    List.Forall₂ (fun x f => recorded x = some f) s.joined s.failures := by
  rw [h.failures]
  apply forall₂_filterMap
  rintro ⟨e, o⟩ hx
  cases o with
  | connected => exact absurd hx (h.failed e)
  | failed e | panicked t => exact ⟨_, rfl⟩

theorem Books.ended_started (h : Books cfg s) {x : Probe} (hx : x ∈ s.ended) : x.1 ∈ s.started :=
  h.begun x.1 (List.mem_append_right _ (List.mem_map_of_mem hx))

theorem Inv.answer_ok (h : Inv p s) {t : ConnectedTunnel} (ht : Won p.cfg s t)
    (hquiet : s.running = [] ∧ s.finished = []) : Answer p s (.ok t) := by
  obtain ⟨e, he, rfl⟩ := ht
  have hended := h.books.seen _ (List.mem_append_left _ he)
  have hstarted := h.books.ended_started hended
  refine ⟨hquiet, ?_, ?_, nofun, fun _ _ _ => ⟨_, rfl⟩⟩
  · exact iff_of_true ⟨_, rfl⟩ ⟨e, hstarted, hended⟩
  · intro t ht
    obtain rfl := Except.ok.inj ht
    exact ⟨e, hstarted, hended, rfl⟩

theorem Inv.answer_error (h : Inv p s) (hs : Selecting s) (hpend : s.pending = [])
    (hquiet : s.running = [] ∧ s.finished = []) : Answer p s
    (.error (allFailedError p.firewallHint s.failures)) := by
  have hjoined : s.joined.Perm s.ended := by
    have := hs.open_
    rwa [hquiet.2, List.append_nil] at this
  have hall : s.started = endpointAttempts p.cfg := by
    have := h.books.order
    rwa [hpend, List.append_nil] at this
  have hperm : (s.joined.map Prod.fst).Perm (endpointAttempts p.cfg) := by
    have := hs.placed
    rw [hquiet.1, List.nil_append, hall] at this
    exact (hjoined.map _).trans this
  have hne : ∀ t : ConnectedTunnel, Except.error (allFailedError p.firewallHint s.failures) ≠
      .ok t := by
    intro t ht
    cases ht
  refine ⟨hquiet, ?_, fun t ht => absurd ht (hne t), ?_, ?_⟩
  · refine iff_of_false (fun ⟨t, ht⟩ => hne t ht) ?_
    rintro ⟨e, -, he⟩
    exact hs.failed e (hjoined.mem_iff.mpr he)
  · intro e he
    obtain rfl := Except.error.inj he
    exact ⟨hall, hperm, hs.recorded, rfl⟩
  · intro e he hreliable
    obtain ⟨⟨e', o⟩, hx, rfl⟩ := List.mem_map.mp (hperm.mem_iff.mpr he)
    obtain rfl := hreliable o (hjoined.mem_iff.mp hx)
    exact absurd hx (hs.failed e')

theorem Inv.correct (h : Inv p s) : Correct p s := by
  refine ⟨h.books.bounded, ⟨s.pending, h.books.order⟩, ?_, fun r hr => ?_⟩
  · have hnodup := (endpointAttempts_covers p.cfg).nodup
    rw [← h.books.order] at hnodup
    exact (List.nodup_append.mp hnodup).1
  · have hphase := h.phase
    simp only [PhaseInv, hr] at hphase
    have hquiet : s.running = [] ∧ s.finished = [] := by
      have := hphase.1
      rw [State.inFlight, Nat.add_eq_zero_iff] at this
      exact ⟨List.eq_nil_of_length_eq_zero this.1, List.eq_nil_of_length_eq_zero this.2⟩
    cases r with
    | ok t => exact h.answer_ok hphase.2 hquiet
    | error e =>
      obtain ⟨hs, hpend, rfl⟩ := hphase.2
      exact h.answer_error hs hpend hquiet

theorem connectCandidate_race {l : List (Taken State Action)}
    (h : (machine p).Exec (.init p.cfg) l s) :
    Correct p s ∧ l.length ≤ 4 * (endpointAttempts p.cfg).length + 2 ∧
      ((∀ r, s.phase ≠ .returned r) → ∃ a s', (machine p).step s a = some s') := by
  refine ⟨(Inv.reachable h.reachable).correct, ?_, step_enabled p⟩
  have hrank := h.length_add_rank_le State.rank fun _ _ _ ha => rank_step (step_cases ha)
  have hinit := rank_init_le p.cfg
  omega

/-- The second of two endpoints wins while the first still runs. -/
theorem connectCandidate_race_second : ∃ (l : List (Taken State Action)) (s : State),
    (∃ t, s.phase = .returned (.ok t)) ∧
    Correct ⟨endpointConfig (.v4 1 2408) [], fun _ => []⟩ s ∧
    l.length ≤ 4 * (endpointAttempts (endpointConfig (.v4 1 2408) [])).length + 2 ∧
    ((∀ r, s.phase ≠ .returned r) →
      ∃ a s', (machine ⟨endpointConfig (.v4 1 2408) [], fun _ => []⟩).step s a = some s') := by
  have hattempts : endpointAttempts (endpointConfig (.v4 1 2408) []) =
      [.v4 1 2408, .v4 1 500, .v4 1 1701, .v4 1 4500] := by decide
  have hrun : ∃ s, (machine ⟨endpointConfig (.v4 1 2408) [], fun _ => []⟩).run
      (.init (endpointConfig (.v4 1 2408) []))
      [.finish 1 .connected, .join 0, .abort 0, .abort 0, .ret] = some s ∧
      ∃ t, s.phase = .returned (.ok t) := by
    simp only [State.init, hattempts]
    exact ⟨_, rfl, _, rfl⟩
  obtain ⟨s, hs, ht⟩ := hrun
  obtain ⟨l, hl, -⟩ := Machine.exec_of_run _ hs
  exact ⟨l, s, ht, connectCandidate_race hl⟩

/-! ### The race and the loop over rounds -/

structure Follows (p : Params) (script : List (ℕ × Joined)) (net : Network) : Prop where
  hint : net.firewallHint = p.firewallHint
  choice : ∀ k c, script[k]? = some c →
    net.pick ((endpointAttempts p.cfg).length - 1 - k) = c.1 ∧
      net.joined ((endpointAttempts p.cfg).length - 1 - k) = c.2

def Params.follower (p : Params) (script : List (ℕ × Joined)) : Network where
  pick r := (script.getD ((endpointAttempts p.cfg).length - 1 - r) (0, .connected)).1
  joined r := (script.getD ((endpointAttempts p.cfg).length - 1 - r) (0, .connected)).2
  firewallHint := p.firewallHint

theorem follower_follows {script : List (ℕ × Joined)}
    (hlen : script.length ≤ (endpointAttempts p.cfg).length) :
    Follows p script (p.follower script) := by
  refine ⟨rfl, fun k c hc => ?_⟩
  have hk : k < script.length := (List.getElem?_eq_some_iff.mp hc).1
  have hback : (endpointAttempts p.cfg).length - 1 - ((endpointAttempts p.cfg).length - 1 - k) =
      k := by
    omega
  simp only [Params.follower, hback, List.getD_eq_getElem?_getD, hc, Option.getD_some, and_self]

structure InLoop (p : Params) (s : State) (script : List (ℕ × Joined)) (probes : List SocketAddr) :
    Prop where
  perm : probes.Perm (s.running ++ s.finished.map Prod.fst)
  rounds : script.length + probes.length + s.pending.length = (endpointAttempts p.cfg).length
  loop : ∀ net, Follows p script net → connectCandidate net p.cfg =
    joinLoop net p.cfg (probes.length + s.pending.length) probes s.pending s.failures

def Sim (p : Params) (s : State) : Prop :=
  match s.phase with
  | .selecting => ∃ script probes, InLoop p s script probes
  | .shuttingDown t => ∃ net : Network, connectCandidate net p.cfg = .ok t
  | .returned r => ∃ net : Network, connectCandidate net p.cfg = r

theorem startNext_eq (s : State) : s.startNext.running = (spawnNext s.running s.pending).1 ∧
    s.startNext.pending = (spawnNext s.running s.pending).2 := by
  rcases startNext_cases s with ⟨hpend, heq⟩ | ⟨endpoint, rest, hpend, heq⟩ <;>
    simp only [heq, hpend, spawnNext, and_self]

section
variable {net : Network} {m j : ℕ} {probes pending : List SocketAddr}
  {failures : List (SocketAddr × Text)} {e : SocketAddr}

theorem joinLoop_failed {f : SocketAddr × Text} (he : probes[j]? = some e) (hpick : net.pick m = j)
    (hf : recorded (e, net.joined m) = some f) :
    joinLoop net cfg (m + 1) probes pending failures =
      joinLoop net cfg m (spawnNext (probes.eraseIdx j) pending).1
        (spawnNext (probes.eraseIdx j) pending).2 (failures ++ [f]) := by
  obtain ⟨hj, hget⟩ := List.getElem?_eq_some_iff.mp he
  cases probes with
  | nil => cases hj
  | cons probe probes =>
    have hmod : net.pick m % (probe :: probes).length = j := by rw [hpick, Nat.mod_eq_of_lt hj]
    have hendpoint : (probe :: probes).getD j probe = e := by rw [List.getD_eq_getElem _ _ hj, hget]
    simp only [joinLoop, hmod, hendpoint]
    cases ho : net.joined m with
    | connected =>
      rw [ho] at hf
      cases hf
    | failed _ | panicked _ =>
      rw [ho] at hf
      cases hf
      rfl

theorem joinLoop_connected (he : probes[j]? = some e) (hpick : net.pick m = j)
    (hconn : net.joined m = .connected) :
    joinLoop net cfg (m + 1) probes pending failures = .ok (connectedTo cfg e) := by
  obtain ⟨hj, hget⟩ := List.getElem?_eq_some_iff.mp he
  cases probes with
  | nil => cases hj
  | cons probe probes =>
    have hmod : net.pick m % (probe :: probes).length = j := by rw [hpick, Nat.mod_eq_of_lt hj]
    have hendpoint : (probe :: probes).getD j probe = e := by rw [List.getD_eq_getElem _ _ hj, hget]
    simp only [joinLoop, hmod, hendpoint, hconn, tryEndpoint, connectedTo]

end

theorem Follows.of_append {script : List (ℕ × Joined)} {c : ℕ × Joined} {net : Network}
    (h : Follows p (script ++ [c]) net) : Follows p script net ∧
      net.pick ((endpointAttempts p.cfg).length - 1 - script.length) = c.1 ∧
      net.joined ((endpointAttempts p.cfg).length - 1 - script.length) = c.2 := by
  refine ⟨⟨h.hint, fun k c' hc => h.choice k c' ?_⟩, h.choice _ c (by simp)⟩
  rw [List.getElem?_append_left (List.getElem?_eq_some_iff.mp hc).1]
  exact hc

theorem InLoop.sim {script : List (ℕ × Joined)} {probes : List SocketAddr}
    (h : InLoop p s script probes) (hphase : s.phase = .selecting) : Sim p s := by
  simp only [Sim, hphase]
  exact ⟨script, probes, h⟩

theorem startNext_finished (s : State) : s.startNext.finished = s.finished := by
  rcases startNext_cases s with ⟨-, heq⟩ | ⟨_, _, -, heq⟩ <;> rw [heq]

theorem startNext_failures (s : State) : s.startNext.failures = s.failures := by
  rcases startNext_cases s with ⟨-, heq⟩ | ⟨_, _, -, heq⟩ <;> rw [heq]

theorem startNext_perm {probes : List SocketAddr}
    (h : probes.Perm (s.running ++ s.finished.map Prod.fst)) :
    (spawnNext probes s.pending).1.Perm
      (s.startNext.running ++ s.startNext.finished.map Prod.fst) := by
  rw [startNext_finished, (startNext_eq s).1]
  cases s.pending with
  | nil => exact h
  | cons e rest => exact (h.append_right [e]).trans (perm_append_middle _ _ _).symm

theorem InLoop.refill {script : List (ℕ × Joined)} {probes : List SocketAddr}
    (hperm : probes.Perm (s.running ++ s.finished.map Prod.fst))
    (hrounds : script.length + probes.length + s.pending.length = (endpointAttempts p.cfg).length)
    (hloop : ∀ net, Follows p script net → connectCandidate net p.cfg =
      joinLoop net p.cfg (probes.length + s.pending.length) (spawnNext probes s.pending).1
        (spawnNext probes s.pending).2 s.failures) :
    InLoop p s.startNext script (spawnNext probes s.pending).1 := by
  have hlen := spawnNext_length probes s.pending
  have hpending : s.startNext.pending = (spawnNext probes s.pending).2 := by
    rw [(startNext_eq s).2]
    cases s.pending <;> rfl
  refine ⟨startNext_perm hperm, ?_, fun net hnet => ?_⟩
  · rw [hpending]
    omega
  · rw [hpending, hlen, startNext_failures]
    exact hloop net hnet

theorem Sim.init (p : Params) : Sim p (.init p.cfg) := by
  have hphase : (State.init p.cfg).phase = .selecting := by
    simp only [State.init, maxParallelEndpointAttempts, List.replicate, List.foldl, startNext_phase]
  have hfirst := spawnNext_length [] (endpointAttempts p.cfg)
  have hloop : ∃ probes, InLoop p (.init p.cfg) [] probes := by
    simp only [State.init, maxParallelEndpointAttempts, List.replicate, List.foldl]
    refine ⟨_, InLoop.refill (startNext_perm (.refl _)) ?_ fun net _ => ?_⟩
    · rw [(startNext_eq _).2]
      simpa using hfirst
    · rw [startNext_failures, (startNext_eq _).2]
      simp only [connectCandidate, maxParallelEndpointAttempts, List.replicate, List.foldl,
        List.map_nil, List.append_nil, hfirst, List.length_nil, Nat.zero_add]
  obtain ⟨probes, hinit⟩ := hloop
  exact hinit.sim hphase

theorem InLoop.finish {script : List (ℕ × Joined)} {probes : List SocketAddr}
    (h : InLoop p s script probes) {i : ℕ} {e : SocketAddr} {o : Joined}
    (he : s.running[i]? = some e) :
    InLoop p { s with
      running := s.running.eraseIdx i, finished := s.finished ++ [(e, o)],
      ended := s.ended ++ [(e, o)] } script probes :=
  ⟨h.perm.trans (finish_perm he).symm, h.rounds, h.loop⟩

theorem InLoop.choose {script : List (ℕ × Joined)} {probes : List SocketAddr}
    (h : InLoop p s script probes) {i : ℕ} {x : Probe} (hx : s.finished[i]? = some x) :
    ∃ j, probes[j]? = some x.1 ∧
      (probes.eraseIdx j).Perm (s.running ++ (s.finished.eraseIdx i).map Prod.fst) := by
  have hmem : x.1 ∈ probes := by
    apply h.perm.mem_iff.mpr
    exact List.mem_append_right _ (List.mem_map_of_mem (List.mem_of_getElem? hx))
  obtain ⟨j, hj⟩ := List.getElem?_of_mem hmem
  refine ⟨j, hj, ?_⟩
  have hleft := (perm_cons_eraseIdx hj).trans h.perm
  have hright := ((perm_cons_eraseIdx hx).map Prod.fst).append_left s.running
  exact (hleft.trans (hright.symm.trans List.perm_middle)).cons_inv

theorem InLoop.join {script : List (ℕ × Joined)} {probes : List SocketAddr}
    (h : InLoop p s script probes) (hsel : s.phase = .selecting) {i : ℕ} {x : Probe}
    (hx : s.finished[i]? = some x) :
    Sim p (State.joinNext p.cfg
      { s with finished := s.finished.eraseIdx i, joined := s.joined ++ [x] } x) := by
  obtain ⟨j, hj, hperm⟩ := h.choose hx
  have hlen := length_eraseIdx_add_one hj
  have hrounds := h.rounds
  have hscript : (script ++ [(j, x.2)]).length ≤ (endpointAttempts p.cfg).length := by
    rw [List.length_append, List.length_singleton]
    omega
  obtain ⟨m, hm⟩ : ∃ m, m = (endpointAttempts p.cfg).length - 1 - script.length := ⟨_, rfl⟩
  have hcount : probes.length + s.pending.length = m + 1 := by omega
  have hchoice (net : Network) (hnet : Follows p (script ++ [(j, x.2)]) net) :
      connectCandidate net p.cfg = joinLoop net p.cfg (m + 1) probes s.pending s.failures ∧
        net.pick m = j ∧ net.joined m = x.2 := by
    obtain ⟨hfollows, hpick, hjoined⟩ := hnet.of_append
    rw [← hm] at hpick hjoined
    exact ⟨hcount ▸ h.loop net hfollows, hpick, hjoined⟩
  rcases joinNext_cases p.cfg
    { s with finished := s.finished.eraseIdx i, joined := s.joined ++ [x] } x
    with ⟨hconn, heq⟩ | ⟨f, hf, heq⟩
  · rw [heq, Sim, startNext_phase]
    obtain ⟨hloop, hpick, hjoined⟩ := hchoice _ (follower_follows hscript)
    exact ⟨_, hloop.trans (joinLoop_connected hj hpick (hjoined.trans hconn))⟩
  · rw [heq]
    have hloop (net : Network) (hnet : Follows p (script ++ [(j, x.2)]) net) :
        connectCandidate net p.cfg =
        joinLoop net p.cfg ((probes.eraseIdx j).length + s.pending.length)
          (spawnNext (probes.eraseIdx j) s.pending).1 (spawnNext (probes.eraseIdx j) s.pending).2
          (s.failures ++ [f]) := by
      obtain ⟨hloop, hpick, hjoined⟩ := hchoice net hnet
      rw [hloop, joinLoop_failed hj hpick (by rw [hjoined]; exact hf)]
      congr 1
      omega
    refine InLoop.sim (InLoop.refill hperm ?_ hloop) ((startNext_phase _).trans hsel)
    rw [List.length_append, List.length_singleton]
    show script.length + 1 + (probes.eraseIdx j).length + s.pending.length = _
    omega

theorem Sim.step (h : Sim p s) (hs : Step p s s') : Sim p s' := by
  cases hs with
  | finish he =>
    obtain ⟨phase, hphase⟩ : ∃ phase, s.phase = phase := ⟨_, rfl⟩
    cases phase with
    | selecting =>
      simp only [Sim, hphase] at h
      obtain ⟨script, probes, hloop⟩ := h
      exact (hloop.finish he).sim hphase
    | shuttingDown t | returned r => simpa only [Sim, hphase] using h
  | join hsel hx =>
    simp only [Sim, hsel] at h
    obtain ⟨script, probes, hloop⟩ := h
    exact hloop.join hsel hx
  | exhausted hsel hrunning hfinished =>
    simp only [Sim, hsel] at h ⊢
    obtain ⟨script, probes, hloop⟩ := h
    have hnil : probes = [] := by
      have := hloop.perm
      rw [hrunning, hfinished] at this
      exact this.eq_nil
    have hrounds := hloop.rounds
    have hfollows : Follows p script (p.follower script) := follower_follows (by omega)
    refine ⟨_, (hloop.loop _ hfollows).trans ?_⟩
    rw [hnil]
    cases [].length + s.pending.length <;> rfl
  | abort hs _ | reap hs _ => simpa only [Sim, hs] using h
  | ret hs _ _ => simpa only [Sim, hs] using h

/-- Every answer of the race is one of the functional model of the call. -/
theorem race_answers (h : (machine p).Reachable (.init p.cfg) s) {r : Except Error ConnectedTunnel}
    (hr : s.phase = .returned r) : ∃ net, connectCandidate net p.cfg = r := by
  have hsim : Sim p s := h.invariant (Sim.init p) fun _ _ _ ht ha => ht.step (step_cases ha)
  simpa only [Sim, hr] using hsim

end WarpRust.Tunnel.EndpointRace
