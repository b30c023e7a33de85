import WarpRust.Health
import WarpRust.Supervisor.Staleness

/-!
# What an egress verdict rests on

The counted windows go back to recorded dials, an egress verdict to two degraded windows in a
row. Whether the dials are newer than the last recovery is another matter: the open window
and the count of degraded rounds outlive a recovery. What was under way when a recovery
completed is discarded, so the verdicts rest on newer dials if both were empty then.
-/

namespace WarpRust.Health
open Library Egress Warp
open Supervisor (SupervisorEvent World Record Handled)

def Recorded (dials : ℕ) (l : List ℕ) : Prop := ∀ i ∈ l, i < dials

structure Window.Counts (dials : ℕ) (W : Window) : Prop where
  ok_eq : W.counts.ok = W.okDials.length % 2 ^ 64
  failed_eq : W.counts.failed = W.failedDials.length % 2 ^ 64
  recorded : Recorded dials W.dials

def PhaseBooks (dials : ℕ) : Phase → Prop
  | .swapping _ _ _ ok okDials => ok = okDials.length % 2 ^ 64 ∧ Recorded dials okDials
  | _ => True

structure Books (s : State) : Prop where
  ok_eq : s.egress.ok = s.okDials.length % 2 ^ 64
  failed_eq : s.egress.failed = s.failedDials.length % 2 ^ 64
  okDials : Recorded s.dials s.okDials
  failedDials : Recorded s.dials s.failedDials
  phase : PhaseBooks s.dials s.phase
  windows : ∀ W ∈ s.windows, W.Counts s.dials
  rounds_le : s.degradedRounds ≤ s.windows.length
  rounds : ∀ W ∈ s.windows.take s.degradedRounds, W.counts.isDegraded = true

section
variable {cfg : Config} {s s' : State} {a : Action} {dials : ℕ} {l : List ℕ}

theorem Recorded.succ (h : Recorded dials l) : Recorded (dials + 1) l :=
  fun i hi => Nat.lt_succ_of_lt (h i hi)

theorem Recorded.recorded (h : Recorded dials l) : Recorded (dials + 1) (l ++ [dials]) :=
  List.forall_mem_append.mpr ⟨h.succ, List.forall_mem_singleton.mpr (Nat.lt_succ_self _)⟩

theorem Window.Counts.succ {W : Window} (h : W.Counts dials) : W.Counts (dials + 1) :=
  ⟨h.ok_eq, h.failed_eq, h.recorded.succ⟩

theorem PhaseBooks.succ {phase : Phase} (h : PhaseBooks dials phase) :
    PhaseBooks (dials + 1) phase := by
  cases phase with
  | swapping => exact ⟨h.1, h.2.succ⟩
  | waiting => trivial
  | probing => trivial
  | sending => trivial

theorem Books.record (h : Books s) (success : Bool) : Books (s.record success) := by
  have hnext {n : ℕ} {l : List ℕ} (hn : n = l.length % 2 ^ 64) :
      (n + 1) % 2 ^ 64 = (l ++ [s.dials]).length % 2 ^ 64 := by
    rw [hn, Nat.mod_add_mod, List.length_append, List.length_singleton]
  have hwindows : ∀ W ∈ s.windows, W.Counts (s.dials + 1) := fun W hW => (h.windows W hW).succ
  cases success with
  | true =>
    exact ⟨hnext h.ok_eq, h.failed_eq, h.okDials.recorded, h.failedDials.succ, h.phase.succ,
      hwindows, h.rounds_le, h.rounds⟩
  | false =>
    exact ⟨h.ok_eq, hnext h.failed_eq, h.okDials.succ, h.failedDials.recorded, h.phase.succ,
      hwindows, h.rounds_le, h.rounds⟩

theorem nextRounds_le (n : ℕ) (w : EgressWindow) : nextRounds n w ≤ n + 1 := by
  unfold nextRounds
  split
  · exact Nat.min_le_left _ _
  · exact Nat.zero_le _

theorem Books.nextRounds (h : Books s) (W : Window) :
    nextRounds s.degradedRounds W.counts ≤ (W :: s.windows).length ∧
      ∀ V ∈ (W :: s.windows).take (nextRounds s.degradedRounds W.counts),
        V.counts.isDegraded = true := by
  constructor
  · exact Nat.le_trans (nextRounds_le _ _) (Nat.succ_le_succ h.rounds_le)
  · intro V hV
    cases hW : W.counts.isDegraded with
    | false =>
      have hzero : Health.nextRounds s.degradedRounds W.counts = 0 := by
        simp [Health.nextRounds, hW]
      rw [hzero] at hV
      cases hV
    | true =>
      have hsucc := List.take_subset_take_left (W :: s.windows)
        (nextRounds_le s.degradedRounds W.counts) hV
      rw [List.take_succ_cons] at hsucc
      rcases List.mem_cons.mp hsucc with rfl | hmem
      · exact hW
      · exact h.rounds V hmem

theorem verdict_rounds (o : Instant) (st : Option Duration) (p : Except Error Unit)
    (w : EgressWindow) (n : ℕ) : (verdict o st p w n).2.1 = n ∨ (verdict o st p w n).2.1 = 0 := by
  unfold verdict
  split
  next => exact .inl rfl
  next => exact .inl rfl
  next =>
    split
    · exact .inr rfl
    · exact .inl rfl

theorem Books.judge (h : Books s) {o : Instant} {st : Option Duration} {p : Except Error Unit}
    {ok : ℕ} {okDials : List ℕ} (hphase : s.phase = .swapping o st p ok okDials) :
    Books (s.judge o st p ⟨⟨ok, s.egress.failed⟩, okDials, s.failedDials⟩) := by
  have hswapped := h.phase
  rw [hphase] at hswapped
  obtain ⟨hlen, hrounds⟩ := h.nextRounds ⟨⟨ok, s.egress.failed⟩, okDials, s.failedDials⟩
  have hverdict := verdict_rounds o st p ⟨ok, s.egress.failed⟩
    (Health.nextRounds s.degradedRounds ⟨ok, s.egress.failed⟩)
  refine ⟨h.ok_eq, rfl, h.okDials, nofun, trivial, ?_, ?_, ?_⟩
  · exact List.forall_mem_cons.mpr ⟨⟨hswapped.1, h.failed_eq,
      List.forall_mem_append.mpr ⟨hswapped.2, h.failedDials⟩⟩, h.windows⟩
  · change (verdict _ _ _ _ _).2.1 ≤ _
    rcases hverdict with hv | hv
    · rw [hv]
      exact hlen
    · rw [hv]
      exact Nat.zero_le _
  · intro W hW
    change W ∈ List.take (verdict _ _ _ _ _).2.1 _ at hW
    rcases hverdict with hv | hv
    · rw [hv] at hW
      exact hrounds W hW
    · rw [hv] at hW
      cases hW

theorem Books.start (w : World) : Books (State.start w) where
  ok_eq := rfl
  failed_eq := rfl
  okDials := nofun
  failedDials := nofun
  phase := trivial
  windows := nofun
  rounds_le := le_rfl
  rounds := nofun

theorem step_books (hstep : Step cfg s a s') (h : Books s) : Books s' := by
  cases hstep with
  | tick | refresh | recv | finish => exact { h with }
  | record => exact h.record _
  | round => exact { h with phase := trivial }
  | probed => exact { h with ok_eq := rfl, okDials := nofun, phase := ⟨h.ok_eq, h.okDials⟩ }
  | judge hphase => exact h.judge hphase
  | send => exact { h with phase := trivial }

end

structure Evidence (dials : ℕ) (windows : List Window) (newer older : Window) :
    Prop where
  consecutive : [newer, older] <:+: windows
  counts : newer.Counts dials ∧ older.Counts dials
  degraded : newer.counts.isDegraded = true ∧ older.counts.isDegraded = true

def Rests (dials : ℕ) (windows : List Window) (e : SupervisorEvent)
    (evidence : Option (List Window)) : Prop :=
  ∀ w o, e = .probeFailed (egressReason w) o →
    ∃ newer older, evidence = some [newer, older] ∧ Evidence dials windows newer older

def PhaseTags (dials : ℕ) (windows : List Window) : Phase → Prop
  | .swapping _ _ probe _ _ => ∃ n results, probe = probeTargets n results
  | .sending e evidence => Rests dials windows e evidence
  | _ => True

structure Tags (s : State) : Prop where
  queued : List.Forall₂ (Rests s.dials s.windows) s.supervisor.queue s.queued
  handling : ∀ e, s.supervisor.handling = some e → Rests s.dials s.windows e s.handling
  phase : PhaseTags s.dials s.windows s.phase

section
variable {cfg : Config} {s s' : State} {a : Action} {e : SupervisorEvent}
  {evidence : Option (List Window)} {dials : ℕ} {windows : List Window}

theorem Rests.succ (h : Rests dials windows e evidence) :
    Rests (dials + 1) windows e evidence := by
  intro w o he
  obtain ⟨newer, older, htag, hevidence⟩ := h w o he
  obtain ⟨hnewer, holder⟩ := hevidence.counts
  exact ⟨newer, older, htag, { hevidence with counts := ⟨hnewer.succ, holder.succ⟩ }⟩

theorem Rests.cons (h : Rests dials windows e evidence) (W : Window) :
    Rests dials (W :: windows) e evidence := by
  intro w o he
  obtain ⟨newer, older, htag, hevidence⟩ := h w o he
  exact ⟨newer, older, htag,
    { hevidence with consecutive := List.infix_cons hevidence.consecutive }⟩

theorem PhaseTags.succ {phase : Phase} (h : PhaseTags dials windows phase) :
    PhaseTags (dials + 1) windows phase := by
  cases phase with
  | swapping => exact h
  | sending => exact Rests.succ h
  | waiting => trivial
  | probing => trivial

theorem probeTargets_text {n : ℕ} {results : List TargetResult} {f : Error} (w : EgressWindow)
    (h : probeTargets n results = .error f) : f.text ≠ egressReason w := by
  dsimp only [probeTargets] at h
  split at h
  next => cases h
  next =>
    obtain rfl := Except.error.inj h
    intro htext
    exact absurd (List.cons.inj htext).1 (by decide)

theorem verdict_egress {o o' : Instant} {st : Option Duration} {n m : ℕ}
    {results : List TargetResult} {w u : EgressWindow}
    (h : (verdict o st (probeTargets n results) w m).1 = .probeFailed (egressReason u) o') :
    egressDegradedRounds ≤ m ∧ (verdict o st (probeTargets n results) w m).2.2 = true := by
  unfold verdict at *
  split at h
  next =>
    obtain ⟨htext, _⟩ := SupervisorEvent.probeFailed.inj h
    exact absurd (List.cons.inj htext).1 (by decide)
  next _ f hf =>
    obtain ⟨htext, _⟩ := SupervisorEvent.probeFailed.inj h
    exact absurd htext (probeTargets_text u hf)
  next hprobe =>
    by_cases hm : egressDegradedRounds ≤ m
    · exact ⟨hm, by rw [if_pos hm]⟩
    · rw [if_neg hm] at h
      cases h

theorem Books.rests (h : Books s) {o : Instant} {st : Option Duration} {n : ℕ}
    {results : List TargetResult} {ok : ℕ} {okDials : List ℕ}
    (hphase : s.phase = .swapping o st (probeTargets n results) ok okDials) {W : Window}
    (hW : W = ⟨⟨ok, s.egress.failed⟩, okDials, s.failedDials⟩) :
    PhaseTags s.dials (W :: s.windows) (s.judge o st (probeTargets n results) W).phase := by
  intro w o' he
  obtain ⟨hrounds, hflag⟩ := verdict_egress he
  obtain ⟨hlen, hdegraded⟩ := h.nextRounds W
  have hbooks := h.judge hphase
  rw [← hW] at hbooks
  obtain ⟨older, rest, hwindows⟩ : ∃ older rest, s.windows = older :: rest := by
    apply List.exists_cons_of_length_pos
    have htwo : 2 ≤ s.windows.length + 1 := Nat.le_trans hrounds hlen
    omega
  have htake : (W :: s.windows).take egressDegradedRounds = [W, older] := by
    rw [hwindows]
    rfl
  have hpair : ∀ V ∈ [W, older], V ∈ W :: s.windows ∧ V.counts.isDegraded = true := by
    intro V hV
    rw [← htake] at hV
    exact ⟨List.mem_of_mem_take hV, hdegraded V (List.take_subset_take_left _ hrounds hV)⟩
  obtain ⟨hnewer, hnewerDegraded⟩ := hpair W List.mem_cons_self
  obtain ⟨holder, holderDegraded⟩ := hpair older (List.mem_cons_of_mem _ List.mem_cons_self)
  refine ⟨W, older, ?_, ?_⟩
  · rw [hflag, if_pos rfl, htake]
  · refine ⟨?_, ⟨hbooks.windows W hnewer, hbooks.windows older holder⟩,
      ⟨hnewerDegraded, holderDegraded⟩⟩
    rw [← htake]
    exact (List.take_prefix _ _).isInfix

theorem Tags.start (w : World) : Tags (State.start w) := ⟨.nil, nofun, trivial⟩

theorem step_tags (hstep : Step cfg s a s') (hbooks : Books s) (h : Tags s) : Tags s' := by
  cases hstep with
  | tick => exact ⟨h.queued, h.handling, h.phase⟩
  | refresh ht =>
    cases Supervisor.step_cases ht with
    | send => exact ⟨List.rel_append h.queued (.cons nofun .nil), h.handling, h.phase⟩
  | recv ht =>
    cases Supervisor.step_cases ht with
    | recv hq =>
      have hqueued := h.queued
      rw [hq] at hqueued
      obtain ⟨tag, tags, htag, htags, heq⟩ := List.forall₂_cons_left_iff.mp hqueued
      rw [heq]
      refine ⟨htags, ?_, h.phase⟩
      intro e he
      obtain rfl := Option.some.inj he
      exact htag
  | finish ht =>
    cases Supervisor.step_cases ht with
    | finish => exact ⟨h.queued, nofun, h.phase⟩
  | record =>
    exact ⟨h.queued.imp fun _ _ hrests => hrests.succ, fun e he => (h.handling e he).succ,
      h.phase.succ⟩
  | round => exact ⟨h.queued, h.handling, trivial⟩
  | probed => exact ⟨h.queued, h.handling, _, _, rfl⟩
  | judge hphase =>
    have hprobe := h.phase
    rw [hphase] at hprobe
    obtain ⟨n, results, rfl⟩ := hprobe
    exact ⟨h.queued.imp fun _ _ hrests => hrests.cons _, fun e he => (h.handling e he).cons _,
      hbooks.rests hphase rfl⟩
  | send hphase ht =>
    have hevent := h.phase
    rw [hphase] at hevent
    cases Supervisor.step_cases ht with
    | send => exact ⟨List.rel_append h.queued (.cons hevent .nil), h.handling, trivial⟩

end

/-! ### Dials from before a recovery -/

def Phase.okDials : Phase → List ℕ
  | .swapping _ _ _ _ okDials => okDials
  | _ => []

def State.openDials (s : State) : List ℕ := s.phase.okDials ++ s.okDials ++ s.failedDials

def From (n : ℕ) (l : List ℕ) : Prop := ∀ i ∈ l, n ≤ i

def Few (l : List ℕ) : Prop := l.length < 2 ^ 53

instance decidableFew (l : List ℕ) : Decidable (Few l) := inferInstanceAs (Decidable (_ < _))

/-- Seen by `now`, and outdated by the mark or resting on dials from number `n` on. -/
def Current (now : Instant) (mark : Option Instant) (n : ℕ) (e : SupervisorEvent)
    (evidence : Option (List Window)) : Prop :=
  ∀ o, e.observedAt? = some o → o ≤ now ∧
    ((∃ m ∈ mark, o ≤ m) ∨ ∀ windows ∈ evidence, ∀ W ∈ windows, From n W.dials)

def PhaseCurrent (now : Instant) (mark : Option Instant) (n : ℕ) : Phase → Prop
  | .waiting => True
  | .probing o _ | .swapping o _ _ _ _ => o ≤ now
  | .sending e evidence => Current now mark n e evidence

def State.mark (s : State) : Option Instant := s.supervisor.world.lastRecoveryCompleted

def State.Current (s : State) : SupervisorEvent → Option (List Window) → Prop :=
  Health.Current s.supervisor.now s.mark s.recovered

/-- Whatever may still lead to an action rests on dials from after the last recovery. -/
structure Fresh (s : State) : Prop where
  recovered_le : s.recovered ≤ s.dials
  openDials : From s.recovered s.openDials
  small : ∀ W ∈ s.windows, Few W.dials
  rounds : ∀ W ∈ s.windows.take s.degradedRounds, From s.recovered W.dials
  phase : PhaseCurrent s.supervisor.now s.mark s.recovered s.phase
  queued : List.Forall₂ s.Current s.supervisor.queue s.queued
  handling : ∀ e, s.supervisor.handling = some e → s.Current e s.handling

/-- A recovery that completes in this step finds no degraded round and no dial in the open
window, and fewer than `2 ^ 53` dials wait there. -/
structure Clean (x : Taken State Action) : Prop where
  settled : recoveries x.before.supervisor.world < recoveries x.after.supervisor.world →
    x.before.degradedRounds = 0 ∧ x.before.openDials = []
  small : Few x.before.openDials

instance decidableClean (x : Taken State Action) : Decidable (Clean x) :=
  decidable_of_iff
    ((recoveries x.before.supervisor.world < recoveries x.after.supervisor.world →
      x.before.degradedRounds = 0 ∧ x.before.openDials = []) ∧ Few x.before.openDials)
    ⟨fun h => ⟨h.1, h.2⟩, fun h => ⟨h.1, h.2⟩⟩

section
variable {cfg : Config} {s s' : State} {a : Action} {e : SupervisorEvent} {env : Env}
  {evidence : Option (List Window)} {now now' : Instant} {mark : Option Instant} {n : ℕ}
  {w w' : World} {r : Except Fault Unit}

theorem recoveries_ended {task : Supervisor.Task} {f : Fault} :
    recoveries (w.ended task (.error f)) = recoveries w := by
  cases f with
  | err e => cases task <;> simp [recoveries, World.ended, World.noted]
  | panic => rfl

theorem recoveries_started {task : Supervisor.Task} (h : w'.log = w.log ++ [.started task]) :
    recoveries w' = recoveries w := by
  simp [recoveries, h]

theorem handled_mark (h : Handled cfg env w e r w') :
    w'.lastRecoveryCompleted = w.lastRecoveryCompleted ∧ recoveries w' = recoveries w ∨
      w'.lastRecoveryCompleted = some w'.host.now ∧ recoveries w < recoveries w' := by
  cases h with
  | stale => exact .inl ⟨rfl, rfl⟩
  | probeOk => exact .inl ⟨rfl, rfl⟩
  | waited => exact .inl ⟨rfl, rfl⟩
  | @recovery _ _ _ w₁ _ _ hw =>
    have hlog : recoveries w₁ = recoveries w := recoveries_started hw.log_eq
    cases r with
    | ok _ =>
      refine .inr ⟨rfl, ?_⟩
      rw [← hlog]
      simp [recoveries, World.settled, World.noted]
    | error f =>
      refine .inl ⟨World.ended_mark.trans hw.mark_eq, ?_⟩
      exact recoveries_ended.trans hlog
  | @refresh r w₁ hw =>
    have hlog : recoveries w₁ = recoveries w := recoveries_started hw.log_eq
    refine .inl ⟨World.ended_mark.trans hw.mark_eq, ?_⟩
    rw [← hlog]
    cases r with
    | ok _ => simp [recoveries, World.ended, World.noted]
    | error f => exact recoveries_ended

theorem Current.mono (h : Current now mark n e evidence) (hnow : now ≤ now') :
    Current now' mark n e evidence := fun o ho => ⟨(h o ho).1.trans hnow, (h o ho).2⟩

theorem Current.outdate (h : Current now mark n e evidence) (m : ℕ) :
    Current now (some now) m e evidence :=
  fun o ho => ⟨(h o ho).1, .inl ⟨now, rfl, (h o ho).1⟩⟩

theorem PhaseCurrent.mono {phase : Phase} (h : PhaseCurrent now mark n phase) (hnow : now ≤ now') :
    PhaseCurrent now' mark n phase := by
  cases phase with
  | waiting => trivial
  | probing => exact h.trans hnow
  | swapping => exact h.trans hnow
  | sending => exact Current.mono h hnow

theorem PhaseCurrent.outdate {phase : Phase} (h : PhaseCurrent now mark n phase) (m : ℕ) :
    PhaseCurrent now (some now) m phase := by
  cases phase with
  | waiting => trivial
  | probing => exact h
  | swapping => exact h
  | sending => exact Current.outdate h m

theorem Fresh.start (w : World) : Fresh (State.start w) where
  recovered_le := le_rfl
  openDials := nofun
  small := nofun
  rounds := nofun
  phase := trivial
  queued := .nil
  handling := nofun

theorem Fresh.record (h : Fresh s) (success : Bool) : Fresh (s.record success) := by
  have hopen : From s.recovered (s.record success).openDials := by
    intro i hi
    have hcases : i ∈ s.openDials ∨ i = s.dials := by
      cases success <;> simp [State.openDials, State.record] at hi ⊢ <;> tauto
    rcases hcases with hi | rfl
    · exact h.openDials i hi
    · exact h.recovered_le
  exact { h with recovered_le := h.recovered_le.trans (Nat.le_succ _), openDials := hopen }

theorem Fresh.round (h : Fresh s) (hphase : s.phase = .waiting) (nextTick : Instant)
    (st : Option Duration) :
    Fresh { s with nextTick := nextTick, phase := .probing s.supervisor.now st } := by
  have hopen := h.openDials
  rw [State.openDials, hphase] at hopen
  have hnow : s.supervisor.now ≤ s.supervisor.now := le_rfl
  exact { h with openDials := hopen, phase := hnow }

theorem verdict_observedAt (o : Instant) (st : Option Duration) (p : Except Error Unit)
    (w : EgressWindow) (n : ℕ) : (verdict o st p w n).1.observedAt? = some o := by
  unfold verdict
  split
  next => rfl
  next => rfl
  next => split <;> rfl

theorem le_of_verdict {o : Instant} {st : Option Duration} {p : Except Error Unit}
    {w : EgressWindow} (h : (verdict o st p w n).2.2 = true) : egressDegradedRounds ≤ n := by
  unfold verdict at h
  split at h
  next => cases h
  next => cases h
  next =>
    split at h
    next hn => exact hn
    next => cases h

theorem Fresh.judge (h : Fresh s) {o : Instant} {st : Option Duration} {p : Except Error Unit}
    {ok : ℕ} {okDials : List ℕ} (hphase : s.phase = .swapping o st p ok okDials)
    (hsmall : Few s.openDials) :
    Fresh (s.judge o st p ⟨⟨ok, s.egress.failed⟩, okDials, s.failedDials⟩) := by
  have hopen : s.openDials = okDials ++ s.okDials ++ s.failedDials := by
    rw [State.openDials, hphase]
    rfl
  have hfrom := h.openDials
  rw [hopen] at hsmall hfrom
  have hW : From s.recovered (okDials ++ s.failedDials) := fun i hi =>
    hfrom i (by simp only [List.mem_append] at hi ⊢; tauto)
  have htake {k : ℕ} (hk : k ≤ nextRounds s.degradedRounds ⟨ok, s.egress.failed⟩) :
      ∀ V ∈ (⟨⟨ok, s.egress.failed⟩, okDials, s.failedDials⟩ :: s.windows : List Window).take k,
        From s.recovered V.dials := by
    intro V hV
    have hsucc := List.take_subset_take_left _ (hk.trans (nextRounds_le _ _)) hV
    rw [List.take_succ_cons] at hsucc
    rcases List.mem_cons.mp hsucc with rfl | hmem
    · exact hW
    · exact h.rounds V hmem
  have ho : o ≤ s.supervisor.now := by
    have := h.phase
    rwa [hphase] at this
  refine ⟨h.recovered_le, ?_, ?_, ?_, ?_, h.queued, h.handling⟩
  · exact fun i hi => hfrom i (by
      simp only [State.openDials, State.judge, Phase.okDials, List.mem_append] at hi ⊢
      tauto)
  · refine List.forall_mem_cons.mpr ⟨?_, h.small⟩
    simp only [Few, Window.dials, List.length_append] at hsmall ⊢
    omega
  · rcases verdict_rounds o st p ⟨ok, s.egress.failed⟩
        (nextRounds s.degradedRounds ⟨ok, s.egress.failed⟩) with hv | hv
    · exact htake hv.le
    · exact htake (hv.trans_le (Nat.zero_le _))
  · intro o' ho'
    obtain rfl := Option.some.inj ((verdict_observedAt _ _ _ _ _).symm.trans ho')
    refine ⟨ho, .inr fun windows hwindows => ?_⟩
    split at hwindows
    · next hflag =>
      obtain rfl := Option.some.inj hwindows
      exact htake (le_of_verdict hflag)
    · cases hwindows

structure Finished (s t : Supervisor.State) : Prop where
  now : t.now = s.now
  queue : t.queue = s.queue
  idle : t.handling = none
  mark : t.world.lastRecoveryCompleted = s.world.lastRecoveryCompleted ∧
      recoveries t.world = recoveries s.world ∨
    t.world.lastRecoveryCompleted = some s.now ∧ recoveries s.world < recoveries t.world

theorem finished {s t : Supervisor.State} (h : Supervisor.step cfg s (.finish env) = some t) :
    Finished s t := by
  cases Supervisor.step_cases h with
  | finish _ hw hnow =>
    have hmark := handled_mark hw
    rw [hnow] at hmark
    exact ⟨rfl, rfl, rfl, hmark⟩

/-- A recovery that completes leaves nothing that could still count: what is under way was seen
before the mark, and neither the rounds nor the open window have anything. -/
theorem Fresh.finish (h : Fresh s) {t : Supervisor.State} (ht : Finished s.supervisor t)
    (hsettled : recoveries s.supervisor.world < recoveries t.world →
      s.degradedRounds = 0 ∧ s.openDials = []) : Fresh (s.finish t) := by
  have hidle : ∀ e, (s.finish t).supervisor.handling = some e →
      (s.finish t).Current e (s.finish t).handling := by
    intro e he
    cases ht.idle.symm.trans he
  rcases ht.mark with ⟨hmark, hcount⟩ | ⟨hmark, hcount⟩
  · have hrec : (s.finish t).recovered = s.recovered :=
      if_neg (by rw [hcount]; exact Nat.lt_irrefl _)
    have hcur : (s.finish t).Current = s.Current := by
      rw [State.Current, State.Current, hrec]
      exact congrArg₂ (Health.Current · · s.recovered) ht.now hmark
    have hphase : PhaseCurrent (s.finish t).supervisor.now (s.finish t).mark s.recovered
        s.phase := by
      rw [show (s.finish t).supervisor.now = s.supervisor.now from ht.now,
        show (s.finish t).mark = s.mark from hmark]
      exact h.phase
    refine ⟨?_, ?_, h.small, ?_, ?_, ?_, hidle⟩
    · exact hrec.trans_le h.recovered_le
    · rw [hrec]
      exact h.openDials
    · rw [hrec]
      exact h.rounds
    · rw [hrec]
      exact hphase
    · rw [hcur]
      exact ht.queue ▸ h.queued
  · obtain ⟨hrounds, hopen⟩ := hsettled hcount
    have hrec : (s.finish t).recovered = s.dials := if_pos hcount
    have hcur : (s.finish t).Current =
        Health.Current s.supervisor.now (some s.supervisor.now) s.dials := by
      rw [State.Current, hrec]
      exact congrArg₂ (Health.Current · · s.dials) ht.now hmark
    refine ⟨hrec.le, ?_, h.small, ?_, ?_, ?_, hidle⟩
    · intro i hi
      change i ∈ s.openDials at hi
      rw [hopen] at hi
      cases hi
    · intro W hW
      change W ∈ s.windows.take s.degradedRounds at hW
      rw [hrounds] at hW
      cases hW
    · rw [hrec, show (s.finish t).supervisor.now = s.supervisor.now from ht.now,
        show (s.finish t).mark = some s.supervisor.now from hmark]
      exact h.phase.outdate _
    · rw [hcur]
      exact ht.queue ▸ h.queued.imp fun _ _ hc => hc.outdate _

theorem step_fresh (hstep : Step cfg s a s') (h : Fresh s) (hclean : Clean ⟨s, a, s'⟩) :
    Fresh s' := by
  cases hstep with
  | @tick d =>
    have hle : s.supervisor.now ≤ s.supervisor.now + d := Nat.le_add_right _ _
    exact { h with
      phase := h.phase.mono hle
      queued := h.queued.imp fun _ _ hc => hc.mono hle
      handling := fun e he => (h.handling e he).mono hle }
  | refresh ht =>
    cases Supervisor.step_cases ht with
    | send => exact { h with queued := List.rel_append h.queued (.cons nofun .nil) }
  | recv ht =>
    cases Supervisor.step_cases ht with
    | recv hq =>
      have hqueued := h.queued
      rw [hq] at hqueued
      obtain ⟨tag, tags, htag, htags, heq⟩ := List.forall₂_cons_left_iff.mp hqueued
      rw [heq]
      refine { h with queued := htags, handling := fun e he => ?_ }
      obtain rfl := Option.some.inj he
      exact htag
  | finish ht => exact h.finish (finished ht) hclean.settled
  | record => exact h.record _
  | round hphase => exact h.round hphase _ _
  | @probed results o st hphase =>
    have hopen : s.openDials = [] ++ s.okDials ++ s.failedDials := by
      rw [State.openDials, hphase]
      rfl
    have hseen := h.phase
    rw [hphase] at hseen
    have hfrom := h.openDials
    rw [hopen] at hfrom
    refine { h with openDials := ?_, phase := hseen }
    intro i hi
    simp only [State.openDials, Phase.okDials, List.append_nil] at hi
    exact hfrom i hi
  | judge hphase => exact h.judge hphase hclean.small
  | send hphase ht =>
    have hopen := h.openDials
    have hevent := h.phase
    rw [State.openDials, hphase] at hopen
    rw [hphase] at hevent
    cases Supervisor.step_cases ht with
    | send =>
      exact { h with
        openDials := hopen
        phase := trivial
        queued := List.rel_append h.queued (.cons hevent .nil) }

end

/-! ### What the supervisor acts on -/

structure Acted (env : Env) (w : EgressWindow) (o : Instant) (x : Taken State Action) : Prop where
  action_eq : x.action = .supervisor (.finish env)
  handling : x.before.supervisor.handling = some (.probeFailed (egressReason w) o)
  fresh : x.before.supervisor.world.probeIsStale o = false

structure Window.Backs (s : State) (W : Window) : Prop where
  counts_eq : W.counts = ⟨W.okDials.length, W.failedDials.length⟩
  degraded : W.counts.Degraded
  recorded : Recorded s.dials W.dials
  fresh : From s.recovered W.dials

def Backed (x : Taken State Action) : Prop :=
  ∀ env w o, Acted env w o x → ∃ newer older, x.before.handling = some [newer, older] ∧
    [newer, older] <:+: x.before.windows ∧ newer.Backs x.before ∧ older.Backs x.before

theorem Window.Counts.backs {s : State} {W : Window} (h : W.Counts s.dials)
    (hdegraded : W.counts.isDegraded = true) (hsmall : Few W.dials)
    (hfresh : From s.recovered W.dials) : W.Backs s := by
  rw [Few, Window.dials, List.length_append] at hsmall
  have hcounts : W.counts = ⟨W.okDials.length, W.failedDials.length⟩ := by
    have hok : W.okDials.length < 2 ^ 64 := by omega
    have hfailed : W.failedDials.length < 2 ^ 64 := by omega
    rw [← Nat.mod_eq_of_lt hok, ← Nat.mod_eq_of_lt hfailed, ← h.ok_eq, ← h.failed_eq]
  have htotal : W.counts.ok + W.counts.failed < 2 ^ 53 := by
    rw [hcounts]
    exact hsmall
  exact ⟨hcounts, (EgressWindow.isDegraded_iff htotal).mp hdegraded, h.recorded, hfresh⟩

/-- Over every run: if each recovery that completes finds no degraded round and an empty open
window, the supervisor acts on fresh evidence only. -/
theorem egress_verdict_backed {cfg : Config} {w : World} {l : List (Taken State Action)}
    {s : State} (h : (machine cfg).Exec (State.start w) l s) (hclean : ∀ x ∈ l, Clean x) :
    ∀ x ∈ l, Backed x := by
  intro x hx env w o hacted
  obtain ⟨l₁, l₂, rfl⟩ := List.append_of_mem hx
  obtain ⟨hbefore, _⟩ := h.split
  have hinv : Books x.before ∧ Tags x.before ∧ Fresh x.before := by
    refine hbefore.invariant (I := fun s => Books s ∧ Tags s ∧ Fresh s)
      ⟨Books.start _, Tags.start _, Fresh.start _⟩
      (fun y hy => hclean y (List.mem_append_left _ hy)) ?_
    intro y ⟨hbooks, htags, hfresh⟩ hy ha
    exact ⟨step_books (step_cases ha) hbooks, step_tags (step_cases ha) hbooks htags,
      step_fresh (step_cases ha) hfresh hy⟩
  obtain ⟨_, htags, hfresh⟩ := hinv
  obtain ⟨newer, older, htag, hevidence⟩ := htags.handling _ hacted.handling w o rfl
  obtain ⟨hnewer, holder⟩ := hevidence.counts
  have hfrom : ∀ W ∈ [newer, older], From x.before.recovered W.dials := by
    rcases (hfresh.handling _ hacted.handling o rfl).2 with ⟨m, hm, hle⟩ | hall
    · have hstale := Supervisor.World.probeIsStale_iff.mpr ⟨m, hm, hle⟩
      rw [hacted.fresh] at hstale
      cases hstale
    · exact hall _ htag
  have hmem : ∀ W ∈ [newer, older], W ∈ x.before.windows := hevidence.consecutive.subset
  exact ⟨newer, older, htag, hevidence.consecutive,
    hnewer.backs hevidence.degraded.1 (hfresh.small _ (hmem _ List.mem_cons_self))
      (hfrom _ List.mem_cons_self),
    holder.backs hevidence.degraded.2
      (hfresh.small _ (hmem _ (List.mem_cons_of_mem _ List.mem_cons_self)))
      (hfrom _ (List.mem_cons_of_mem _ List.mem_cons_self))⟩

section samples
open Supervisor (Env.sample Process.sample World.sample sample_boot backoffDelay)

def lostDials (n : ℕ) : List Action := List.replicate n (.record false)

def probeRound (answered : Bool) : List Action :=
  let target : SocketAddr := .v4 (v4 1 1 1 1) 443
  let result := if answered then .ok target else .failed target .tunnelNotReady
  [.round none, .probed (List.replicate 3 result), .judge, .send, .supervisor .recv]

def handled (d : Duration) : List Action :=
  [.supervisor (.tick d), .supervisor (.finish Env.sample)]

/-- The dials fail through the first tunnel and through its successor. The first round finds
the targets dead as well, and the tunnel is replaced; the second round finds them alive but its
window degraded, and the failures of the first tunnel make it the second such round. -/
theorem degraded_round_outlives_recovery :
    (Config.default none).validateWith ⟨false, none⟩ false false = .ok () ∧
      (Process.sample []).boot (Config.default none) = .ok (World.sample []) ∧
      ∃ l s, (machine (Config.default none)).Exec (State.start (World.sample [])) l s ∧
        ¬ ∀ x ∈ l, Backed x := by
  have hrun : ∃ t ∈ (machine (Config.default none)).run (State.start (World.sample []))
      (lostDials 20 ++ probeRound false ++ handled (backoffDelay .default 1) ++
        [.supervisor (.tick (.fromSecs 10))] ++ lostDials 20 ++
        [.supervisor (.tick (.fromSecs 20))] ++ probeRound true ++
        [.supervisor (.tick (backoffDelay .default 2))]),
      ((machine (Config.default none)).step t (.supervisor (.finish Env.sample))).isSome = true ∧
      t.supervisor.handling =
        some (.probeFailed (egressReason ⟨0, 20⟩) (Duration.fromMillis 30500)) ∧
      t.supervisor.world.probeIsStale (Duration.fromMillis 30500) = false ∧
      ∃ windows ∈ t.handling, ∃ W ∈ windows, ∃ i ∈ W.dials, i < t.recovered := by
    decide +kernel
  obtain ⟨t, ht, hstep, hhandling, hfresh, windows, hwindows, W, hW, i, hi, hlt⟩ := hrun
  obtain ⟨l, hl, _⟩ := Machine.exec_of_run _ ht
  obtain ⟨u, hu⟩ := Option.isSome_iff_exists.mp hstep
  refine ⟨Config.default_valid, sample_boot _, _, u, hl.snoc hu, ?_⟩
  intro hall
  obtain ⟨newer, older, htag, _, hnewer, holder⟩ :=
    hall _ List.mem_concat_self _ _ _ ⟨rfl, hhandling, hfresh⟩
  obtain rfl := Option.some.inj (hwindows.symm.trans htag)
  have hback : W.Backs t := by
    rcases List.mem_pair.mp hW with rfl | rfl
    · exact hnewer
    · exact holder
  exact absurd (hback.fresh i hi) (Nat.not_le_of_lt hlt)

/-- The recovery comes before any business dial, and the two degraded windows after it. -/
theorem egress_verdict_backed_two_windows :
    ∃ l s, (machine (Config.default none)).Exec (State.start (World.sample [])) l s ∧
      s.supervisor.world.lastRecoveryCompleted = some (Duration.fromSecs 61) ∧
      ∀ x ∈ l, Backed x := by
  have hrun : ∃ t ∈ (machine (Config.default none)).runWith (fun x => decide (Clean x))
      (State.start (World.sample []))
      (probeRound false ++ handled (backoffDelay .default 1) ++
        [.supervisor (.tick (.fromSecs 10))] ++ lostDials 20 ++
        [.supervisor (.tick (.fromSecs 20))] ++ probeRound true ++ handled 0 ++
        [.supervisor (.tick (.fromSecs 10))] ++ lostDials 20 ++
        [.supervisor (.tick (.fromSecs 20))] ++ probeRound true ++
        handled (backoffDelay .default 1)),
      t.supervisor.world.lastRecoveryCompleted = some (Duration.fromSecs 61) := by
    decide +kernel
  obtain ⟨t, ht, hmark⟩ := hrun
  obtain ⟨l, hl, hclean⟩ := Machine.exec_of_runWith _ ht
  exact ⟨l, t, hl, hmark, egress_verdict_backed hl fun x hx => of_decide_eq_true (hclean x hx)⟩

end samples

end WarpRust.Health
