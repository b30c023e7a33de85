import Mathlib.Data.List.Basic
import WarpRust.Basic
import WarpRust.Library.Machine

/-!
# The config watcher

`run` of `config_watch` between the file system and the log. A write of the watched file makes
a new version of it; a load judges the version that is on disk then. Every notice is delivered:
the queue is never full.
-/

namespace WarpRust.ConfigWatch
open Library

inductive EventKind where
  | any
  | access
  | create
  | modify
  | remove
  | other
  deriving DecidableEq

structure Event where
  kind : EventKind
  paths : List String

/-- `notify::Result<Event>` -/
abbrev Notice := Except Error Event

def queueCapacity : ℕ := 128
def debounce : Duration := .fromMillis 250
def settle : Duration := .fromMillis 100

def EventKind.isWrite : EventKind → Bool
  | .modify | .create | .remove => true
  | _ => false

def isTarget (configPath : String) : Notice → Bool
  | .ok e => e.paths.any (· == configPath) && e.kind.isWrite
  | .error _ => false

structure Load where
  time : Instant
  version : ℕ

inductive Phase where
  | waiting
  | settling (wake : Instant)
  | stopped
  deriving DecidableEq

def Phase.isSettling : Phase → Bool
  | .settling _ => true
  | _ => false

/-- A notice in the queue. The rest is history: the version it was sent for, when, and whether
the watcher was in a settling sleep then. -/
structure Queued where
  notice : Notice
  version : ℕ
  made : Instant
  settling : Bool

/-- `version` counts the writes of the file, the last of them at `changed`; `loads` is the log. -/
structure State where
  now : Instant
  version : ℕ
  changed : Instant
  queue : List Queued
  lastKicked : Instant
  phase : Phase
  loads : List Load

/-- `Instant::now() - debounce` is `start`. -/
def State.init (start : Instant) : State :=
  ⟨start + debounce, 0, start, [], start, .waiting, []⟩

inductive Action where
  | tick (d : Duration)
  | notify (n : Notice)
  | recv
  | wake
  | cancel

variable (configPath : String)

def State.notify (s : State) (n : Notice) : State :=
  if isTarget configPath n then
    { s with
      version := s.version + 1
      changed := s.now
      queue := s.queue ++ [⟨n, s.version + 1, s.now, s.phase.isSettling⟩] }
  else { s with queue := s.queue ++ [⟨n, s.version, s.now, s.phase.isSettling⟩] }

/-- `last_kicked.elapsed() < debounce` -/
def State.debounced (s : State) : Prop := s.now - s.lastKicked < debounce

instance (s : State) : Decidable s.debounced := inferInstanceAs (Decidable (_ < _))

def State.receive (s : State) (n : Notice) (rest : List Queued) : State :=
  let s := { s with queue := rest }
  if isTarget configPath n then
    if s.debounced then s
    else { s with lastKicked := s.now, phase := .settling (s.now + settle) }
  else s

def State.load (s : State) : State :=
  { s with phase := .waiting, loads := s.loads ++ [⟨s.now, s.version⟩] }

def watcher : Machine State Action where
  step s
    | .tick d => some { s with now := s.now + d }
    | .notify n => if s.queue.length < queueCapacity then some (s.notify configPath n) else none
    | .recv =>
      match s.phase, s.queue with
      | .waiting, d :: rest => some (s.receive configPath d.notice rest)
      | _, _ => none
    | .wake =>
      match s.phase with
      | .settling wake => if wake ≤ s.now then some s.load else none
      | _ => none
    | .cancel =>
      match s.phase with
      | .waiting => some { s with phase := .stopped }
      | _ => none

/-! ### What has to be judged -/

def Quiet (s : State) : Prop :=
  s.phase = .waiting ∧ ∀ d ∈ s.queue, isTarget configPath d.notice = false

/-- The last log line is about the version on disk, and not older than it. -/
def Judged (s : State) : Prop :=
  s.version = 0 ∨ ∃ last, s.loads.getLast? = some last ∧ s.changed ≤ last.time ∧
    last.version = s.version

/-- Made no later than the last kick, or while a settling sleep was running. -/
def Queued.Covered (lastKicked : Instant) (d : Queued) : Prop :=
  d.settling = true ∨ d.made ≤ lastKicked

/-- If this step drops a write within the debounce, then the write was made no later than the
last kick or while a settling sleep was running. -/
def OnTime (x : Taken State Action) : Prop :=
  x.action = .recv → ∀ d rest, x.before.queue = d :: rest → isTarget configPath d.notice = true →
    x.before.debounced → d.Covered x.before.lastKicked

/-- A kick is followed by the load that covers what is queued by then; a write that comes after
that load is not covered, and before the first kick nothing is debounced. -/
def PhaseInv (s : State) : Prop :=
  match s.phase with
  | .settling wake => s.lastKicked + settle ≤ wake ∧ ∀ d ∈ s.queue, d.Covered s.lastKicked
  | .waiting =>
    match s.loads.getLast? with
    | none => s.lastKicked + debounce ≤ s.now
    | some last => s.lastKicked < s.now ∧ ∀ d ∈ s.queue, isTarget configPath d.notice = true →
        (d.version ≤ last.version ↔ d.Covered s.lastKicked)
  | .stopped => True

structure Inv (s : State) : Prop where
  changed_le : s.changed ≤ s.now
  made_le : ∀ d ∈ s.queue, d.made ≤ s.now
  version_le : ∀ d ∈ s.queue, d.version ≤ s.version
  queued : ∀ d, (s.queue.filter fun d => isTarget configPath d.notice).getLast? = some d →
    d.version = s.version ∧ 0 < s.version
  loaded : ∀ last, s.loads.getLast? = some last → last.version ≤ s.version ∧
    (last.version = s.version → s.changed ≤ last.time)
  phase : PhaseInv configPath s

section
variable {configPath : String} {s t : State} {a : Action} {n : Notice} {d : Queued}
  {rest : List Queued}

theorem inv_init (start : Instant) : Inv configPath (State.init start) where
  changed_le := Nat.le_add_right _ _
  made_le := nofun
  version_le := nofun
  queued := nofun
  loaded := nofun
  phase := le_rfl

theorem watcher_cases (h : (watcher configPath).step s a = some t) :
    (∃ d, a = .tick d ∧ t = { s with now := s.now + d }) ∨
    (∃ n, a = .notify n ∧ t = s.notify configPath n) ∨
    (∃ d rest, a = .recv ∧ s.phase = .waiting ∧ s.queue = d :: rest ∧
      t = s.receive configPath d.notice rest) ∨
    (∃ wake, a = .wake ∧ s.phase = .settling wake ∧ wake ≤ s.now ∧ t = s.load) ∨
    a = .cancel ∧ t = { s with phase := .stopped } := by
  cases a with
  | tick d => exact .inl ⟨d, rfl, (Option.some.inj h).symm⟩
  | notify n => exact .inr (.inl ⟨n, rfl, (of_guarded h).2.symm⟩)
  | recv =>
    refine .inr (.inr (.inl ?_))
    simp only [watcher] at h
    split at h
    · next d rest hphase hqueue =>
      exact ⟨d, rest, rfl, hphase, hqueue, (Option.some.inj h).symm⟩
    · cases h
  | wake =>
    refine .inr (.inr (.inr (.inl ?_)))
    simp only [watcher] at h
    split at h
    · next wake hphase =>
      obtain ⟨hwake, rfl⟩ := of_guarded h
      exact ⟨wake, rfl, hphase, hwake, rfl⟩
    · cases h
  | cancel =>
    refine .inr (.inr (.inr (.inr ?_)))
    simp only [watcher] at h
    split at h
    · exact ⟨rfl, (Option.some.inj h).symm⟩
    · cases h

theorem notify_target (h : isTarget configPath n = true) : s.notify configPath n =
    { s with
      version := s.version + 1
      changed := s.now
      queue := s.queue ++ [⟨n, s.version + 1, s.now, s.phase.isSettling⟩] } := if_pos h

theorem notify_other (h : isTarget configPath n = false) : s.notify configPath n =
    { s with queue := s.queue ++ [⟨n, s.version, s.now, s.phase.isSettling⟩] } :=
  if_neg (by rw [h]; nofun)

theorem receive_other (h : isTarget configPath n = false) :
    s.receive configPath n rest = { s with queue := rest } := if_neg (by rw [h]; nofun)

theorem receive_debounced (h : isTarget configPath n = true) (hd : s.debounced) :
    s.receive configPath n rest = { s with queue := rest } :=
  (if_pos h).trans (if_pos hd)

theorem receive_kicks (h : isTarget configPath n = true) (hd : ¬ s.debounced) :
    s.receive configPath n rest =
      { s with queue := rest, lastKicked := s.now, phase := .settling (s.now + settle) } :=
  (if_pos h).trans (if_neg hd)

theorem receive_cases (s : State) (n : Notice) (rest : List Queued) :
    s.receive configPath n rest = { s with queue := rest } ∨
      isTarget configPath n = true ∧ ¬ s.debounced ∧ s.receive configPath n rest =
        { s with queue := rest, lastKicked := s.now, phase := .settling (s.now + settle) } := by
  cases h : isTarget configPath n with
  | false => exact .inl (receive_other h)
  | true =>
    by_cases hd : s.debounced
    · exact .inl (receive_debounced h hd)
    · exact .inr ⟨rfl, hd, receive_kicks h hd⟩

theorem PhaseInv.tick (h : PhaseInv configPath s) (d : Duration) :
    PhaseInv configPath { s with now := s.now + d } := by
  unfold PhaseInv at *
  dsimp only
  split at h
  · exact h
  · split at h
    · exact h.trans (Nat.le_add_right _ _)
    · exact ⟨h.1.trans_le (Nat.le_add_right _ _), h.2⟩
  · trivial

theorem PhaseInv.push (h : PhaseInv configPath s) {version : ℕ} (changed : Instant)
    (hd : d.made = s.now ∧ d.settling = s.phase.isSettling)
    (hnew : isTarget configPath d.notice = true →
      ∀ last, s.loads.getLast? = some last → last.version < d.version) :
    PhaseInv configPath
      { s with version := version, changed := changed, queue := s.queue ++ [d] } := by
  unfold PhaseInv at *
  dsimp only
  split at h
  · next wake hphase =>
    rw [hphase] at hd
    exact ⟨h.1, List.forall_mem_append.mpr ⟨h.2, List.forall_mem_singleton.mpr (.inl hd.2)⟩⟩
  · next hphase =>
    rw [hphase] at hd
    split at h
    · exact h
    · next last hlast =>
      refine ⟨h.1, List.forall_mem_append.mpr
        ⟨h.2, List.forall_mem_singleton.mpr fun htarget => ?_⟩⟩
      refine iff_of_false (Nat.not_le_of_lt (hnew htarget last hlast)) ?_
      rintro (hs | hle)
      · rw [hd.2] at hs
        cases hs
      · exact absurd (hd.1 ▸ hle) (Nat.not_le_of_lt h.1)
  · trivial

theorem Inv.notify (hs : Inv configPath s) (n : Notice) :
    Inv configPath (s.notify configPath n) := by
  have hmade {version : ℕ} : ∀ d ∈ s.queue ++ [⟨n, version, s.now, s.phase.isSettling⟩],
      d.made ≤ s.now :=
    List.forall_mem_append.mpr ⟨hs.made_le, List.forall_mem_singleton.mpr le_rfl⟩
  cases h : isTarget configPath n with
  | false =>
    rw [notify_other h]
    refine ⟨hs.changed_le, hmade, ?_, fun d hd => hs.queued d ?_, hs.loaded, ?_⟩
    · exact List.forall_mem_append.mpr ⟨hs.version_le, List.forall_mem_singleton.mpr le_rfl⟩
    · rwa [List.filter_append, List.filter_singleton, h, cond_false, List.append_nil] at hd
    · refine hs.phase.push s.changed ⟨rfl, rfl⟩ fun htarget => ?_
      rw [h] at htarget
      cases htarget
  | true =>
    rw [notify_target h]
    refine ⟨le_rfl, hmade, ?_, fun d hd => ?_, fun last hlast => ?_, ?_⟩
    · exact List.forall_mem_append.mpr
        ⟨fun d hd => (hs.version_le d hd).trans (Nat.le_succ _),
          List.forall_mem_singleton.mpr le_rfl⟩
    · rw [List.filter_append, List.filter_singleton, h, cond_true, List.getLast?_concat] at hd
      obtain rfl := Option.some.inj hd
      exact ⟨rfl, Nat.succ_pos _⟩
    · have hle := (hs.loaded last hlast).1
      exact ⟨hle.trans (Nat.le_succ _), fun heq => absurd heq (Nat.lt_succ_of_le hle).ne⟩
    · exact hs.phase.push s.now ⟨rfl, rfl⟩ fun _ last hlast =>
        Nat.lt_succ_of_le (hs.loaded last hlast).1

theorem Inv.receive (hs : Inv configPath s) (hphase : s.phase = .waiting)
    (hqueue : s.queue = d :: rest) : Inv configPath (s.receive configPath d.notice rest) := by
  have hsub {e : Queued} (he : e ∈ rest) : e ∈ s.queue := hqueue ▸ List.mem_cons_of_mem d he
  have hmade : ∀ e ∈ rest, e.made ≤ s.now := fun e he => hs.made_le e (hsub he)
  have hversion : ∀ e ∈ rest, e.version ≤ s.version := fun e he => hs.version_le e (hsub he)
  have hqueued (e : Queued)
      (he : (rest.filter fun e => isTarget configPath e.notice).getLast? = some e) :
      e.version = s.version ∧ 0 < s.version := by
    refine hs.queued e ?_
    rw [hqueue, ← List.singleton_append, List.filter_append, List.getLast?_append, he,
      Option.some_or]
  rcases @receive_cases configPath s d.notice rest with hr | ⟨_, _, hr⟩
  · rw [hr]
    refine ⟨hs.changed_le, hmade, hversion, hqueued, hs.loaded, ?_⟩
    have hp := hs.phase
    unfold PhaseInv at *
    dsimp only
    rw [hphase] at hp ⊢
    dsimp only at hp ⊢
    split at hp
    · exact hp
    · exact ⟨hp.1, fun e he => hp.2 e (hsub he)⟩
  · rw [hr]
    exact ⟨hs.changed_le, hmade, hversion, hqueued, hs.loaded, le_rfl,
      fun e he => .inr (hmade e he)⟩

theorem Inv.load (hs : Inv configPath s) {wake : Instant} (hphase : s.phase = .settling wake)
    (hwake : wake ≤ s.now) : Inv configPath s.load := by
  have hp := hs.phase
  unfold PhaseInv at hp
  rw [hphase] at hp
  refine ⟨hs.changed_le, hs.made_le, hs.version_le, hs.queued, fun last hlast => ?_, ?_⟩
  · rw [State.load, List.getLast?_concat] at hlast
    obtain rfl := Option.some.inj hlast
    exact ⟨le_rfl, fun _ => hs.changed_le⟩
  · simp only [PhaseInv, State.load, List.getLast?_concat]
    have hkicked : s.lastKicked < s.lastKicked + settle := Nat.lt_add_of_pos_right (by decide)
    exact ⟨hkicked.trans_le (hp.1.trans hwake),
      fun e he _ => iff_of_true (hs.version_le e he) (hp.2 e he)⟩

theorem inv_step (hs : Inv configPath s) (h : (watcher configPath).step s a = some t) :
    Inv configPath t := by
  rcases watcher_cases h with ⟨d, _, rfl⟩ | ⟨n, _, rfl⟩ | ⟨d, rest, _, hphase, hqueue, rfl⟩ |
    ⟨wake, _, hphase, hwake, rfl⟩ | ⟨_, rfl⟩
  · have hle : s.now ≤ s.now + d := Nat.le_add_right _ _
    exact ⟨hs.changed_le.trans hle, fun e he => (hs.made_le e he).trans hle, hs.version_le,
      hs.queued, hs.loaded, hs.phase.tick d⟩
  · exact hs.notify n
  · exact hs.receive hphase hqueue
  · exact hs.load hphase hwake
  · exact ⟨hs.changed_le, hs.made_le, hs.version_le, hs.queued, hs.loaded, trivial⟩

theorem Inv.judged_load (hs : Inv configPath s) : Judged s.load :=
  .inr ⟨_, List.getLast?_concat, hs.changed_le, rfl⟩

/-- What is judged when a write is dropped: it had a kick and a sleep before it, and the load at
the end of that sleep has seen it if it was made by then. -/
theorem Inv.judged_iff_of_dropped (hs : Inv configPath s) (hphase : s.phase = .waiting)
    (hqueue : s.queue = d :: rest) (htarget : isTarget configPath d.notice = true)
    (hrest : ∀ e ∈ rest, isTarget configPath e.notice = false) (hd : s.debounced) :
    Judged s ↔ d.Covered s.lastKicked := by
  have hfilter : s.queue.filter (fun e => isTarget configPath e.notice) = [d] := by
    have hnone : rest.filter (fun e => isTarget configPath e.notice) = [] := by
      refine List.filter_eq_nil_iff.mpr fun e he => ?_
      rw [hrest e he]
      nofun
    rw [hqueue, List.filter_cons, if_pos htarget, hnone]
  obtain ⟨hversion, hpos⟩ := hs.queued d (by rw [hfilter]; rfl)
  have hp := hs.phase
  unfold PhaseInv at hp
  rw [hphase] at hp
  dsimp only at hp
  split at hp
  · exact absurd hd (Nat.not_lt_of_le (Nat.le_sub_of_add_le' hp))
  · next last hlast =>
    rw [← hp.2 d (hqueue ▸ List.mem_cons_self) htarget]
    constructor
    · rintro (hzero | ⟨last', hlast', _, heq⟩)
      · exact absurd hzero hpos.ne'
      · obtain rfl := Option.some.inj (hlast.symm.trans hlast')
        exact (hversion.trans heq.symm).le
    · intro hle
      obtain ⟨hle', hchanged⟩ := hs.loaded last hlast
      have heq : last.version = s.version := le_antisymm hle' (hversion ▸ hle)
      exact .inr ⟨last, hlast, hchanged heq, heq⟩

theorem onTime_of_ne {x : Taken State Action} (h : x.action ≠ .recv) : OnTime configPath x :=
  fun hrecv => absurd hrecv h

theorem judged_step_iff (hs : Inv configPath s) (hjudged : Quiet configPath s → Judged s)
    (h : (watcher configPath).step s a = some t) :
    (Quiet configPath t → Judged t) ↔ (Quiet configPath t → OnTime configPath ⟨s, a, t⟩) := by
  rcases watcher_cases h with ⟨d, ha, ht⟩ | ⟨n, ha, ht⟩ | ⟨d, rest, ha, hphase, hqueue, ht⟩ |
    ⟨_, ha, _, _, ht⟩ | ⟨ha, ht⟩
  · subst ha ht
    exact iff_of_true hjudged fun _ => onTime_of_ne nofun
  · subst ha ht
    refine iff_of_true (fun hquiet => ?_) fun _ => onTime_of_ne nofun
    cases hn : isTarget configPath n with
    | true =>
      rw [notify_target hn] at hquiet
      have hfalse := hquiet.2 _ List.mem_concat_self
      rw [hn] at hfalse
      cases hfalse
    | false =>
      rw [notify_other hn] at hquiet ⊢
      exact hjudged ⟨hquiet.1, fun d hd => hquiet.2 d (List.mem_append_left _ hd)⟩
  · subst ha ht
    have hrecv : OnTime configPath ⟨s, .recv, s.receive configPath d.notice rest⟩ ↔
        (isTarget configPath d.notice = true → s.debounced → d.Covered s.lastKicked) := by
      refine ⟨fun h => h rfl d rest hqueue, fun h _ d' rest' hqueue' => ?_⟩
      obtain ⟨rfl, rfl⟩ := List.cons.inj (hqueue.symm.trans hqueue')
      exact h
    rw [hrecv]
    cases hn : isTarget configPath d.notice with
    | false =>
      refine iff_of_true (fun hquiet => ?_) fun _ => nofun
      rw [receive_other hn] at hquiet ⊢
      refine hjudged ⟨hphase, ?_⟩
      rw [hqueue]
      exact List.forall_mem_cons.mpr ⟨hn, hquiet.2⟩
    | true =>
      by_cases hd : s.debounced
      · refine forall_congr' fun hquiet => ?_
        rw [receive_debounced hn hd] at hquiet ⊢
        rw [imp_iff_right rfl, imp_iff_right hd]
        exact hs.judged_iff_of_dropped hphase hqueue hn hquiet.2 hd
      · exact iff_of_true
          (fun hquiet => by rw [receive_kicks hn hd] at hquiet; cases hquiet.1)
          fun _ _ hd' => absurd hd' hd
  · subst ha ht
    exact iff_of_true (fun _ => hs.judged_load) fun _ => onTime_of_ne nofun
  · subst ha ht
    exact iff_of_true (fun hquiet => by cases hquiet.1) fun _ => onTime_of_ne nofun

/-- Whenever the writes are drained the last log line is about the file as it is, if and only
if each write that the debounce drops last was made by the time of the last kick or during a
settling sleep. -/
theorem final_version_judged_iff {start : Instant} {l : List (Taken State Action)}
    (h : (watcher configPath).Exec (State.init start) l s) :
    (∀ x ∈ l, Quiet configPath x.after → Judged x.after) ↔
      ∀ x ∈ l, Quiet configPath x.after → OnTime configPath x :=
  h.visited_iff (P := fun s => Quiet configPath s → Judged s) (inv_init start) (fun _ => .inl rfl)
    (fun _ _ _ => inv_step) fun _ => judged_step_iff

end

/-! ### Two writes of one save -/

def written : Notice := .ok ⟨.modify, ["/etc/warp/config.toml"]⟩

def onTime (x : Taken State Action) : Bool :=
  match x.action, x.before.queue with
  | .recv, d :: _ =>
    !decide x.before.debounced || d.settling || decide (d.made ≤ x.before.lastKicked)
  | _, _ => true

/-- The second write comes during the sleep after the first, and its notice is dropped. -/
theorem final_version_judged_settling : ∃ l s,
    (watcher "/etc/warp/config.toml").Exec (State.init 0) l s ∧ s.version = 2 ∧
      ∀ x ∈ l, Quiet "/etc/warp/config.toml" x.after → Judged x.after := by
  obtain ⟨l, hl, hall⟩ := Machine.exec_of_runWith (M := watcher "/etc/warp/config.toml")
    (s := State.init 0) (p := onTime)
    [.notify written, .recv, .tick (.fromMillis 50), .notify written, .tick (.fromMillis 50),
      .wake, .recv] rfl
  refine ⟨l, _, hl, rfl, (final_version_judged_iff hl).mpr ?_⟩
  intro x hx _ hrecv d rest hqueue _ hd
  have hon := hall x hx
  simpa [onTime, hrecv, hqueue, hd, Queued.Covered] using hon

/-- The second write comes 150 ms after the first, and nothing judges it. -/
theorem second_write_unjudged : ∃ l s, (watcher "/etc/warp/config.toml").Exec (State.init 0) l s ∧
    Quiet "/etc/warp/config.toml" s ∧ ¬ Judged s := by
  obtain ⟨l, hl, _⟩ := Machine.exec_of_run (M := watcher "/etc/warp/config.toml")
    (s := State.init 0)
    [.notify written, .recv, .tick settle, .wake, .tick (.fromMillis 50), .notify written, .recv]
    rfl
  refine ⟨l, _, hl, ⟨rfl, nofun⟩, ?_⟩
  rintro (hzero | ⟨last, hlast, _, heq⟩)
  · cases hzero
  · cases hlast
    cases heq

end WarpRust.ConfigWatch
