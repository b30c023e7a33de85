import Mathlib.Data.List.Basic
import WarpRust.Basic
import WarpRust.Library.Machine

/-!
# The idle-timed relay

`relay_with_idle_timeout` with its two direction tasks, the idle watcher, the shared token
and `coordinate_relay`. Completions of reads and writes are steps of the two peers; looking
at the token, the grace timer, abort and join are steps of the relay itself.
-/

namespace WarpRust.Proxy.Relay
open Library

structure Params where
  idle : Duration
  bufSize : ℕ
  grace : Duration

/-- `up` is client to upstream (`send`), `down` is upstream to client (`recv`). -/
inductive Side where
  | up
  | down
  deriving DecidableEq

def Side.other : Side → Side
  | .up => .down
  | .down => .up

/-- Where a direction task waits. In `writing` it does not look at the token. -/
inductive Pos where
  | select
  | writing (chunk rest : List UInt8)
  | closing
  | finished
  | aborted

namespace Pos

def isWriting : Pos → Bool
  | .writing _ _ => true
  | _ => false

def ended : Pos → Bool
  | .finished | .aborted => true
  | _ => false

end Pos

structure Task where
  pos : Pos
  read : List UInt8
  delivered : List UInt8
  bytes : ℕ

namespace Task

def fresh : Task := ⟨.select, [], [], 0⟩

def isWriting (t : Task) : Bool := t.pos.isWriting
def ended (t : Task) : Bool := t.pos.ended

def abort (t : Task) : Task :=
  if t.ended then t else { t with pos := .aborted }

end Task

inductive Watcher where
  | watching (deadline : Instant)
  | fired
  | stopped

inductive Coordinator where
  | waiting
  | grace (first : Side) (deadline : Instant)
  | aborting (first : Side)
  | joined
  | reapWatcher
  | returned (up down : ℕ)

def Coordinator.isAborting : Coordinator → Bool
  | .aborting _ => true
  | _ => false

structure State where
  now : Instant
  up : Task
  down : Task
  cancelled : Bool
  permit : Bool
  watcher : Watcher
  coordinator : Coordinator

namespace State

def init (p : Params) (now : Instant) : State :=
  ⟨now, .fresh, .fresh, false, false, .watching (now + p.idle), .waiting⟩

def task (s : State) : Side → Task
  | .up => s.up
  | .down => s.down

def setTask (s : State) (side : Side) (t : Task) : State :=
  match side with
  | .up => { s with up := t }
  | .down => { s with down := t }

def moveTask (s : State) (side : Side) (pos : Pos) : State :=
  s.setTask side { s.task side with pos }

def wrote (s : State) (side : Side) (chunk rest : List UInt8) (k : ℕ) : State :=
  let t := s.task side
  let t := { t with delivered := t.delivered ++ rest.take k }
  if k = rest.length then
    { s.setTask side { t with pos := .select, bytes := t.bytes + chunk.length } with
      permit := true }
  else s.setTask side { t with pos := .writing chunk (rest.drop k) }

def watching (s : State) : Bool :=
  match s.watcher with
  | .watching _ => true
  | _ => false

end State

inductive Action where
  | tick (d : Duration)
  | readOk (side : Side) (chunk : List UInt8)
  | readEnd (side : Side)
  | write (side : Side) (k : ℕ)
  | writeErr (side : Side)
  | observe (side : Side)
  | close (side : Side)
  | notified
  | fire
  | stop
  | first (side : Side)
  | peerDone
  | graceExpire
  | reap
  | cancel
  | ret

def Action.internal : Action → Bool
  | .tick _ | .readOk _ _ | .readEnd _ | .write _ _ | .writeErr _ => false
  | _ => true

/-- `readEnd` is end of file and read error alike: both leave the loop. The token is the
first branch of each `select!`, and the up task the first branch of the coordinator's. -/
def step (p : Params) (s : State) : Action → Option State
  | .tick d => some { s with now := s.now + d }
  | .readOk side chunk =>
    match (s.task side).pos with
    | .select =>
      if s.cancelled = false ∧ chunk ≠ [] ∧ chunk.length ≤ p.bufSize then
        let t := s.task side
        some (s.setTask side { t with pos := .writing chunk chunk, read := t.read ++ chunk })
      else none
    | _ => none
  | .readEnd side =>
    match (s.task side).pos with
    | .select => if s.cancelled then none else some (s.moveTask side .closing)
    | _ => none
  | .write side k =>
    match (s.task side).pos with
    | .writing chunk rest =>
      if 0 < k ∧ k ≤ rest.length then some (s.wrote side chunk rest k) else none
    | _ => none
  | .writeErr side =>
    match (s.task side).pos with
    | .writing _ _ => some (s.moveTask side .closing)
    | _ => none
  | .observe side =>
    match (s.task side).pos with
    | .select => if s.cancelled then some (s.moveTask side .closing) else none
    | _ => none
  | .close side =>
    match (s.task side).pos with
    | .closing =>
      some { s.moveTask side .finished with cancelled := true }
    | _ => none
  | .notified =>
    match s.watcher with
    | .watching _ =>
      if s.cancelled = false ∧ s.permit then
        some { s with permit := false, watcher := .watching (s.now + p.idle) }
      else none
    | _ => none
  | .fire =>
    match s.watcher with
    | .watching deadline =>
      if s.cancelled = false ∧ s.permit = false ∧ deadline ≤ s.now then
        some { s with cancelled := true, watcher := .fired }
      else none
    | _ => none
  | .stop =>
    match s.watcher with
    | .watching _ => if s.cancelled then some { s with watcher := .stopped } else none
    | _ => none
  | .first side =>
    match s.coordinator, (s.task side).pos with
    | .waiting, .finished =>
      if side = .up ∨ s.up.ended = false then
        some { s with coordinator := .grace side (s.now + p.grace) }
      else none
    | _, _ => none
  | .peerDone =>
    match s.coordinator with
    | .grace side _ =>
      if (s.task side.other).ended then some { s with coordinator := .joined } else none
    | _ => none
  | .graceExpire =>
    match s.coordinator with
    | .grace side deadline =>
      if (s.task side.other).ended then none
      else some { s with now := max s.now deadline, coordinator := .aborting side }
    | _ => none
  | .reap =>
    match s.coordinator with
    | .aborting side =>
      some { s.setTask side.other (s.task side.other).abort with coordinator := .joined }
    | _ => none
  | .cancel =>
    match s.coordinator with
    | .joined => some { s with cancelled := true, coordinator := .reapWatcher }
    | _ => none
  | .ret =>
    match s.coordinator with
    | .reapWatcher =>
      if s.watching then none
      else some { s with coordinator := .returned s.up.bytes s.down.bytes }
    | _ => none

def machine (p : Params) : Machine State Action := ⟨step p⟩

inductive Step (p : Params) (s : State) : Action → State → Prop
  | tick (d : Duration) : Step p s (.tick d) { s with now := s.now + d }
  | readOk {side : Side} {chunk : List UInt8} :
      (s.task side).pos = .select → s.cancelled = false → chunk ≠ [] →
      chunk.length ≤ p.bufSize →
      Step p s (.readOk side chunk) (s.setTask side
        { s.task side with pos := .writing chunk chunk, read := (s.task side).read ++ chunk })
  | readEnd {side : Side} :
      (s.task side).pos = .select → s.cancelled = false →
      Step p s (.readEnd side) (s.moveTask side .closing)
  | write {side : Side} {chunk rest : List UInt8} {k : ℕ} :
      (s.task side).pos = .writing chunk rest → 0 < k → k ≤ rest.length →
      Step p s (.write side k) (s.wrote side chunk rest k)
  | writeErr {side : Side} {chunk rest : List UInt8} :
      (s.task side).pos = .writing chunk rest → Step p s (.writeErr side) (s.moveTask side .closing)
  | observe {side : Side} :
      (s.task side).pos = .select → s.cancelled = true →
      Step p s (.observe side) (s.moveTask side .closing)
  | close {side : Side} :
      (s.task side).pos = .closing →
      Step p s (.close side)
        { s.moveTask side .finished with cancelled := true }
  | notified {deadline : Instant} :
      s.watcher = .watching deadline → s.cancelled = false → s.permit = true →
      Step p s .notified { s with permit := false, watcher := .watching (s.now + p.idle) }
  | fire {deadline : Instant} :
      s.watcher = .watching deadline → s.cancelled = false → s.permit = false →
      deadline ≤ s.now → Step p s .fire { s with cancelled := true, watcher := .fired }
  | stop {deadline : Instant} :
      s.watcher = .watching deadline → s.cancelled = true →
      Step p s .stop { s with watcher := .stopped }
  | first {side : Side} :
      s.coordinator = .waiting → (s.task side).pos = .finished →
      side = .up ∨ s.up.ended = false →
      Step p s (.first side) { s with coordinator := .grace side (s.now + p.grace) }
  | peerDone {side : Side} {deadline : Instant} :
      s.coordinator = .grace side deadline → (s.task side.other).ended = true →
      Step p s .peerDone { s with coordinator := .joined }
  | graceExpire {side : Side} {deadline : Instant} :
      s.coordinator = .grace side deadline → (s.task side.other).ended = false →
      Step p s .graceExpire { s with now := max s.now deadline, coordinator := .aborting side }
  | reap {side : Side} :
      s.coordinator = .aborting side →
      Step p s .reap
        { s.setTask side.other (s.task side.other).abort with coordinator := .joined }
  | cancel :
      s.coordinator = .joined →
      Step p s .cancel { s with cancelled := true, coordinator := .reapWatcher }
  | ret :
      s.coordinator = .reapWatcher → s.watching = false →
      Step p s .ret { s with coordinator := .returned s.up.bytes s.down.bytes }

variable {p : Params} {s s' : State}

theorem step_cases {a : Action} (ha : step p s a = some s') : Step p s a s' := by
  cases a with
  | tick d =>
    obtain rfl := Option.some.inj ha
    exact .tick d
  | readOk side chunk =>
    simp only [step] at ha
    split at ha
    · next hpos =>
      obtain ⟨⟨hc, hne, hlen⟩, rfl⟩ := of_guarded ha
      exact .readOk hpos hc hne hlen
    · cases ha
  | readEnd side =>
    simp only [step] at ha
    split at ha
    · next hpos =>
      obtain ⟨hc, rfl⟩ := of_guarded_not ha
      exact .readEnd hpos (Bool.eq_false_iff.mpr hc)
    · cases ha
  | write side k =>
    simp only [step] at ha
    split at ha
    · next hpos =>
      obtain ⟨⟨hk, hlen⟩, rfl⟩ := of_guarded ha
      exact .write hpos hk hlen
    · cases ha
  | writeErr side =>
    simp only [step] at ha
    split at ha
    · next hpos =>
      obtain rfl := Option.some.inj ha
      exact .writeErr hpos
    · cases ha
  | observe side =>
    simp only [step] at ha
    split at ha
    · next hpos =>
      obtain ⟨hc, rfl⟩ := of_guarded ha
      exact .observe hpos hc
    · cases ha
  | close side =>
    simp only [step] at ha
    split at ha
    · next hpos =>
      obtain rfl := Option.some.inj ha
      exact .close hpos
    · cases ha
  | notified =>
    simp only [step] at ha
    split at ha
    · next hw =>
      obtain ⟨⟨hc, hp⟩, rfl⟩ := of_guarded ha
      exact .notified hw hc hp
    · cases ha
  | fire =>
    simp only [step] at ha
    split at ha
    · next hw =>
      obtain ⟨⟨hc, hp, hd⟩, rfl⟩ := of_guarded ha
      exact .fire hw hc hp hd
    · cases ha
  | stop =>
    simp only [step] at ha
    split at ha
    · next hw =>
      obtain ⟨hc, rfl⟩ := of_guarded ha
      exact .stop hw hc
    · cases ha
  | first side =>
    simp only [step] at ha
    split at ha
    · next hco hpos =>
      obtain ⟨hside, rfl⟩ := of_guarded ha
      exact .first hco hpos hside
    · cases ha
  | peerDone =>
    simp only [step] at ha
    split at ha
    · next hco =>
      obtain ⟨hend, rfl⟩ := of_guarded ha
      exact .peerDone hco hend
    · cases ha
  | graceExpire =>
    simp only [step] at ha
    split at ha
    · next hco =>
      obtain ⟨hend, rfl⟩ := of_guarded_not ha
      exact .graceExpire hco (Bool.eq_false_iff.mpr hend)
    · cases ha
  | reap =>
    simp only [step] at ha
    split at ha
    · next hco =>
      obtain rfl := Option.some.inj ha
      exact .reap hco
    · cases ha
  | cancel =>
    simp only [step] at ha
    split at ha
    · next hco =>
      obtain rfl := Option.some.inj ha
      exact .cancel hco
    · cases ha
  | ret =>
    simp only [step] at ha
    split at ha
    · next hco =>
      obtain ⟨hw, rfl⟩ := of_guarded_not ha
      exact .ret hco (Bool.eq_false_iff.mpr hw)
    · cases ha

section
variable (s : State) (side side' : Side) (t : Task)

theorem task_setTask :
    (s.setTask side t).task side' = if side' = side then t else s.task side' := by
  cases side <;> cases side' <;> rfl

@[simp] theorem task_setTask_self : (s.setTask side t).task side = t := by
  simp [task_setTask]

@[simp] theorem setTask_now : (s.setTask side t).now = s.now := by cases side <;> rfl
@[simp] theorem setTask_cancelled : (s.setTask side t).cancelled = s.cancelled := by
  cases side <;> rfl
@[simp] theorem setTask_watcher : (s.setTask side t).watcher = s.watcher := by
  cases side <;> rfl
@[simp] theorem setTask_coordinator : (s.setTask side t).coordinator = s.coordinator := by
  cases side <;> rfl

end

@[simp] theorem wrote_now (side : Side) (chunk rest : List UInt8) (k : ℕ) :
    (s.wrote side chunk rest k).now = s.now := by
  unfold State.wrote
  split <;> simp

@[simp] theorem wrote_cancelled (side : Side) (chunk rest : List UInt8) (k : ℕ) :
    (s.wrote side chunk rest k).cancelled = s.cancelled := by
  unfold State.wrote
  split <;> simp

@[simp] theorem wrote_watcher (side : Side) (chunk rest : List UInt8) (k : ℕ) :
    (s.wrote side chunk rest k).watcher = s.watcher := by
  unfold State.wrote
  split <;> simp

@[simp] theorem wrote_coordinator (side : Side) (chunk rest : List UInt8) (k : ℕ) :
    (s.wrote side chunk rest k).coordinator = s.coordinator := by
  unfold State.wrote
  split <;> simp

/-- What a step may do to where a task is: nothing, or one move along its loop. It enters
a write only while the token is not cancelled, cancels it on its way out, and is aborted
only by the coordinator. -/
inductive Move (before after aborting : Bool) : Pos → Pos → Prop
  | stay (pos : Pos) : Move before after aborting pos pos
  | taken {chunk : List UInt8} :
      before = false → Move before after aborting .select (.writing chunk chunk)
  | more {chunk rest rest' : List UInt8} :
      Move before after aborting (.writing chunk rest) (.writing chunk rest')
  | whole {chunk rest : List UInt8} : Move before after aborting (.writing chunk rest) .select
  | broken {chunk rest : List UInt8} : Move before after aborting (.writing chunk rest) .closing
  | left : Move before after aborting .select .closing
  | closed : after = true → Move before after aborting .closing .finished
  | aborted {pos : Pos} :
      aborting = true → pos ≠ .finished → Move before after aborting pos .aborted

namespace Move
variable {c c' b : Bool} {pos pos' : Pos}

theorem ended (h : Move c c' b pos pos') (hp : pos.ended = true) : pos'.ended = true := by
  cases h with
  | stay => exact hp
  | aborted => rfl
  | _ => cases hp

theorem of_finished (h : Move c c' b .finished pos) : pos = .finished := by
  cases h with
  | stay => rfl
  | aborted _ hp => exact absurd rfl hp

theorem into_finished (h : Move c c' b pos .finished) : pos = .finished ∨ c' = true := by
  cases h with
  | stay => exact .inl rfl
  | closed hc => exact .inr hc

theorem not_aborted (h : Move c c' false pos pos') (hp : pos ≠ .aborted) : pos' ≠ .aborted := by
  cases h with
  | stay => exact hp
  | aborted hb => cases hb
  | _ => intro he; cases he

theorem not_writing (h : Move true c' b pos pos') (hp : pos.isWriting = false) :
    pos'.isWriting = false := by
  cases h with
  | stay => exact hp
  | taken hc => cases hc
  | more => cases hp
  | _ => rfl

end Move

theorem setTask_move {c b : Bool} {side side' : Side} {t : Task}
    (h : Move s.cancelled c b (s.task side).pos t.pos) :
    Move s.cancelled c b (s.task side').pos ((s.setTask side t).task side').pos := by
  rw [task_setTask]
  by_cases hs : side' = side
  · rw [if_pos hs, hs]
    exact h
  · rw [if_neg hs]
    exact .stay _

theorem abort_move (c c' : Bool) (t : Task) : Move c c' true t.pos t.abort.pos := by
  unfold Task.abort
  by_cases ht : t.ended = true
  · rw [if_pos ht]
    exact .stay _
  · rw [if_neg ht]
    refine .aborted rfl ?_
    intro hpos
    exact ht (by rw [Task.ended, hpos]; rfl)

theorem abort_ended (t : Task) : t.abort.ended = true := by
  unfold Task.abort
  by_cases ht : t.ended = true
  · rw [if_pos ht]
    exact ht
  · rw [if_neg ht]
    rfl

theorem wrote_move {c b : Bool} {side : Side} {chunk rest : List UInt8} {k : ℕ} (side' : Side)
    (h : (s.task side).pos = .writing chunk rest) :
    Move s.cancelled c b (s.task side').pos ((s.wrote side chunk rest k).task side').pos := by
  unfold State.wrote
  by_cases hk : k = rest.length
  · rw [if_pos hk]
    exact setTask_move (by rw [h]; exact .whole)
  · rw [if_neg hk]
    exact setTask_move (by rw [h]; exact .more)

theorem step_move {a : Action} (ha : Step p s a s') (side : Side) :
    Move s.cancelled s'.cancelled s.coordinator.isAborting (s.task side).pos
    (s'.task side).pos := by
  cases ha with
  | readOk hpos hc => exact setTask_move (by rw [hpos]; exact .taken hc)
  | readEnd hpos => exact setTask_move (by rw [hpos]; exact .left)
  | write hpos => exact wrote_move side hpos
  | writeErr hpos => exact setTask_move (by rw [hpos]; exact .broken)
  | observe hpos => exact setTask_move (by rw [hpos]; exact .left)
  | close hpos => exact setTask_move (by rw [hpos]; exact .closed rfl)
  | reap hco =>
    refine setTask_move ?_
    rw [hco]
    exact abort_move _ _ _
  | _ => exact .stay _

theorem step_cancelled {a : Action} (ha : Step p s a s') (h : s.cancelled = true) :
    s'.cancelled = true := by
  cases ha with
  | close => rfl
  | fire => rfl
  | cancel => rfl
  | _ => simpa [State.moveTask] using h

theorem step_watching {a : Action} (ha : Step p s a s') (h : s.watching = false) :
    s'.watching = false := by
  have hno {deadline : Instant} (hw : s.watcher = .watching deadline) : False := by
    simp [State.watching, hw] at h
  have hsame (hw : s'.watcher = s.watcher) : s'.watching = false := by
    rw [State.watching, hw]
    exact h
  cases ha with
  | notified hw => exact (hno hw).elim
  | fire => rfl
  | stop => rfl
  | _ => exact hsame (by simp [State.moveTask])

def CoordInv (p : Params) (s : State) : Prop :=
  match s.coordinator with
  | .waiting => ∀ side, (s.task side).pos ≠ .aborted
  | .grace side deadline => (s.task side).pos = .finished ∧ deadline ≤ s.now + p.grace
  | .aborting side => (s.task side).pos = .finished
  | .joined | .reapWatcher => ∀ side, (s.task side).ended = true
  | .returned _ _ => (∀ side, (s.task side).ended = true) ∧ s.watching = false

structure Inv (p : Params) (s : State) : Prop where
  watcher : s.watching = false → s.cancelled = true
  finished : ∀ side, (s.task side).pos = .finished → s.cancelled = true
  coordinator : CoordInv p s

theorem Inv.init (p : Params) (t₀ : Instant) : Inv p (State.init p t₀) := by
  refine ⟨?_, ?_, ?_⟩
  · intro h
    cases h
  · intro side h
    cases side <;> cases h
  · intro side h
    cases side <;> cases h

theorem CoordInv.keep {a : Action} (h : CoordInv p s) (ha : Step p s a s')
    (hco : s'.coordinator = s.coordinator) (hnow : s.now ≤ s'.now) : CoordInv p s' := by
  have hmove := step_move ha
  have hwatch := step_watching ha
  unfold CoordInv at h ⊢
  rw [hco]
  cases hc : s.coordinator with
  | waiting =>
    rw [hc] at h hmove
    exact fun side => (hmove side).not_aborted (h side)
  | grace side deadline =>
    rw [hc] at h
    have hside := hmove side
    rw [h.1] at hside
    exact ⟨hside.of_finished, h.2.trans (Nat.add_le_add_right hnow _)⟩
  | aborting side =>
    rw [hc] at h
    have hside := hmove side
    rw [h] at hside
    exact hside.of_finished
  | joined =>
    rw [hc] at h
    exact fun side => (hmove side).ended (h side)
  | reapWatcher =>
    rw [hc] at h
    exact fun side => (hmove side).ended (h side)
  | returned up down =>
    rw [hc] at h
    exact ⟨fun side => (hmove side).ended (h.1 side), hwatch h.2⟩

theorem step_inv {a : Action} (h : Inv p s) (ha : step p s a = some s') : Inv p s' := by
  have hstep := step_cases ha
  have hcancel := step_cancelled hstep
  have hmove := step_move hstep
  refine ⟨?_, ?_, ?_⟩
  · intro hw
    have hsame (he : s'.watcher = s.watcher) : s'.cancelled = true := by
      refine hcancel (h.watcher ?_)
      rw [State.watching, ← he]
      exact hw
    cases hstep with
    | notified => cases hw
    | fire => rfl
    | stop _ hc => exact hc
    | _ => exact hsame (by simp [State.moveTask])
  · intro side hpos
    have hside := hmove side
    rw [hpos] at hside
    rcases hside.into_finished with hs | hc
    · exact hcancel (h.finished side hs)
    · exact hc
  · have hco := h.coordinator
    have hkeep := hco.keep hstep
    cases hstep with
    | first hwait hpos =>
      exact ⟨hpos, le_rfl⟩
    | @peerDone side deadline hg hend =>
      simp only [CoordInv, hg] at hco
      intro side'
      cases side <;> cases side'
      all_goals first
        | exact hend
        | exact congrArg Pos.ended hco.1
    | graceExpire hg =>
      simp only [CoordInv, hg] at hco
      exact hco.1
    | @reap side hg =>
      simp only [CoordInv, hg] at hco
      intro side'
      show ((s.setTask side.other (s.task side.other).abort).task side').ended = true
      rw [task_setTask]
      by_cases hs : side' = side.other
      · rw [if_pos hs]
        exact abort_ended _
      · obtain rfl : side' = side := by cases side <;> cases side' <;> simp_all [Side.other]
        rw [if_neg hs]
        exact congrArg Pos.ended hco
    | cancel hg =>
      simp only [CoordInv, hg] at hco
      exact hco
    | ret hg hw =>
      simp only [CoordInv, hg] at hco
      exact ⟨hco, hw⟩
    | _ => exact hkeep (by simp [State.moveTask]) (by simp [State.moveTask])

theorem reachable_inv {t₀ : Instant} (h : (machine p).Reachable (State.init p t₀) s) : Inv p s :=
  h.invariant (Inv.init p t₀) fun _ _ _ hi ha => step_inv hi ha

/-! ## The idle watcher has fired -/

def State.hasReturned (s : State) : Bool :=
  match s.coordinator with
  | .returned _ _ => true
  | _ => false

def State.bothWriting (s : State) : Bool := s.up.isWriting && s.down.isWriting

/-- The relay can finish without either peer: some step of its own is enabled, and such
steps alone lead to its return, no later than the grace period from now. -/
def Completes (p : Params) (s : State) : Prop :=
  (∃ a s', a.internal = true ∧ step p s a = some s') ∧
    ∃ t, (machine p).Path (fun a => a.internal = true) s t ∧ t.hasReturned = true ∧
      t.now ≤ s.now + p.grace

theorem ended_not_writing {t : Task} (h : t.ended = true) (hw : t.isWriting = true) : False := by
  rw [Task.ended] at h
  rw [Task.isWriting] at hw
  cases hp : t.pos with
  | writing => simp [hp, Pos.ended] at h
  | _ => simp [hp, Pos.isWriting] at hw

/-- Both peers refuse to take bytes: nothing the relay does on its own is enabled. -/
theorem bothWriting_stuck {a : Action} (h : Inv p s) (hw : s.watching = false)
    (hb : s.bothWriting = true) (ha : a.internal = true) :
    step p s a = none := by
  have hwriting : ∀ side, (s.task side).isWriting = true := by
    rw [State.bothWriting, Bool.and_eq_true] at hb
    intro side
    cases side
    · exact hb.1
    · exact hb.2
  have hpos {side : Side} {pos : Pos} (he : (s.task side).pos = pos) : pos.isWriting = true := by
    rw [← he]
    exact hwriting side
  have hnowatch {deadline : Instant} (he : s.watcher = .watching deadline) : False := by
    simp [State.watching, he] at hw
  have hco := h.coordinator
  cases hs : step p s a with
  | none => rfl
  | some s' =>
    exfalso
    cases step_cases hs with
    | tick | readOk | readEnd | write | writeErr => cases ha
    | observe he => cases hpos he
    | close he => cases hpos he
    | notified he => exact hnowatch he
    | fire he => exact hnowatch he
    | stop he => exact hnowatch he
    | first _ he => cases hpos he
    | peerDone he =>
      simp only [CoordInv, he] at hco
      cases hpos hco.1
    | graceExpire he =>
      simp only [CoordInv, he] at hco
      cases hpos hco.1
    | reap he =>
      simp only [CoordInv, he] at hco
      cases hpos hco
    | cancel he =>
      simp only [CoordInv, he] at hco
      exact ended_not_writing (hco .up) (hwriting .up)
    | ret he =>
      simp only [CoordInv, he] at hco
      exact ended_not_writing (hco .up) (hwriting .up)

/-- The token is cancelled, the watcher is gone, and unless a task is already over one of
the two is outside `write_all`. -/
structure Draining (p : Params) (n : Instant) (s : State) : Prop where
  inv : Inv p s
  watcher : s.watching = false
  onward : s.coordinator = .waiting → s.bothWriting = false
  wait : s.coordinator = .waiting → s.now ≤ n
  grace : ∀ side deadline, s.coordinator = .grace side deadline → deadline ≤ n + p.grace
  time : s.now ≤ n + p.grace

def Pos.rank : Pos → ℕ
  | .select | .writing _ _ => 2
  | .closing => 1
  | .finished | .aborted => 0

def Coordinator.rank : Coordinator → ℕ
  | .waiting => 5
  | .grace _ _ => 4
  | .aborting _ => 3
  | .joined => 2
  | .reapWatcher => 1
  | .returned _ _ => 0

def State.rank (s : State) : ℕ := s.up.pos.rank + s.down.pos.rank + s.coordinator.rank

theorem rank_setTask (s : State) (side : Side) (t : Task) :
    (s.setTask side t).rank + (s.task side).pos.rank = s.rank + t.pos.rank := by
  cases side <;> simp only [State.rank, State.setTask, State.task] <;> omega

theorem rank_moveTask (s : State) (side : Side) (pos : Pos) :
    (s.moveTask side pos).rank + (s.task side).pos.rank = s.rank + pos.rank :=
  rank_setTask s side { s.task side with pos }

theorem abort_rank (t : Task) : t.abort.pos.rank ≤ t.pos.rank := by
  unfold Task.abort
  by_cases ht : t.ended = true
  · rw [if_pos ht]
  · rw [if_neg ht]
    exact Nat.zero_le _

variable {n : Instant}

theorem Draining.cancelled (h : Draining p n s) : s.cancelled = true := h.inv.watcher h.watcher

theorem Draining.keep {a : Action} (h : Draining p n s) (ha : step p s a = some s')
    (hco : s'.coordinator = s.coordinator) (hnow : s'.now = s.now) : Draining p n s' := by
  have hstep := step_cases ha
  refine ⟨step_inv h.inv ha, step_watching hstep h.watcher, ?_, ?_, ?_, ?_⟩
  · rw [hco]
    intro hw
    have hopen := h.onward hw
    have hmove := step_move hstep
    rw [h.cancelled] at hmove
    rw [State.bothWriting, Bool.and_eq_false_iff] at hopen ⊢
    rcases hopen with hup | hdown
    · exact .inl ((hmove .up).not_writing hup)
    · exact .inr ((hmove .down).not_writing hdown)
  · rw [hco, hnow]
    exact h.wait
  · rw [hco]
    exact h.grace
  · rw [hnow]
    exact h.time

theorem Draining.first_enabled (h : Draining p n s) (hco : s.coordinator = .waiting)
    (hpos : ∀ side, (s.task side).pos ≠ .select ∧ (s.task side).pos ≠ .closing) :
    ∃ side, (s.task side).pos = .finished ∧ (side = .up ∨ s.up.ended = false) := by
  have hinv := h.inv.coordinator
  simp only [CoordInv, hco] at hinv
  have hkind : ∀ side, (s.task side).pos = .finished ∨ (s.task side).isWriting = true := by
    intro side
    have h1 := hinv side
    obtain ⟨h2, h3⟩ := hpos side
    cases hp : (s.task side).pos with
    | writing => exact .inr (by rw [Task.isWriting, hp]; rfl)
    | finished => exact .inl rfl
    | select => exact absurd hp h2
    | closing => exact absurd hp h3
    | aborted => exact absurd hp h1
  rcases hkind .up with hup | hup
  · exact ⟨.up, hup, .inl rfl⟩
  · rcases hkind .down with hdown | hdown
    · refine ⟨.down, hdown, .inr ?_⟩
      cases he : s.up.ended with
      | false => rfl
      | true => exact (ended_not_writing he hup).elim
    · have := h.onward hco
      rw [State.bothWriting, Bool.and_eq_false_iff] at this
      rcases this with hf | hf
      · exact absurd hup (by rw [State.task, hf]; exact Bool.false_ne_true)
      · exact absurd hdown (by rw [State.task, hf]; exact Bool.false_ne_true)

theorem Draining.advance {a : Action} (h : Draining p n s) (ha : step p s a = some s')
    (hwait : s'.coordinator ≠ .waiting)
    (hgrace : ∀ side deadline, s'.coordinator = .grace side deadline → deadline ≤ n + p.grace)
    (htime : s'.now ≤ n + p.grace) : Draining p n s' where
  inv := step_inv h.inv ha
  watcher := step_watching (step_cases ha) h.watcher
  onward := fun hw => absurd hw hwait
  wait := fun hw => absurd hw hwait
  grace := hgrace
  time := htime

theorem Draining.next_task (h : Draining p n s) {side : Side}
    (hside : (s.task side).pos = .closing ∨ (s.task side).pos = .select) :
    ∃ a u, a.internal = true ∧ (machine p).step s a = some u ∧ Draining p n u ∧
      u.rank < s.rank := by
  rcases hside with hpos | hpos
  · have hstep : step p s (.close side) =
        some { s.moveTask side .finished with cancelled := true } := by
      simp [step, hpos]
    refine ⟨.close side, _, rfl, hstep,
      h.keep hstep (by simp [State.moveTask]) (by simp [State.moveTask]), ?_⟩
    have := rank_moveTask s side .finished
    rw [hpos] at this
    simp only [Pos.rank] at this
    show (s.moveTask side .finished).rank < s.rank
    omega
  · have hstep : step p s (.observe side) = some (s.moveTask side .closing) := by
      simp [step, hpos, h.cancelled]
    refine ⟨.observe side, _, rfl, hstep,
      h.keep hstep (by simp [State.moveTask]) (by simp [State.moveTask]), ?_⟩
    have := rank_moveTask s side .closing
    rw [hpos] at this
    simp only [Pos.rank] at this
    omega

theorem Draining.next (h : Draining p n s) (hr : s.hasReturned ≠ true) :
    ∃ a u, a.internal = true ∧ (machine p).step s a = some u ∧ Draining p n u ∧
      u.rank < s.rank := by
  by_cases htask : ∃ side, (s.task side).pos = .closing ∨ (s.task side).pos = .select
  · obtain ⟨side, hside⟩ := htask
    exact h.next_task hside
  -- Both tasks are inside a write or over, so it is the coordinator's turn.
  push Not at htask
  cases hco : s.coordinator with
  | waiting =>
    obtain ⟨side, hpos, hside⟩ := h.first_enabled hco fun side => (htask side).symm
    have hstep : step p s (.first side) =
        some { s with coordinator := .grace side (s.now + p.grace) } := by
      simp [step, hco, hpos, hside]
    refine ⟨.first side, _, rfl, hstep, h.advance hstep (by simp) ?_ h.time, ?_⟩
    · intro side' deadline hg
      obtain ⟨_, rfl⟩ := Coordinator.grace.inj hg
      exact Nat.add_le_add_right (h.wait hco) _
    · simp [State.rank, hco, Coordinator.rank]
  | grace side deadline =>
    cases hend : (s.task side.other).ended with
    | true =>
      have hstep : step p s .peerDone = some { s with coordinator := .joined } := by
        simp [step, hco, hend]
      refine ⟨.peerDone, _, rfl, hstep, h.advance hstep (by simp) (by simp) h.time, ?_⟩
      simp [State.rank, hco, Coordinator.rank]
    | false =>
      have hstep : step p s .graceExpire =
          some { s with now := max s.now deadline, coordinator := .aborting side } := by
        simp [step, hco, hend]
      refine ⟨.graceExpire, _, rfl, hstep, h.advance hstep (by simp) (by simp) ?_, ?_⟩
      · exact max_le h.time (h.grace side deadline hco)
      · simp [State.rank, hco, Coordinator.rank]
  | aborting side =>
    have hstep : step p s .reap = some
        { s.setTask side.other (s.task side.other).abort with coordinator := .joined } := by
      simp [step, hco]
    refine ⟨.reap, _, rfl, hstep, h.advance hstep (by simp) (by simp) (by simpa using h.time), ?_⟩
    have hrank := rank_setTask s side.other (s.task side.other).abort
    have habort := abort_rank (s.task side.other)
    simp only [State.rank, setTask_coordinator, hco, Coordinator.rank] at hrank ⊢
    omega
  | joined =>
    have hstep : step p s .cancel =
        some { s with cancelled := true, coordinator := .reapWatcher } := by
      simp [step, hco]
    refine ⟨.cancel, _, rfl, hstep, h.advance hstep (by simp) (by simp) h.time, ?_⟩
    simp [State.rank, hco, Coordinator.rank]
  | reapWatcher =>
    have hstep : step p s .ret =
        some { s with coordinator := .returned s.up.bytes s.down.bytes } := by
      simp [step, hco, h.watcher]
    refine ⟨.ret, _, rfl, hstep, h.advance hstep (by simp) (by simp) h.time, ?_⟩
    simp [State.rank, hco, Coordinator.rank]
  | returned up down => exact absurd (by rw [State.hasReturned, hco]) hr

theorem completes_iff {t₀ : Instant} (h : (machine p).Reachable (State.init p t₀) s)
    (hf : s.watcher = .fired) (hr : s.hasReturned ≠ true) :
    Completes p s ↔ s.bothWriting ≠ true := by
  have hinv := reachable_inv h
  have hw : s.watching = false := by rw [State.watching, hf]
  constructor
  · rintro ⟨⟨a, s', ha, hstep⟩, _⟩ hb
    rw [bothWriting_stuck hinv hw hb ha] at hstep
    cases hstep
  · intro hb
    have hdrain : Draining p s.now s := by
      refine ⟨hinv, hw, fun _ => Bool.eq_false_iff.mpr hb, fun _ => le_rfl, ?_,
        Nat.le_add_right _ _⟩
      intro side deadline hco
      have := hinv.coordinator
      simp only [CoordInv, hco] at this
      exact this.2
    obtain ⟨a, u, ha, hstep, _⟩ := hdrain.next hr
    obtain ⟨t, hpath, ht, hret⟩ :=
      Machine.exists_path_of_rank (M := machine p) State.rank
        (fun t ht hg => Draining.next ht hg) hdrain (G := fun t => t.hasReturned = true)
    exact ⟨⟨a, u, ha, hstep⟩, t, hpath, hret, ht.time⟩

def defaultParams : Params := ⟨.fromSecs 300, 32 * 1024, .fromMillis 500⟩

/-- A client that stopped reading and an upstream that stopped reading, with a byte under
way in both directions: the watcher fires and the relay stays for ever. -/
theorem idle_never_completes :
    ∃ s, (machine defaultParams).Reachable (State.init defaultParams 0) s ∧ s.watcher = .fired ∧
      s.hasReturned = false ∧ ¬ Completes defaultParams s := by
  have hrun := Machine.reachable_of_run (M := machine defaultParams)
    (s := State.init defaultParams 0)
    [.readOk .up [1], .readOk .down [2], .tick (.fromSecs 300), .fire] rfl
  refine ⟨_, hrun, rfl, rfl, ?_⟩
  rintro ⟨⟨a, s', ha, hstep⟩, _⟩
  rw [bothWriting_stuck (reachable_inv hrun) rfl rfl ha] at hstep
  cases hstep

theorem completes_iff_silent :
    ∃ s, s.watcher = .fired ∧ (Completes defaultParams s ↔ s.bothWriting ≠ true) := by
  have hrun := Machine.reachable_of_run (M := machine defaultParams)
    (s := State.init defaultParams 0) [.tick (.fromSecs 300), .fire] rfl
  exact ⟨_, rfl, completes_iff hrun rfl (by decide)⟩

end WarpRust.Proxy.Relay
