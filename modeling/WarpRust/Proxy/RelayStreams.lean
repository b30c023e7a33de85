import Mathlib.Logic.Function.Basic
import WarpRust.Proxy.Relay

/-!
# What the relay delivers

The relay between two byte streams. A read takes the next bytes of its source, and a source
reports its end only when all of it has been read. The caller may drop the relay at any time,
which aborts both of its tasks.
-/

namespace WarpRust.Proxy.Relay
open Library

/-- `source` is what a side has not handed over yet, `eof` is history: the direction ended
because its source reported the end. -/
structure Fed where
  relay : State
  source : Side → List UInt8
  eof : Side → Bool
  dropped : Bool

namespace Fed

def init (p : Params) (start : Instant) (stream : Side → List UInt8) : Fed :=
  ⟨.init p start, stream, fun _ => false, false⟩

inductive Action where
  | own (a : Relay.Action) (h : ∀ side, a ≠ .readEnd side)
  | readEof (side : Side)
  | readErr (side : Side)
  | drop

def sourceAfter (a : Relay.Action) (source : Side → List UInt8) : Side → List UInt8 :=
  match a with
  | .readOk side chunk => Function.update source side ((source side).drop chunk.length)
  | _ => source

def mayRead (a : Relay.Action) (source : Side → List UInt8) : Prop :=
  match a with
  | .readOk side chunk => chunk <+: source side
  | _ => True

instance (a : Relay.Action) (source : Side → List UInt8) : Decidable (mayRead a source) := by
  unfold mayRead
  split <;> infer_instance

def abort (s : State) : State := { s with up := s.up.abort, down := s.down.abort }

def machine (p : Params) : Machine Fed Action where
  step s a :=
    if s.dropped then none
    else
      match a with
      | .own a _ =>
        if mayRead a s.source then
          (step p s.relay a).map fun r => { s with relay := r, source := sourceAfter a s.source }
        else none
      | .readEof side =>
        if s.source side = [] then
          (step p s.relay (.readEnd side)).map fun r =>
            { s with relay := r, eof := Function.update s.eof side true }
        else none
      | .readErr side => (step p s.relay (.readEnd side)).map ({ s with relay := · })
      | .drop => some { s with relay := abort s.relay, dropped := true }

end Fed

/-! ### One direction -/

inductive Changed : Task → Task → Prop
  | same (t : Task) : Changed t t
  | more {t : Task} {chunk rest : List UInt8} (k : ℕ) (hpos : t.pos = .writing chunk rest)
      (hk : k < rest.length) : Changed t
        { t with delivered := t.delivered ++ rest.take k, pos := .writing chunk (rest.drop k) }
  | whole {t : Task} {chunk rest : List UInt8} (hpos : t.pos = .writing chunk rest) : Changed t
      { t with
        delivered := t.delivered ++ rest, pos := .select, bytes := t.bytes + chunk.length }
  | leave {t : Task} (hpos : t.pos = .select ∨ ∃ chunk rest, t.pos = .writing chunk rest) :
      Changed t { t with pos := .closing }
  | closed {t : Task} (hpos : t.pos = .closing) : Changed t { t with pos := .finished }
  | aborted (t : Task) : Changed t t.abort

/-- The order of the bytes of one direction. `chunk` is counted when all of it is delivered. -/
structure Faithful (stream : List UInt8) (t : Task) (source : List UInt8) (eof : Bool) : Prop where
  read_append : t.read ++ source = stream
  delivered_prefix : t.delivered <+: t.read
  bytes_le : t.bytes ≤ t.delivered.length
  select : t.pos = .select → t.delivered = t.read ∧ t.bytes = t.read.length
  writing : ∀ chunk rest, t.pos = .writing chunk rest →
    t.delivered ++ rest = t.read ∧ t.bytes + chunk.length = t.read.length
  all : eof = true → t.delivered = stream ∧ t.bytes = stream.length
  left : eof = true → t.pos ≠ .select ∧ t.pos.isWriting = false

section
variable {p : Params} {s s' : State} {t t' : Task} {stream source chunk : List UInt8} {eof : Bool}
  {side side' : Side} {a : Action}

theorem faithful_fresh (stream : List UInt8) : Faithful stream .fresh stream false where
  read_append := rfl
  delivered_prefix := List.prefix_rfl
  bytes_le := le_rfl
  select := fun _ => ⟨rfl, rfl⟩
  writing := nofun
  all := nofun
  left := nofun

theorem Faithful.move {pos : Pos} (h : Faithful stream t source eof) (hselect : pos ≠ .select)
    (hwriting : pos.isWriting = false) : Faithful stream { t with pos } source eof where
  read_append := h.read_append
  delivered_prefix := h.delivered_prefix
  bytes_le := h.bytes_le
  select := fun hpos => absurd hpos hselect
  writing := by
    intro chunk rest hpos
    change pos = .writing chunk rest at hpos
    rw [hpos] at hwriting
    cases hwriting
  all := h.all
  left := fun _ => ⟨hselect, hwriting⟩

theorem Faithful.open_of_writing {rest : List UInt8} (h : Faithful stream t source eof)
    (hpos : t.pos = .writing chunk rest) : eof = true → False := by
  intro he
  have hfalse := (h.left he).2
  rw [hpos] at hfalse
  cases hfalse

theorem Faithful.changed (h : Faithful stream t source eof) (hc : Changed t t') :
    Faithful stream t' source eof := by
  cases hc with
  | same => exact h
  | @more chunk rest k hpos hk =>
    obtain ⟨hread, hcount⟩ := h.writing chunk rest hpos
    have heof := h.open_of_writing hpos
    refine ⟨h.read_append, ?_, ?_, nofun, ?_, fun he => (heof he).elim, fun he => (heof he).elim⟩
    · refine ⟨rest.drop k, ?_⟩
      rw [List.append_assoc, List.take_append_drop, hread]
    · rw [List.length_append]
      exact h.bytes_le.trans (Nat.le_add_right _ _)
    · intro chunk' rest' hpos'
      cases hpos'
      rw [List.append_assoc, List.take_append_drop]
      exact ⟨hread, hcount⟩
  | @whole chunk rest hpos =>
    obtain ⟨hread, hcount⟩ := h.writing chunk rest hpos
    have heof := h.open_of_writing hpos
    refine ⟨h.read_append, ?_, ?_, fun _ => ⟨hread, hcount⟩, nofun, fun he => (heof he).elim,
      fun he => (heof he).elim⟩
    · rw [hread]
    · rw [hread]
      exact hcount.le
  | leave => exact h.move nofun rfl
  | closed => exact h.move nofun rfl
  | aborted =>
    unfold Task.abort
    split
    · exact h
    · exact h.move nofun rfl

theorem Faithful.readOk (h : Faithful stream t source eof) (hpos : t.pos = .select)
    (hchunk : chunk <+: source) :
    Faithful stream { t with pos := .writing chunk chunk, read := t.read ++ chunk }
      (source.drop chunk.length) eof := by
  obtain ⟨rest, rfl⟩ := hchunk
  obtain ⟨hread, hcount⟩ := h.select hpos
  have heof : eof = true → False := fun he => (h.left he).1 hpos
  refine ⟨?_, ?_, h.bytes_le, nofun, ?_, fun he => (heof he).elim, fun he => (heof he).elim⟩
  · rw [List.drop_left, List.append_assoc]
    exact h.read_append
  · exact h.delivered_prefix.trans (List.prefix_append _ _)
  · intro chunk' rest' hpos'
    cases hpos'
    rw [List.length_append]
    exact ⟨congrArg (· ++ chunk) hread, congrArg (· + chunk.length) hcount⟩

theorem Faithful.readEof (h : Faithful stream t [] eof) (hpos : t.pos = .select) :
    Faithful stream { t with pos := .closing } [] true := by
  obtain ⟨hread, hcount⟩ := h.select hpos
  have hstream : t.read = stream := by
    rw [← h.read_append, List.append_nil]
  refine ⟨h.read_append, h.delivered_prefix, h.bytes_le, nofun, nofun, fun _ => ?_,
    fun _ => ⟨nofun, rfl⟩⟩
  exact ⟨hread.trans hstream, hcount.trans (congrArg _ hstream)⟩

/-! ### Steps and runs -/

theorem changed_setTask (h : Changed (s.task side) t) :
    Changed (s.task side') ((s.setTask side t).task side') := by
  rw [task_setTask]
  by_cases hs : side' = side
  · rw [if_pos hs, hs]
    exact h
  · rw [if_neg hs]
    exact .same _

theorem changed_wrote {rest : List UInt8} {k : ℕ} (hpos : (s.task side).pos = .writing chunk rest)
    (hk : k ≤ rest.length) :
    Changed (s.task side') ((s.wrote side chunk rest k).task side') := by
  unfold State.wrote
  by_cases hwhole : k = rest.length
  · have h : Changed (s.task side) { s.task side with
        delivered := (s.task side).delivered ++ rest.take k, pos := .select,
        bytes := (s.task side).bytes + chunk.length } := by
      rw [hwhole, List.take_length]
      exact .whole hpos
    rw [if_pos hwhole]
    exact changed_setTask h
  · rw [if_neg hwhole]
    exact changed_setTask (.more k hpos (lt_of_le_of_ne hk hwhole))

theorem step_changed (ha : Step p s a s') (hok : ∀ side chunk, a ≠ .readOk side chunk)
    (hend : ∀ side, a ≠ .readEnd side) (side : Side) : Changed (s.task side) (s'.task side) := by
  cases ha with
  | readOk => exact absurd rfl (hok _ _)
  | readEnd => exact absurd rfl (hend _)
  | write hpos _ hk => exact changed_wrote hpos hk
  | writeErr hpos => exact changed_setTask (.leave (.inr ⟨_, _, hpos⟩))
  | observe hpos => exact changed_setTask (.leave (.inl hpos))
  | close hpos => exact changed_setTask (.closed hpos)
  | reap => exact changed_setTask (.aborted _)
  | _ => exact .same _

end

def Fed.Inv (stream : Side → List UInt8) (s : Fed) : Prop :=
  ∀ side, Faithful (stream side) (s.relay.task side) (s.source side) (s.eof side)

section
variable {p : Params} {stream : Side → List UInt8} {s t : Fed} {a : Fed.Action}

theorem Fed.inv_init (start : Instant) (stream : Side → List UInt8) :
    Fed.Inv stream (.init p start stream) := by
  intro side
  cases side with
  | up => exact faithful_fresh _
  | down => exact faithful_fresh _

theorem Fed.inv_own {a : Relay.Action} {r : State} (hs : Fed.Inv stream s)
    (h : step p s.relay a = some r) (hread : Fed.mayRead a s.source)
    (hend : ∀ side, a ≠ .readEnd side) :
    Fed.Inv stream { s with relay := r, source := Fed.sourceAfter a s.source } := by
  intro side
  by_cases hok : ∃ side' chunk, a = .readOk side' chunk
  · obtain ⟨side', chunk, rfl⟩ := hok
    cases step_cases h with
    | readOk hpos _ _ _ =>
      change Faithful _ ((s.relay.setTask side' _).task side)
        (Function.update s.source side' _ side) _
      rw [task_setTask, Function.update_apply]
      by_cases hside : side = side'
      · subst hside
        rw [if_pos rfl, if_pos rfl]
        exact (hs side).readOk hpos hread
      · rw [if_neg hside, if_neg hside]
        exact hs side
  · have hne (side' : Side) (chunk : List UInt8) : a ≠ .readOk side' chunk :=
      fun ha => hok ⟨side', chunk, ha⟩
    have hsource : Fed.sourceAfter a s.source = s.source := by
      cases a with
      | readOk side' chunk => exact absurd rfl (hne side' chunk)
      | _ => rfl
    change Faithful _ _ (Fed.sourceAfter a s.source side) _
    rw [hsource]
    exact (hs side).changed (step_changed (step_cases h) hne hend side)

theorem Fed.inv_step (hs : Fed.Inv stream s) (h : (Fed.machine p).step s a = some t) :
    Fed.Inv stream t := by
  simp only [Fed.machine] at h
  split at h
  · cases h
  cases a with
  | own a hend =>
    simp only [] at h
    split at h
    · next hread =>
      obtain ⟨r, hr, rfl⟩ := Option.map_eq_some_iff.mp h
      exact Fed.inv_own hs hr hread hend
    · cases h
  | readEof side =>
    simp only [] at h
    split at h
    · next hsource =>
      obtain ⟨r, hr, rfl⟩ := Option.map_eq_some_iff.mp h
      intro side'
      cases step_cases hr with
      | readEnd hpos _ =>
        change Faithful _ ((s.relay.setTask side _).task side') _
          (Function.update s.eof side true side')
        rw [task_setTask, Function.update_apply]
        by_cases hside : side' = side
        · subst hside
          have hfed := hs side'
          rw [hsource] at hfed
          rw [if_pos rfl, if_pos rfl]
          change Faithful _ _ (s.source side') _
          rw [hsource]
          exact hfed.readEof hpos
        · rw [if_neg hside, if_neg hside]
          exact hs side'
    · cases h
  | readErr side =>
    obtain ⟨r, hr, rfl⟩ := Option.map_eq_some_iff.mp h
    intro side'
    cases step_cases hr with
    | readEnd hpos _ => exact (hs side').changed (changed_setTask (.leave (.inl hpos)))
  | drop =>
    obtain rfl := Option.some.inj h
    intro side
    cases side with
    | up => exact (hs .up).changed (.aborted _)
    | down => exact (hs .down).changed (.aborted _)

theorem Fed.reachable_inv {start : Instant}
    (h : (Fed.machine p).Reachable (.init p start stream) s) : Fed.Inv stream s :=
  h.invariant (inv_init start stream) fun _ _ _ => inv_step

/-! ### The returned counts -/

theorem Changed.bytes_le {t t' : Task} (h : Changed t t') : t.bytes ≤ t'.bytes := by
  cases h with
  | whole => exact Nat.le_add_right _ _
  | aborted =>
    unfold Task.abort
    split <;> exact le_rfl
  | _ => exact le_rfl

theorem bytes_le_step {a : Relay.Action} {r r' : State} (ha : Step p r a r') (side : Side) :
    (r.task side).bytes ≤ (r'.task side).bytes := by
  have hset {side' : Side} {t : Task} (ht : (r.task side').bytes ≤ t.bytes) :
      (r.task side).bytes ≤ ((r.setTask side' t).task side).bytes := by
    rw [task_setTask]
    by_cases hside : side = side'
    · rw [if_pos hside, hside]
      exact ht
    · rw [if_neg hside]
  cases ha with
  | readOk hpos => exact hset le_rfl
  | readEnd hpos => exact hset le_rfl
  | write hpos _ hk => exact (changed_wrote hpos hk).bytes_le
  | writeErr hpos => exact hset le_rfl
  | observe hpos => exact hset le_rfl
  | close hpos => exact hset le_rfl
  | reap => exact hset (Changed.aborted _).bytes_le
  | _ => exact le_rfl

def Snapshot (r : State) : Prop :=
  ∀ up down, r.coordinator = .returned up down → up ≤ r.up.bytes ∧ down ≤ r.down.bytes

theorem snapshot_step {a : Relay.Action} {r r' : State} (hr : Snapshot r) (ha : Step p r a r') :
    Snapshot r' := by
  intro up down hreturned
  by_cases hsame : r'.coordinator = r.coordinator
  · obtain ⟨hup, hdown⟩ := hr up down (hsame ▸ hreturned)
    exact ⟨hup.trans (bytes_le_step ha .up), hdown.trans (bytes_le_step ha .down)⟩
  · cases ha with
    | ret =>
      cases hreturned
      exact ⟨le_rfl, le_rfl⟩
    | first => cases hreturned
    | peerDone => cases hreturned
    | graceExpire => cases hreturned
    | reap => cases hreturned
    | cancel => cases hreturned
    | readOk => exact absurd (setTask_coordinator _ _ _) hsame
    | readEnd => exact absurd (setTask_coordinator _ _ _) hsame
    | write => exact absurd (wrote_coordinator _ _ _ _) hsame
    | writeErr => exact absurd (setTask_coordinator _ _ _) hsame
    | observe => exact absurd (setTask_coordinator _ _ _) hsame
    | close => exact absurd (setTask_coordinator _ _ _) hsame
    | _ => exact absurd rfl hsame

theorem snapshot_abort {r : State} (hr : Snapshot r) : Snapshot (Fed.abort r) := by
  intro up down hreturned
  obtain ⟨hup, hdown⟩ := hr up down hreturned
  exact ⟨hup.trans (Changed.aborted r.up).bytes_le, hdown.trans (Changed.aborted r.down).bytes_le⟩

theorem Fed.snapshot_step (hs : Snapshot s.relay) (h : (Fed.machine p).step s a = some t) :
    Snapshot t.relay := by
  simp only [Fed.machine] at h
  split at h
  · cases h
  cases a with
  | own a hend =>
    simp only [] at h
    split at h
    · obtain ⟨r, hr, rfl⟩ := Option.map_eq_some_iff.mp h
      exact Relay.snapshot_step hs (step_cases hr)
    · cases h
  | readEof side =>
    simp only [] at h
    split at h
    · obtain ⟨r, hr, rfl⟩ := Option.map_eq_some_iff.mp h
      exact Relay.snapshot_step hs (step_cases hr)
    · cases h
  | readErr side =>
    obtain ⟨r, hr, rfl⟩ := Option.map_eq_some_iff.mp h
    exact Relay.snapshot_step hs (step_cases hr)
  | drop =>
    obtain rfl := Option.some.inj h
    exact snapshot_abort hs

/-- At every moment a side has a prefix of what was read from the other, no more is counted than
delivered, and a direction that ended with its source delivered and counted all of it. -/
theorem relay_delivers {start : Instant} (h : (Fed.machine p).Reachable (.init p start stream) s) :
    (∀ side, (s.relay.task side).delivered <+: (s.relay.task side).read ∧
      (s.relay.task side).read <+: stream side ∧
      (s.relay.task side).bytes ≤ (s.relay.task side).delivered.length ∧
      (s.eof side = true → (s.relay.task side).delivered = stream side ∧
        (s.relay.task side).bytes = (stream side).length)) ∧
    ∀ up down, s.relay.coordinator = .returned up down →
      up ≤ s.relay.up.delivered.length ∧ down ≤ s.relay.down.delivered.length := by
  have hinv := Fed.reachable_inv h
  have hsnapshot : Snapshot s.relay :=
    h.invariant (I := fun s => Snapshot s.relay) nofun fun _ _ _ => Fed.snapshot_step
  constructor
  · intro side
    have hside := hinv side
    exact ⟨hside.delivered_prefix, ⟨_, hside.read_append⟩, hside.bytes_le, hside.all⟩
  · intro up down hreturned
    obtain ⟨hup, hdown⟩ := hsnapshot up down hreturned
    exact ⟨hup.trans (hinv .up).bytes_le, hdown.trans (hinv .down).bytes_le⟩

end

theorem relay_delivers_chunks : ∃ s, (Fed.machine ⟨300, 2, 5⟩).Reachable
      (.init ⟨300, 2, 5⟩ 0 fun side => if side = .up then [1, 2, 3] else []) s ∧
    s.eof .up = true ∧ s.relay.up.delivered = [1, 2, 3] ∧ s.relay.up.bytes = 3 := by
  have h : (Fed.machine ⟨300, 2, 5⟩).Reachable
      (.init ⟨300, 2, 5⟩ 0 fun side => if side = .up then [1, 2, 3] else []) _ :=
    Machine.reachable_of_run
      [.own (.readOk .up [1, 2]) nofun, .own (.write .up 1) nofun, .own (.write .up 1) nofun,
        .own (.readOk .up [3]) nofun, .own (.write .up 1) nofun, .readEof .up] rfl
  obtain ⟨_, _, _, hall⟩ := (relay_delivers h).1 .up
  exact ⟨_, h, rfl, hall rfl⟩

end WarpRust.Proxy.Relay
