import Mathlib.Data.List.Basic
import WarpRust.Basic
import WarpRust.Library.WeakestPre

/-!
# Saving `account.json`

`persistence::save` as the calls it makes to the file system. Each call may succeed, fail, or
be the last one before a crash. What a crash leaves of the file that the path names depends
on what had reached the medium.
-/

namespace WarpRust.Warp.Persistence
open Library

variable {T : Type}

/-- `serde_json`: what was written is read back. -/
structure Codec (T : Type) where
  toVecPretty : T → Except Error Bytes
  fromSlice : Bytes → Except Error T
  fromSlice_toVecPretty : ∀ value bytes, toVecPretty value = .ok bytes → fromSlice bytes = .ok value

/-- The contents of a file, and as much of them as a power loss leaves. -/
structure Inode where
  data : Bytes
  stable : Bytes

/-- The file that `path` names, the one it names on the medium, and the temporary file. -/
structure Disk where
  entry : Option Inode
  onMedium : Option Inode
  temp : Option Inode

namespace Disk

def start (old : Option Bytes) : Disk :=
  ⟨old.map fun b => ⟨b, b⟩, old.map fun b => ⟨b, b⟩, none⟩

def sync (f : Inode) : Inode := { f with stable := f.data }

def newTemp (d : Disk) : Disk := { d with temp := some ⟨[], []⟩ }
def writeTemp (b : Bytes) (d : Disk) : Disk := { d with temp := d.temp.map ({ · with data := b }) }
def syncTemp (d : Disk) : Disk := { d with temp := d.temp.map sync }
def dropTemp (d : Disk) : Disk := { d with temp := none }
def rename (d : Disk) : Disk := { d with entry := d.temp, temp := none }
def syncFile (d : Disk) : Disk := { d with entry := d.entry.map sync }
def syncDir (d : Disk) : Disk := { d with onMedium := d.entry }

/-- What a later read of `path` may find: at once, or after a power loss that kept the entry
or lost it. -/
inductive Seen (d : Disk) : Option Bytes → Prop
  | running : Seen d (d.entry.map Inode.data)
  | kept : Seen d (d.entry.map Inode.stable)
  | lost : Seen d (d.onMedium.map Inode.stable)

end Disk

/-- The fallible calls. `write_all` is a loop: `writePart` is all it does before its last pass. -/
inductive Step where
  | parent
  | createDirAll
  | newTemp
  | writePart
  | writeAll
  | syncTemp
  | rename
  | metadata
  | setPermissions
  | reopen
  | syncFile
  | openDir
  | syncDir

inductive Verdict where
  | done
  | failed (e : Error)
  | crashed

structure Fs where
  verdict : Step → Verdict
  written : ℕ

inductive Stop where
  | err (e : Error)
  | crash
  deriving DecidableEq

abbrev SaveM := EStateM Stop Disk

/-- An error drops the temporary file, if it is still there. -/
def Fs.step (fs : Fs) (s : Step) (effect : Disk → Disk) : SaveM Unit :=
  match fs.verdict s with
  | .done => modify effect
  | .failed e => do
    modify Disk.dropTemp
    throw (.err e)
  | .crashed => do
    modify effect
    throw .crash

/-! ### The code -/

def load (codec : Codec T) : Option Bytes → Except Error (Option T)
  | some bytes => (codec.fromSlice bytes).map some
  | none => .ok none

def writeBytes (fs : Fs) (bytes : Bytes) : SaveM Unit := do
  fs.step .newTemp Disk.newTemp
  fs.step .writePart (Disk.writeTemp (bytes.take fs.written))
  fs.step .writeAll (Disk.writeTemp bytes)
  fs.step .syncTemp Disk.syncTemp

def harden (fs : Fs) : SaveM Unit := do
  fs.step .metadata id
  fs.step .setPermissions id
  fs.step .reopen id
  fs.step .syncFile Disk.syncFile
  fs.step .openDir id
  fs.step .syncDir Disk.syncDir

def replaceFile (codec : Codec T) (fs : Fs) (value : T) : SaveM Unit := do
  fs.step .parent id
  fs.step .createDirAll id
  let bytes ← ofExcept ((codec.toVecPretty value).mapError Stop.err)
  writeBytes fs bytes
  fs.step .rename Disk.rename

def save (codec : Codec T) (fs : Fs) (value : T) : SaveM Unit := do
  replaceFile codec fs value
  harden fs

/-! ### Where a run stops -/

def Fs.firstStop (fs : Fs) : List Step → Option Stop
  | [] => none
  | s :: steps =>
    match fs.verdict s with
    | .done => fs.firstStop steps
    | .failed e => some (.err e)
    | .crashed => some .crash

def Step.early : List Step :=
  [.parent, .createDirAll, .newTemp, .writePart, .writeAll, .syncTemp, .rename]

def Step.late : List Step := [.metadata, .setPermissions, .reopen, .syncFile, .openDir, .syncDir]

/-- A block of calls that stops at the first of `steps` that does: with `J` when none stops,
and with `K` otherwise. -/
def Ends (fs : Fs) (steps : List Step) (J : Disk → Prop) (K : Stop → Disk → Prop) :
    Except Stop Unit → Disk → Prop
  | .ok _, d => fs.firstStop steps = none ∧ J d
  | .error stop, d => fs.firstStop steps = some stop ∧ K stop d

section
variable {fs : Fs} {s : Step} {steps steps' : List Step} {effect : Disk → Disk} {d : Disk}
  {J J' : Disk → Prop} {K K' : Stop → Disk → Prop} {x y : SaveM Unit}

theorem firstStop_append (steps steps' : List Step) :
    fs.firstStop (steps ++ steps') = (fs.firstStop steps).or (fs.firstStop steps') := by
  induction steps with
  | nil => rfl
  | cons s steps ih =>
    rw [List.cons_append, Fs.firstStop, Fs.firstStop]
    cases fs.verdict s with
    | done => exact ih
    | failed e => rfl
    | crashed => rfl

theorem step_ends (hdone : J (effect d)) (hfailed : ∀ e, K (.err e) d.dropTemp)
    (hcrashed : K .crash (effect d)) : wp (fs.step s effect) (Ends fs [s] J K) d := by
  rw [Fs.step]
  cases hs : fs.verdict s with
  | done => exact ⟨by rw [Fs.firstStop, hs]; rfl, hdone⟩
  | failed e => exact ⟨by rw [Fs.firstStop, hs], hfailed e⟩
  | crashed => exact ⟨by rw [Fs.firstStop, hs], hcrashed⟩

theorem bind_ends (hx : wp x (Ends fs steps J K) d)
    (hy : ∀ d, J d → wp y (Ends fs steps' J' K') d) :
    wp (x >>= fun _ => y) (Ends fs (steps ++ steps') J' fun stop d =>
      fs.firstStop steps = some stop ∧ K stop d ∨ fs.firstStop steps = none ∧ K' stop d) d := by
  rw [wp_bind]
  refine wp_mono hx fun r d' h => ?_
  match r, h with
  | .error stop, ⟨hstop, hK⟩ =>
    exact ⟨by rw [firstStop_append, hstop, Option.some_or], .inl ⟨hstop, hK⟩⟩
  | .ok _, ⟨hnone, hJ⟩ =>
    refine wp_mono (hy d' hJ) fun r' d'' h' => ?_
    match r', h' with
    | .ok _, ⟨hnone', hJ'⟩ => exact ⟨by rw [firstStop_append, hnone, hnone']; rfl, hJ'⟩
    | .error stop, ⟨hstop, hK⟩ =>
      exact ⟨by rw [firstStop_append, hnone, hstop]; rfl, .inr ⟨hnone, hK⟩⟩

theorem seq_ends (hx : wp x (Ends fs steps J K) d)
    (hy : ∀ d, J d → wp y (Ends fs steps' J' K) d) :
    wp (x >>= fun _ => y) (Ends fs (steps ++ steps') J' K) d := by
  refine wp_mono (bind_ends hx hy) fun r d' h => ?_
  match r, h with
  | .ok _, h => exact h
  | .error stop, ⟨hstop, h⟩ => exact ⟨hstop, h.elim And.right And.right⟩

end

/-! ### What a run leaves -/

def Untouched (old : Option Bytes) (d : Disk) : Prop :=
  d.entry = (Disk.start old).entry ∧ d.onMedium = (Disk.start old).onMedium

def Installed (old : Option Bytes) (bytes : Bytes) (d : Disk) : Prop :=
  d.entry = some ⟨bytes, bytes⟩ ∧
    (d.onMedium = (Disk.start old).onMedium ∨ d.onMedium = some ⟨bytes, bytes⟩)

section
variable {codec : Codec T} {fs : Fs} {value : T} {old : Option Bytes} {bytes : Bytes} {d : Disk}

theorem writeBytes_ends (hd : Untouched old d) :
    wp (writeBytes fs bytes) (Ends fs [.newTemp, .writePart, .writeAll, .syncTemp]
      (fun d => Untouched old d ∧ d.temp = some ⟨bytes, bytes⟩) fun _ => Untouched old) d := by
  refine seq_ends (J := fun d => Untouched old d ∧ d.temp = some ⟨[], []⟩)
    (step_ends ⟨hd, rfl⟩ (fun _ => hd) hd) ?_
  intro d ⟨hd, htemp⟩
  refine seq_ends (J := fun d => Untouched old d ∧ ∃ part, d.temp = some ⟨part, []⟩)
    (step_ends ⟨hd, _, by rw [Disk.writeTemp, htemp]; rfl⟩ (fun _ => hd) hd) ?_
  intro d ⟨hd, part, htemp⟩
  refine seq_ends (J := fun d => Untouched old d ∧ d.temp = some ⟨bytes, []⟩)
    (step_ends ⟨hd, by rw [Disk.writeTemp, htemp]; rfl⟩ (fun _ => hd) hd) ?_
  intro d ⟨hd, htemp⟩
  exact step_ends ⟨hd, by rw [Disk.syncTemp, htemp]; rfl⟩ (fun _ => hd) hd

theorem harden_ends (hd : Installed old bytes d) :
    wp (harden fs) (Ends fs Step.late
      (fun d => Installed old bytes d ∧ d.onMedium = some ⟨bytes, bytes⟩)
      fun _ => Installed old bytes) d := by
  refine seq_ends (J := Installed old bytes) (step_ends hd (fun _ => hd) hd) fun d hd => ?_
  refine seq_ends (J := Installed old bytes) (step_ends hd (fun _ => hd) hd) fun d hd => ?_
  refine seq_ends (J := Installed old bytes) (step_ends hd (fun _ => hd) hd) fun d hd => ?_
  have hsync : Installed old bytes d.syncFile := ⟨by rw [Disk.syncFile, hd.1]; rfl, hd.2⟩
  refine seq_ends (J := Installed old bytes) (step_ends hsync (fun _ => hd) hsync) fun d hd => ?_
  refine seq_ends (J := Installed old bytes) (step_ends hd (fun _ => hd) hd) fun d hd => ?_
  have hdir : Installed old bytes d.syncDir := ⟨hd.1, .inr hd.1⟩
  exact step_ends ⟨hdir, hd.1⟩ (fun _ => hd) hdir

/-- Up to the rename an error leaves the old file; a crash may leave the new one. -/
theorem replaceFile_ends (hbytes : codec.toVecPretty value = .ok bytes) (hd : Untouched old d) :
    wp (replaceFile codec fs value) (Ends fs Step.early (Installed old bytes) fun stop d =>
      Untouched old d ∨ stop = .crash ∧ Installed old bytes d) d := by
  have hrename (d : Disk) (hd : Untouched old d ∧ d.temp = some ⟨bytes, bytes⟩) :
      wp (fs.step .rename Disk.rename) (Ends fs [.rename] (Installed old bytes) fun stop d =>
        Untouched old d ∨ stop = .crash ∧ Installed old bytes d) d := by
    have hinstalled : Installed old bytes d.rename := ⟨hd.2, .inl hd.1.2⟩
    exact step_ends hinstalled (fun _ => .inl hd.1) (.inr ⟨rfl, hinstalled⟩)
  have hwrite (d : Disk) (hd : Untouched old d) :
      wp (writeBytes fs bytes >>= fun _ => fs.step .rename Disk.rename)
        (Ends fs [.newTemp, .writePart, .writeAll, .syncTemp, .rename] (Installed old bytes)
          fun stop d => Untouched old d ∨ stop = .crash ∧ Installed old bytes d) d := by
    refine wp_mono (bind_ends (writeBytes_ends hd) hrename) fun r d h => ?_
    match r, h with
    | .ok _, h => exact h
    | .error stop, ⟨hstop, h⟩ => exact ⟨hstop, h.elim (fun h => .inl h.2) And.right⟩
  rw [replaceFile, hbytes]
  refine seq_ends (J := Untouched old) (step_ends hd (fun _ => .inl hd) (.inl hd)) fun d hd => ?_
  refine seq_ends (J := Untouched old) (step_ends hd (fun _ => .inl hd) (.inl hd)) fun d hd => ?_
  exact hwrite d hd

theorem replaceFile_refused {e : Error} (he : codec.toVecPretty value = .error e)
    (hd : Untouched old d) :
    wp (replaceFile codec fs value) (fun r d => Untouched old d ∧ r ≠ .ok ()) d := by
  have hend (d : Disk) (hd : Untouched old d) :
      wp (ofExcept ((codec.toVecPretty value).mapError Stop.err) >>= fun bytes => do
        writeBytes fs bytes
        fs.step .rename Disk.rename) (fun r d => Untouched old d ∧ r ≠ .ok ()) d := by
    rw [wp_bind, wp_ofExcept, he]
    exact ⟨hd, nofun⟩
  have hstep {s : Step} {x : SaveM Unit}
      (hx : ∀ d, Untouched old d → wp x (fun r d => Untouched old d ∧ r ≠ .ok ()) d) (d : Disk)
      (hd : Untouched old d) :
      wp (fs.step s id >>= fun _ => x) (fun r d => Untouched old d ∧ r ≠ .ok ()) d := by
    rw [wp_bind]
    have hs : wp (fs.step s id) (Ends fs [s] (Untouched old) fun _ => Untouched old) d :=
      step_ends hd (fun _ => hd) hd
    refine wp_mono hs fun r d h => ?_
    match r, h with
    | .ok _, ⟨_, hd⟩ => exact hx d hd
    | .error stop, ⟨_, hd⟩ => exact ⟨hd, nofun⟩
  exact hstep (hstep hend) d hd

end

/-! ### Runs -/

def run (codec : Codec T) (fs : Fs) (old : Option Bytes) (value : T) : Except Stop Unit × Disk :=
  outcome (save codec fs value) (.start old)

def ended : Option Stop → Except Stop Unit
  | none => .ok ()
  | some stop => .error stop

section
variable {codec : Codec T} {fs : Fs} {value : T} {old : Option Bytes} {bytes : Bytes} {e : Error}
  {content : Option Bytes}

theorem run_cases (codec : Codec T) (fs : Fs) (old : Option Bytes) (value : T) :
    (∃ stop, (run codec fs old value).1 = .error stop ∧ Untouched old (run codec fs old value).2 ∧
      ∀ bytes, codec.toVecPretty value = .ok bytes → fs.firstStop Step.early = some stop) ∨
    ∃ bytes, codec.toVecPretty value = .ok bytes ∧ Installed old bytes (run codec fs old value).2 ∧
      ((run codec fs old value).1 = .error .crash ∧ fs.firstStop Step.early = some .crash ∨
        (run codec fs old value).1 = ended (fs.firstStop Step.late) ∧
          fs.firstStop Step.early = none) := by
  have hstart : Untouched old (.start old) := ⟨rfl, rfl⟩
  cases hbytes : codec.toVecPretty value with
  | error e =>
    have h : wp (save codec fs value) (fun r d => Untouched old d ∧ r ≠ .ok ()) (.start old) := by
      rw [save, wp_bind]
      refine wp_mono (replaceFile_refused hbytes hstart) fun r d h => ?_
      match r, h with
      | .ok (), ⟨_, hr⟩ => exact absurd rfl hr
      | .error stop, ⟨hd, _⟩ => exact ⟨hd, nofun⟩
    obtain ⟨hd, hr⟩ := wp_iff_outcome.mp h
    refine .inl ?_
    rw [run]
    cases hresult : (outcome (save codec fs value) (.start old)).1 with
    | ok u => exact absurd hresult hr
    | error stop => exact ⟨stop, rfl, hd, nofun⟩
  | ok bytes =>
    have h : wp (save codec fs value) (Ends fs (Step.early ++ Step.late) _ _) (.start old) :=
      bind_ends (replaceFile_ends hbytes hstart) fun d hd => harden_ends hd
    rw [wp_iff_outcome] at h
    change Ends fs _ _ _ (run codec fs old value).1 (run codec fs old value).2 at h
    rw [Ends.eq_def] at h
    split at h
    · next r d _ hr =>
      obtain ⟨hnone, hd, _⟩ := h
      rw [firstStop_append, Option.or_eq_none_iff] at hnone
      refine .inr ⟨bytes, rfl, hd, .inr ⟨?_, hnone.1⟩⟩
      rw [hr, hnone.2]
      rfl
    · next r d stop hr =>
      obtain ⟨hstop, h⟩ := h
      rw [hr]
      rcases h with ⟨hearly, hd | ⟨rfl, hd⟩⟩ | ⟨hnone, hd⟩
      · exact .inl ⟨stop, rfl, hd, fun _ _ => hearly⟩
      · exact .inr ⟨bytes, rfl, hd, .inl ⟨rfl, hearly⟩⟩
      · rw [firstStop_append, hnone, Option.none_or] at hstop
        exact .inr ⟨bytes, rfl, hd, .inr ⟨by rw [hstop]; rfl, hnone⟩⟩

theorem Untouched.seen {d : Disk} (hd : Untouched old d) (h : d.Seen content) : content = old := by
  cases h with
  | running => rw [hd.1]; cases old <;> rfl
  | kept => rw [hd.1]; cases old <;> rfl
  | lost => rw [hd.2]; cases old <;> rfl

theorem Installed.seen {d : Disk} (hd : Installed old bytes d) (h : d.Seen content) :
    content = old ∨ content = some bytes := by
  cases h with
  | running => rw [hd.1]; exact .inr rfl
  | kept => rw [hd.1]; exact .inr rfl
  | lost =>
    rcases hd.2 with hold | hnew
    · rw [hold]; cases old <;> exact .inl rfl
    · rw [hnew]; exact .inr rfl

theorem Installed.running {d : Disk} (hd : Installed old bytes d) : d.Seen (some bytes) := by
  have h := Disk.Seen.running (d := d)
  rwa [hd.1] at h

def Spares (codec : Codec T) (fs : Fs) (old : Option Bytes) (value : T) : Prop :=
  ∀ bytes e, codec.toVecPretty value = .ok bytes → fs.firstStop Step.early = none →
    fs.firstStop Step.late = some (.err e) → old = some bytes

theorem seen_run (h : (run codec fs old value).2.Seen content) :
    content = old ∨ ∃ bytes, codec.toVecPretty value = .ok bytes ∧ content = some bytes := by
  rcases run_cases codec fs old value with ⟨_, _, hd, _⟩ | ⟨bytes, hbytes, hd, _⟩
  · exact .inl (hd.seen h)
  · exact (hd.seen h).imp_right fun hnew => ⟨bytes, hbytes, hnew⟩

/-- An error leaves the old file exactly if it is none behind the rename. -/
theorem kept_iff : (∀ e, (run codec fs old value).1 = .error (.err e) →
    ∀ content, (run codec fs old value).2.Seen content → content = old) ↔
      Spares codec fs old value := by
  rcases run_cases codec fs old value with ⟨stop, hr, hd, hearly⟩ |
    ⟨bytes, hbytes, hd, ⟨hr, hearly⟩ | ⟨hr, hearly⟩⟩
  · refine iff_of_true (fun _ _ _ h => hd.seen h) fun bytes e hbytes hnone _ => ?_
    rw [hearly bytes hbytes] at hnone
    cases hnone
  · refine iff_of_true (fun e he => ?_) fun _ e _ hnone _ => ?_
    · rw [hr] at he
      cases he
    · rw [hearly] at hnone
      cases hnone
  · constructor
    · intro h bytes' e hbytes' _ hlate
      rw [hbytes] at hbytes'
      cases hbytes'
      rw [hlate] at hr
      exact (h e hr _ hd.running).symm
    · intro h e he content hseen
      have hlate : fs.firstStop Step.late = some (.err e) := by
        rw [hr] at he
        cases hstop : fs.firstStop Step.late with
        | none =>
          rw [hstop] at he
          cases he
        | some stop =>
          rw [hstop] at he
          cases he
          rfl
      have hold := h bytes e hbytes hearly hlate
      rcases hd.seen hseen with hc | hc
      · exact hc
      · exact hc.trans hold.symm

theorem load_toVecPretty (h : codec.toVecPretty value = .ok bytes) :
    load codec (some bytes) = .ok (some value) := by
  rw [load, codec.fromSlice_toVecPretty value bytes h]
  rfl

end

end WarpRust.Warp.Persistence
