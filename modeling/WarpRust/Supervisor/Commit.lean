import WarpRust.Supervisor.Outcome
import WarpRust.Warp.Persistence

/-!
# Committing an account

What `persistence::save` may do under the two actions that commit an account, and when an
error of theirs leaves `account.json` and the credentials in memory the same.
-/

namespace WarpRust.Supervisor
open Library Warp Persistence

def contents (codec : Codec AccountFile) (fs : Fs) (old : Option Bytes) (file : AccountFile) :
    Option Bytes :=
  (run codec fs old file).2.entry.map Inode.data

def Reports (codec : Codec AccountFile) (fs : Fs) (old : Option Bytes) (file : AccountFile) :
    Saved → Prop
  | .ok =>
    (run codec fs old file).1 = .ok () ∧
      Persistence.load codec (contents codec fs old file) = .ok (some file)
  | .keptOld e =>
    (run codec fs old file).1 = .error (.err e) ∧
      Persistence.load codec (contents codec fs old file) = Persistence.load codec old
  | .installedNew e =>
    (run codec fs old file).1 = .error (.err e) ∧
      Persistence.load codec (contents codec fs old file) = .ok (some file)

def Agrees (w : World) : Prop := ∃ registeredAt, w.host.accountJson = some ⟨w.creds, registeredAt⟩

structure Atomic (codec : Codec AccountFile) (fs : Fs) (old : Option Bytes) (file : AccountFile) :
    Prop where
  complete : ∀ content, (run codec fs old file).2.Seen content →
    content = old ∨ ∃ bytes, codec.toVecPretty file = .ok bytes ∧ content = some bytes
  kept : ∀ e, (run codec fs old file).1 = .error (.err e) →
    ∀ content, (run codec fs old file).2.Seen content → content = old
  agrees : ∀ (cfg : Config) (env : Env) (w w' : World) (a : RecoveryAction) (e : Error),
    Persistence.load codec old = .ok w.host.accountJson → Agrees w →
    a = .reregister ∨ a = .rotateIdentity →
    outcome (perform cfg env a) w = (.error (.err e), w') →
    -- the account it was about to commit is `file`
    Reports codec fs old file env.saved →
    w'.host.accountJson = w.host.accountJson ∨ w'.host.accountJson = some file →
    Agrees w'

section
variable {codec : Codec AccountFile} {fs : Fs} {old : Option Bytes} {file : AccountFile}

theorem seen_contents : (run codec fs old file).2.Seen (contents codec fs old file) := .running

theorem exists_reports (h : (run codec fs old file).1 ≠ .error .crash) :
    ∃ saved, Reports codec fs old file saved := by
  rcases run_cases codec fs old file with ⟨stop, hr, hd, _⟩ |
    ⟨bytes, hbytes, hd, ⟨hr, _⟩ | ⟨hr, _⟩⟩
  · cases stop with
    | crash => exact absurd hr h
    | err e =>
      refine ⟨.keptOld e, hr, ?_⟩
      rw [hd.seen seen_contents]
  · exact absurd hr h
  · have hnew : contents codec fs old file = some bytes := by
      rw [contents, hd.1]
      rfl
    have hload : Persistence.load codec (contents codec fs old file) = .ok (some file) := by
      rw [hnew, load_toVecPretty hbytes]
    cases hstop : fs.firstStop Step.late with
    | none => exact ⟨.ok, by rw [hr, hstop]; rfl, hload⟩
    | some stop =>
      cases stop with
      | crash => exact absurd (by rw [hr, hstop]; rfl) h
      | err e => exact ⟨.installedNew e, by rw [hr, hstop]; rfl, hload⟩

/-- The account manager's `save` is the one of `persistence`. -/
theorem save_refines {env : Env} {h : Host} (hreports : Reports codec fs old file env.saved)
    (hold : Persistence.load codec old = .ok h.accountJson) :
    wp (Warp.save env file) (fun r h' =>
      (∀ e, r = .error (.err e) ↔ (run codec fs old file).1 = .error (.err e)) ∧
      Persistence.load codec (contents codec fs old file) = .ok h'.accountJson) h := by
  rw [wp_save]
  cases hsaved : env.saved with
  | ok =>
    rw [hsaved] at hreports
    refine ⟨fun e => ?_, hreports.2⟩
    rw [hreports.1]
    exact iff_of_false nofun nofun
  | keptOld e =>
    rw [hsaved] at hreports
    refine ⟨fun e' => ?_, hreports.2.trans hold⟩
    rw [hreports.1]
    simp
  | installedNew e =>
    rw [hsaved] at hreports
    refine ⟨fun e' => ?_, hreports.2⟩
    rw [hreports.1]
    simp

theorem agrees_of_spares (hspares : Spares codec fs old file) {cfg : Config} {env : Env}
    {w w' : World} {a : RecoveryAction} {e : Error}
    (hload : Persistence.load codec old = .ok w.host.accountJson) (hw : Agrees w)
    (ha : a ≠ .none) (hrun : outcome (perform cfg env a) w = (.error (.err e), w'))
    (hreports : Reports codec fs old file env.saved)
    (hfile : w'.host.accountJson = w.host.accountJson ∨ w'.host.accountJson = some file) :
    Agrees w' := by
  obtain ⟨registeredAt, hjson⟩ := hw
  have hattempted : wp (perform cfg env a) _ w := perform_attempted ha
  rw [wp_iff_outcome, hrun] at hattempted
  cases hattempted with
  | stopped hh => exact ⟨registeredAt, hh.accountJson.trans hjson⟩
  | refused hh => exact ⟨registeredAt, hh.accountJson.trans hjson⟩
  | @unsaved h pool c e json _ hh _ hsaved =>
    rcases hsaved with ⟨_, hkept⟩ | ⟨hnew, _⟩
    · exact ⟨registeredAt, hkept.trans hjson⟩
    · -- the new file is in place, so it is the old one
      rw [hnew] at hreports
      have hsame := kept_iff.mpr hspares e hreports.1 _ seen_contents
      have hold := hreports.2
      rw [hsame, hload, Except.ok.injEq] at hold
      refine ⟨registeredAt, ?_⟩
      rcases hfile with hfile | hfile
      · exact hfile.trans hjson
      · exact hfile.trans (hold.symm.trans hjson)

/-- `save` is atomic on errors exactly if nothing fails behind the rename, or if the file
holds what it held before. -/
theorem save_atomic_iff (codec : Codec AccountFile) (fs : Fs) (old : Option Bytes)
    (file : AccountFile) : Atomic codec fs old file ↔ Spares codec fs old file := by
  constructor
  · intro h
    exact kept_iff.mp h.kept
  · intro hspares
    refine ⟨fun _ => seen_run, kept_iff.mpr hspares, ?_⟩
    intro cfg env w w' a e hload hw ha hrun hreports hfile
    have hne : a ≠ .none := by
      rcases ha with rfl | rfl
      · nofun
      · nofun
    exact agrees_of_spares hspares hload hw hne hrun hreports hfile

end

/-! ### A change of permissions that fails -/

namespace Sample

def account (deviceId : String) (registeredAt : ℕ) : AccountFile :=
  ⟨⟨deviceId, "t", 0, "", none, false⟩, registeredAt⟩

def text (deviceId registeredAt : String) : Bytes :=
  String.toUTF8 ("\x7b\n  \"credentials\": \x7b\n    \"device_id\": \"" ++ deviceId ++
    "\",\n    \"access_token\": \"t\",\n    \"private_key\": \"" ++
    "AAAAAAAAAAAAAAAAAAAAAAAAAAAAAAAAAAAAAAAAAAA=\",\n    \"license_key\": \"\",\n    " ++
    "\"is_teams\": false\n  \x7d,\n  \"registered_at\": " ++ registeredAt ++ "\n\x7d") |>.toList

theorem text_ne : text "a" "1" ≠ text "b" "2" := by decide +kernel

def codec : Codec AccountFile where
  toVecPretty file :=
    if file = account "a" 1 then .ok (text "a" "1")
    else if file = account "b" 2 then .ok (text "b" "2")
    else .error (.json [])
  fromSlice bytes :=
    if bytes = text "a" "1" then .ok (account "a" 1)
    else if bytes = text "b" "2" then .ok (account "b" 2)
    else .error (.json [])
  fromSlice_toVecPretty := by
    intro file bytes h
    split_ifs at h with ha hb
    · cases h
      rw [if_pos rfl, ha]
    · cases h
      rw [if_neg text_ne.symm, if_pos rfl, hb]

def fs : Fs where
  verdict
    | .setPermissions => .failed (.io [.lit "Operation not permitted (os error 1)"])
    | _ => .done
  written := 0

end Sample

/-- The new account is in place although `save` returned an error. -/
theorem save_atomic_fails :
    ¬ Atomic Sample.codec Sample.fs (some (Sample.text "a" "1")) (Sample.account "b" 2) := by
  intro h
  have hne : Sample.account "b" 2 ≠ Sample.account "a" 1 := by decide
  have hnew : Sample.codec.toVecPretty (Sample.account "b" 2) = .ok (Sample.text "b" "2") := by
    simp only [Sample.codec, if_neg hne, if_true]
  have hsame := kept_iff.mp h.kept _ _ hnew rfl rfl
  exact Sample.text_ne (Option.some.inj hsame)

end WarpRust.Supervisor
