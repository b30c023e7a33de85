import WarpRust.Install.Retune
import WarpRust.Install.SetToml

/-!
# The concurrency tuner

`tune-concurrency.sh` from the memory of the machine, the profile and `--max` to the five
values it sets, and the validation of the configuration that is loaded with them. Integers
are those of the shell: 64 bits that wrap in `$(( … ))`, and no integer at all to `[ … ]`
where they do not fit.
-/

namespace WarpRust.Install

/-! ### Shell integers -/

def wrap (n : ℤ) : ℤ := n.bmod (2 ^ 64)

def digitsValue (digits : Line) : ℕ := Nat.ofDigitChars 10 digits 0

/-- What `[ … -gt … ]` takes digits for. -/
def testValue (digits : Line) : Option ℕ :=
  if digitsValue digits < 2 ^ 63 then some (digitsValue digits) else none

/-- What `$(( … ))` takes digits for: a leading zero announces octal. -/
def constant (digits : Line) : Option ℤ :=
  if digits.head? = some '0' then
    if ∀ c ∈ digits, c ≠ '8' ∧ c ≠ '9' then some (wrap (Nat.ofDigitChars 8 digits 0)) else none
  else some (wrap (digitsValue digits))

/-- An arithmetic error leaves the variable without a value, and under `set -u` its first use
ends the script. -/
def divide (a b : ℤ) : Option ℤ := if b = 0 then none else some (wrap (a.tdiv b))

/-! ### The script -/

inductive Profile where
  | balanced
  | maxConn
  deriving DecidableEq

namespace Profile

def newTcpBuf : Profile → ℕ
  | balanced => 131072
  | maxConn => 65536

def newRelay : Profile → ℕ
  | balanced => 32768
  | maxConn => 16384

def perConn (p : Profile) : ℕ := (p.newTcpBuf + p.newRelay) * 2

end Profile

def newDials : ℕ := 512
def newCto : Line := "\"8s\"".toList
def configCeiling : ℕ := 16384

def text (n : ℕ) : Line := Nat.toDigits 10 n

/-- Half of the memory in connections, down to a multiple of 1024, and at least 1024. -/
def adaptiveMax (p : Profile) (memBytes : ℤ) : ℕ :=
  let newMax := (memBytes.tdiv 2).tdiv p.perConn
  let newMax := wrap (newMax.tdiv 1024 * 1024)
  if newMax < 1024 then 1024 else newMax.toNat

def chooseMax (p : Profile) (forceMax : Option Line) (memBytes : ℤ) : Option Line :=
  match forceMax with
  | some digits => if digits ≠ [] ∧ ∀ c ∈ digits, c.isDigit then some digits else none
  | none => some (text (adaptiveMax p memBytes))

/-- A text that is no integer to the test stays as it is. -/
def converge (newMax : Line) : Line :=
  match testValue newMax with
  | some n => if configCeiling < n then text configCeiling else newMax
  | none => newMax

structure Settings where
  newMax : Line
  newDials : Line
  newRelay : Line
  newCto : Line
  newTcpBuf : Line
  deriving DecidableEq

def settings (p : Profile) (newMax : Line) : Settings :=
  ⟨newMax, text newDials, text p.newRelay, newCto, text p.newTcpBuf⟩

/-- `none` where the script dies. Its warnings, the table it prints, `--dry-run` and
`--revert` are left out. -/
def tuneConcurrency (memKb : ℕ) (p : Profile) (forceMax : Option Line) : Option Settings :=
  if 0 < memKb ∧ memKb < 2 ^ 63 then do
    let memBytes := wrap (memKb * 1024)
    let newMax := converge (← chooseMax p forceMax memBytes)
    let budget := wrap ((← constant newMax) * p.perConn)
    let pct ← divide (wrap (budget * 100)) memBytes
    if 80 ≤ pct then none else some (settings p newMax)
  else none

/-! ### The configuration it leaves -/

def totalSystemMemoryBytes (memKb : ℕ) : Option ℕ :=
  if memKb * 1024 < 2 ^ 64 then some (memKb * 1024) else none

def Settings.loaded (D : Decoder) (s : Settings) (cfg : Config) : Option Config := do
  let connections ← D.usize (' ' :: s.newMax)
  let pending ← D.usize (' ' :: s.newDials)
  let timeout ← D.duration (' ' :: s.newCto)
  let relay ← D.usize (' ' :: s.newRelay)
  let tcp ← D.usize (' ' :: s.newTcpBuf)
  some { cfg with
    warp := { cfg.warp with tcpBufferSize := tcp }
    limits := { cfg.limits with
      maxConcurrentConnections := connections
      maxPendingDials := pending
      connectTimeout := timeout
      relayBufferSize := relay } }

def NoLeadingZero (digits : Line) : Prop := digits.head? = some '0' → digits = ['0']

instance (digits : Line) : Decidable (NoLeadingZero digits) := inferInstanceAs (Decidable (_ → _))

/-- What TOML says of the digits the script writes: an integer has no leading zero and fits 64
bits with its sign. -/
structure Decoder.ReadsIntegers (D : Decoder) : Prop where
  usize_digits : ∀ digits : Line, digits ≠ [] → (∀ c ∈ digits, c.isDigit) →
    D.usize (' ' :: digits) =
      if NoLeadingZero digits ∧ digitsValue digits < 2 ^ 63 then some (digitsValue digits) else none
  duration_seconds : D.duration (' ' :: newCto) = some (.fromSecs 8)

def Profile.tuned (p : Profile) (connections : ℕ) (cfg : Config) : Config :=
  { cfg with
    warp := { cfg.warp with tcpBufferSize := p.newTcpBuf }
    limits := { cfg.limits with
      maxConcurrentConnections := connections
      maxPendingDials := newDials
      connectTimeout := .fromSecs 8
      relayBufferSize := p.newRelay } }

/-- The bytes of full load under a profile: what the script counts, and the second socket of
every dial, which it does not. -/
def Profile.loadBytes (p : Profile) (connections parallel : ℕ) : ℕ :=
  p.perConn * connections + 2 * p.newTcpBuf * (parallel - 1) * newDials

/-! ### Digits -/

section
variable {D : Decoder} {p : Profile} {memKb n : ℕ} {digits newMax : Line} {cfg : Config}

theorem digitsValue_text (n : ℕ) : digitsValue (text n) = n := Nat.ofDigitChars_ten_toDigits

theorem text_ne_nil (n : ℕ) : text n ≠ [] := Nat.toDigits_ne_nil

theorem isDigit_text {c : Char} (hc : c ∈ text n) : c.isDigit :=
  Nat.isDigit_of_mem_toDigits (by decide) (by decide) hc

theorem text_head (hpos : 0 < n) : (text n).head? ≠ some '0' := by
  induction n using Nat.strong_induction_on with
  | _ n ih =>
    by_cases hsmall : n < 10
    · have hcode := Nat.toNat_digitChar_of_lt_ten hsmall
      rw [text, Nat.toDigits_of_lt_base hsmall, List.head?_cons]
      intro hzero
      rw [Option.some.inj hzero, (by decide : '0'.toNat = 48)] at hcode
      omega
    · have hten : 10 ≤ n := not_lt.mp hsmall
      have hne : Nat.toDigits 10 (n / 10) ≠ [] := text_ne_nil _
      rw [text, Nat.toDigits_of_base_le (by decide) hten, List.head?_append_of_ne_nil _ hne]
      exact ih (n / 10) (by omega) (by omega)

theorem noLeadingZero_text (hpos : 0 < n) : NoLeadingZero (text n) := fun hzero =>
  absurd hzero (text_head hpos)

theorem usize_text (hD : D.ReadsIntegers) (hpos : 0 < n) (hn : n < 2 ^ 63) :
    D.usize (' ' :: text n) = some n := by
  rw [hD.usize_digits _ (text_ne_nil n) fun _ => isDigit_text, digitsValue_text,
    if_pos ⟨noLeadingZero_text hpos, hn⟩]

theorem loaded_settings (hD : D.ReadsIntegers) :
    (settings p newMax).loaded D cfg = (D.usize (' ' :: newMax)).map fun n => p.tuned n cfg := by
  have hdials : D.usize (' ' :: text newDials) = some newDials :=
    usize_text hD (by decide) (by decide)
  have hrelay : D.usize (' ' :: text p.newRelay) = some p.newRelay :=
    usize_text hD (by cases p <;> decide) (by cases p <;> decide)
  have htcp : D.usize (' ' :: text p.newTcpBuf) = some p.newTcpBuf :=
    usize_text hD (by cases p <;> decide) (by cases p <;> decide)
  cases hmax : D.usize (' ' :: newMax) <;>
    simp [Settings.loaded, settings, hmax, hdials, hrelay, htcp, hD.duration_seconds, Profile.tuned]

/-! ### Validation -/

theorem bufferBytes_tuned :
    bufferBytes (p.tuned n cfg).warp (p.tuned n cfg).limits =
      p.loadBytes n cfg.limits.maxParallelDials := by
  rw [bufferBytes, Profile.loadBytes, Profile.perConn]
  simp only [Profile.tuned]
  ring_nf

variable {h : HostFacts} {isContainer trustedHostNet : Bool}

/-- Of the limits, only the dials and the memory can refuse what is written. -/
theorem validateWith_tuned_iff (hn : n ≤ configCeiling)
    (hv : Config.validateWith h cfg isContainer trustedHostNet = .ok ()) :
    Config.validateWith h (p.tuned n cfg) isContainer trustedHostNet = .ok () ↔
      newDials ≤ n ∧ ∀ total, h.totalSystemMemoryBytes = some total →
        5 * p.loadBytes n cfg.limits.maxParallelDials < 4 * total := by
  constructor
  · intro hafter
    refine ⟨(Config.limits_inRange hafter).pending.2, fun total htotal => ?_⟩
    rw [← bufferBytes_tuned]
    exact Config.bufferBytes_fits hafter htotal
  · intro ⟨hdials, hmemory⟩
    have hl := Config.limits_inRange hv
    have hpos : 1 ≤ n := (by decide : 1 ≤ newDials).trans hdials
    have hb' : BuffersInRange (p.tuned n cfg).warp (p.tuned n cfg).limits := by
      cases p <;> exact ⟨by simp [Profile.tuned, Profile.newTcpBuf],
        by simp [Profile.tuned, Profile.newRelay]⟩
    have hl' : (p.tuned n cfg).limits.InRange :=
      ⟨⟨hpos, hn⟩, ⟨(by decide : 1 ≤ newDials), hdials⟩, (by decide : 0 < Duration.fromSecs 8),
        hl.handshakeTimeout_pos, hl.idleTimeout_pos, hl.delay_pos, hl.candidates, hl.parallel⟩
    have hports : (p.tuned n cfg).limits.ports ≤ 32768 := by
      have hparallel := hl.parallel.2
      simp only [LimitsConfig.ports, Profile.tuned, newDials]
      rw [configCeiling] at hn
      omega
    exact Config.validateWith_of_limits hv rfl rfl rfl rfl rfl hb' hl' hports fun total htotal => by
      rw [bufferBytes_tuned]
      exact hmemory total htotal

/-! ### Which arguments are accepted -/

/-- With `--max`, the number is within 64 bits and not below the dials, has no leading zero
unless the ceiling replaces it, and fits the memory. Without it, the memory is above the floor
that 1024 connections and their dials need, and is not the one size where the rounded half of
it leaves no room for three extra sockets per dial. -/
def Tunes (p : Profile) (memKb parallel : ℕ) : Option Line → Prop
  | some digits =>
    newDials ≤ digitsValue digits ∧ digitsValue digits < 2 ^ 63 ∧
      (NoLeadingZero digits ∨ configCeiling < digitsValue digits) ∧
      5 * p.loadBytes (min (digitsValue digits) configCeiling) parallel < 4 * (memKb * 1024)
  | none =>
    1280 * (p.perConn + p.newTcpBuf * (parallel - 1)) < memKb * 1024 ∧
      ¬ (parallel = 4 ∧ memKb * 1024 = 4096 * p.perConn)

theorem wrap_natCast (hn : n < 2 ^ 63) : wrap n = n := Int.bmod_eq_of_le (by omega) (by omega)

theorem wrap_lt (a : ℤ) : wrap a < 2 ^ 63 := Int.bmod_lt (by decide)

theorem adaptiveMax_pos (a : ℤ) : 1024 ≤ adaptiveMax p a := by
  simp only [adaptiveMax]
  split <;> omega

theorem adaptiveMax_lt (a : ℤ) : adaptiveMax p a < 2 ^ 63 := by
  have hlt := wrap_lt (((a.tdiv 2).tdiv p.perConn).tdiv 1024 * 1024)
  simp only [adaptiveMax]
  split <;> omega

theorem adaptiveMax_natCast (hn : n < 2 ^ 63) :
    adaptiveMax p n = max 1024 (n / 2 / p.perConn / 1024 * 1024) := by
  have hquot : ((n : ℤ).tdiv 2).tdiv p.perConn = ((n / 2 / p.perConn : ℕ) : ℤ) := rfl
  have hround : ((n / 2 / p.perConn : ℕ) : ℤ).tdiv 1024 * 1024 =
      ((n / 2 / p.perConn / 1024 * 1024 : ℕ) : ℤ) := rfl
  have hle : n / 2 / p.perConn / 1024 * 1024 < 2 ^ 63 :=
    (((Nat.div_mul_le_self _ _).trans (Nat.div_le_self _ _)).trans (Nat.div_le_self _ _)).trans_lt
    hn
  simp only [adaptiveMax, hquot, hround, wrap_natCast hle]
  split <;> omega

theorem usize_converge (hD : D.ReadsIntegers) (hne : digits ≠ [])
    (hdigits : ∀ c ∈ digits, c.isDigit) :
    D.usize (' ' :: converge digits) =
      if digitsValue digits < 2 ^ 63 ∧
      (NoLeadingZero digits ∨ configCeiling < digitsValue digits) then
        some (min (digitsValue digits) configCeiling)
      else none := by
  by_cases hfits : digitsValue digits < 2 ^ 63
  · by_cases hlarge : configCeiling < digitsValue digits
    · simp only [converge, testValue, hfits, hlarge, if_true, or_true, and_self]
      rw [usize_text hD (by decide) (by decide), min_eq_right hlarge.le]
    · simp only [converge, testValue, hfits, hlarge, if_true, if_false, or_false, true_and]
      rw [hD.usize_digits _ hne hdigits, min_eq_left (not_lt.mp hlarge)]
      simp only [hfits, and_true]
  · simp only [converge, testValue, hfits, if_false, false_and]
    rw [hD.usize_digits _ hne hdigits]
    simp only [hfits, and_false, if_false]

theorem loadBytes_lt {parallel : ℕ} (hn : n ≤ configCeiling) (hparallel : parallel ≤ 4) :
    p.loadBytes n parallel < 2 ^ 40 := by
  have hextra : 2 * p.newTcpBuf * (parallel - 1) ≤ 2 * p.newTcpBuf * 3 :=
    Nat.mul_le_mul_left _ (by omega)
  rw [configCeiling] at hn
  rw [Profile.loadBytes]
  cases p <;> simp only [Profile.perConn, Profile.newTcpBuf, Profile.newRelay,
    newDials] at hextra ⊢ <;>
    omega

theorem memory_iff {parallel : ℕ} (hn : n ≤ configCeiling) (hparallel : parallel ≤ 4) :
    (∀ total, totalSystemMemoryBytes memKb = some total → 5 * p.loadBytes n parallel < 4 * total) ↔
      5 * p.loadBytes n parallel < 4 * (memKb * 1024) := by
  have hlt : p.loadBytes n parallel < 2 ^ 40 := loadBytes_lt hn hparallel
  by_cases hmem : memKb * 1024 < 2 ^ 64
  · simp only [totalSystemMemoryBytes, hmem, if_true, Option.some.injEq, forall_eq']
  · simp only [totalSystemMemoryBytes, hmem, if_false, reduceCtorEq, false_imp_iff, implies_true,
      true_iff]
    omega

/-- The adaptive value keeps the connections within half of the memory; what the dials add is
decided at the floor and at the first multiple above it. -/
theorem adaptive_fits_iff {parallel : ℕ} (hpos : 1 ≤ parallel) (hparallel : parallel ≤ 4) :
    5 * p.loadBytes (min (adaptiveMax p (wrap (memKb * 1024))) configCeiling) parallel <
        4 * (memKb * 1024) ↔ Tunes p memKb parallel none := by
  have hbounds : p.perConn + p.newTcpBuf * (parallel - 1) ≤ 327680 + 131072 * 3 :=
    Nat.add_le_add (by cases p <;> decide)
      (Nat.mul_le_mul (by cases p <;> decide) (Nat.sub_le_sub_right hparallel 1))
  rw [Tunes]
  by_cases hmem : memKb * 1024 < 2 ^ 63
  · have hwrap : wrap ((memKb : ℤ) * 1024) = ((memKb * 1024 : ℕ) : ℤ) := wrap_natCast hmem
    rw [hwrap, adaptiveMax_natCast hmem, Profile.loadBytes, configCeiling]
    obtain rfl | rfl | rfl | rfl : parallel = 1 ∨ parallel = 2 ∨ parallel = 3 ∨
      parallel = 4 := by omega
    all_goals
      cases p <;> simp only [Profile.perConn, Profile.newTcpBuf, Profile.newRelay, newDials,
        Nat.reduceAdd, Nat.reduceMul, Nat.reduceEqDiff, true_and, false_and, not_false_eq_true,
        and_true] <;> omega
  · have hlt : p.loadBytes (min (adaptiveMax p (wrap (memKb * 1024))) configCeiling) parallel <
        2 ^ 40 :=
      loadBytes_lt (min_le_right _ _) hparallel
    have hconn : p.perConn ≤ 327680 := by cases p <;> decide
    omega

theorem exists_newMax {forceMax : Option Line} {s : Settings}
    (hrun : tuneConcurrency memKb p forceMax = some s) :
    ∃ newMax, chooseMax p forceMax (wrap (memKb * 1024)) = some newMax ∧
      s = settings p (converge newMax) := by
  rw [tuneConcurrency] at hrun
  split at hrun
  · simp only [Option.bind_eq_bind, Option.bind_eq_some_iff] at hrun
    obtain ⟨newMax, hchoose, count, -, pct, -, hrun⟩ := hrun
    split at hrun
    · cases hrun
    · exact ⟨newMax, hchoose, (Option.some.inj hrun).symm⟩
  · cases hrun

variable {forceMax : Option Line} {s : Settings} {total : Option ℕ}

theorem chooseMax_tunes (hchoose : chooseMax p forceMax (wrap (memKb * 1024)) = some newMax) :
    newMax ≠ [] ∧ (∀ c ∈ newMax, c.isDigit) ∧
      ∀ parallel, 1 ≤ parallel → parallel ≤ 4 →
        (Tunes p memKb parallel forceMax ↔ newDials ≤ digitsValue newMax ∧
          digitsValue newMax < 2 ^ 63 ∧
          (NoLeadingZero newMax ∨ configCeiling < digitsValue newMax) ∧
          5 * p.loadBytes (min (digitsValue newMax) configCeiling) parallel <
            4 * (memKb * 1024)) := by
  cases forceMax with
  | some digits =>
    rw [chooseMax] at hchoose
    split at hchoose
    · next hdigits =>
      obtain rfl := Option.some.inj hchoose
      exact ⟨hdigits.1, hdigits.2, fun parallel _ _ => Iff.rfl⟩
    · cases hchoose
  | none =>
    rw [chooseMax] at hchoose
    obtain rfl := Option.some.inj hchoose
    refine ⟨text_ne_nil _, fun _ => isDigit_text, fun parallel hpos hparallel => ?_⟩
    have hfloor := adaptiveMax_pos (p := p) (wrap (memKb * 1024))
    rw [digitsValue_text, ← adaptive_fits_iff hpos hparallel]
    exact ⟨fun hmemory => ⟨(by decide : newDials ≤ 1024).trans hfloor, adaptiveMax_lt _,
      .inl (noLeadingZero_text (by omega)), hmemory⟩, fun htunes => htunes.2.2.2⟩

/-- A run that writes leaves a configuration that is accepted exactly for these arguments. -/
theorem tuned_accepted_iff {allowOpenProxy : Bool} (hD : D.ReadsIntegers)
    (hv : Config.validateWith ⟨allowOpenProxy, totalSystemMemoryBytes memKb⟩ cfg isContainer
      trustedHostNet = .ok ())
    (hrun : tuneConcurrency memKb p forceMax = some s) :
    (∃ cfg', s.loaded D cfg = some cfg' ∧
      Config.validateWith ⟨allowOpenProxy, totalSystemMemoryBytes memKb⟩ cfg' isContainer
        trustedHostNet = .ok ()) ↔
      Tunes p memKb cfg.limits.maxParallelDials forceMax := by
  obtain ⟨newMax, hchoose, rfl⟩ := exists_newMax hrun
  obtain ⟨hne, hdigits, htunes⟩ := chooseMax_tunes hchoose
  obtain ⟨hpos, hparallel⟩ := (Config.limits_inRange hv).parallel
  have hceiling : min (digitsValue newMax) configCeiling ≤ configCeiling := min_le_right _ _
  rw [htunes _ hpos hparallel, loaded_settings hD, usize_converge hD hne hdigits]
  by_cases hloads : digitsValue newMax < 2 ^ 63 ∧
      (NoLeadingZero newMax ∨ configCeiling < digitsValue newMax)
  · have hdials : newDials ≤ min (digitsValue newMax) configCeiling ↔
        newDials ≤ digitsValue newMax :=
      le_min_iff.trans (and_iff_left (by decide))
    have hvalid := (validateWith_tuned_iff (p := p) hceiling hv).trans
      (and_congr hdials (memory_iff hceiling hparallel))
    rw [if_pos hloads, Option.map_some]
    constructor
    · rintro ⟨cfg', hcfg, hafter⟩
      obtain rfl := Option.some.inj hcfg
      obtain ⟨hdials, hmemory⟩ := hvalid.mp hafter
      exact ⟨hdials, hloads.1, hloads.2, hmemory⟩
    · rintro ⟨hdials, -, -, hmemory⟩
      exact ⟨_, rfl, hvalid.mpr ⟨hdials, hmemory⟩⟩
  · rw [if_neg hloads, Option.map_none]
    constructor
    · rintro ⟨cfg', hcfg, -⟩
      cases hcfg
    · rintro ⟨-, hfits, hloadable, -⟩
      exact absurd ⟨hfits, hloadable⟩ hloads

end

/-! ### On the text of the file -/

abbrev Write := (Line × Line) × Line

def Settings.writes (s : Settings) : List Write :=
  [((limits, maxConcurrentConnections), s.newMax),
    ((limits, maxPendingDials), s.newDials),
    ((limits, relayBufferSize), s.newRelay),
    ((limits, connectTimeout), s.newCto),
    ((warp, tcpBufferSize), s.newTcpBuf)]

def setAll (file : File) (ws : List Write) : File :=
  ws.foldl (fun file w => setToml file w.1.1 w.1.2 w.2) file

/-- The backup is left out. -/
def Settings.write (s : Settings) (file : File) : File := setAll file s.writes

/-- A table without a key is read as one that is not there: every key has a default. -/
def Decoder.TakesEmptyTables (D : Decoder) : Prop :=
  ∀ total l, ∀ sect ∈ [limits, warp], sect ∉ l.filterMap Item.name →
    D.others total (l ++ [.header sect]) = D.others total l

section
variable {D : Decoder} {file : File} {ws : List Write} {total : Option ℕ} {cfg : Config}

theorem untuned_names (l : List Item) :
    (untuned l).filterMap Item.name = l.filterMap Item.name := by
  rw [untuned, List.filterMap_filter]
  refine List.filterMap_congr fun x _ => ?_
  cases x with
  | header name => rfl
  | entry sect key value => simp [Item.name]

theorem SetsEntry.others_eq {sect key raw : Line} {before after : List Item}
    (hD : D.TakesEmptyTables)
    (h : SetsEntry sect key raw before after) (hsect : sect ∈ [limits, warp])
    (htuned : (sect, key) ∈ tuned) : D.others total (untuned after) =
      D.others total (untuned before) := by
  rw [← untuned_dropEntry (l := after) htuned]
  rcases h.others with hsame | ⟨hfresh, hnew⟩
  · rw [hsame, untuned_dropEntry htuned]
  · have hheader : untuned (dropEntry sect key before ++ [.header sect]) =
        untuned before ++ [.header sect] := by
      rw [← untuned_dropEntry (l := before) htuned]
      exact List.filter_append ..
    rw [hnew, hheader]
    exact hD total _ sect hsect (untuned_names before ▸ hfresh)

theorem setAll_items (total : Option ℕ) (hD : D.TakesEmptyTables) (h : Editable file)
    (hsect : ∀ w ∈ ws, w.1.1 ∈ [limits, warp]) (htuned : ∀ w ∈ ws, w.1 ∈ tuned)
    (hpaths : (ws.map Prod.fst).Nodup) :
    Editable (setAll file ws) ∧
      (∀ w ∈ ws, lookup w.1.1 w.1.2 (items (setAll file ws)) = some (' ' :: w.2)) ∧
      (∀ sect key, (sect, key) ∉ ws.map Prod.fst →
        lookup sect key (items (setAll file ws)) = lookup sect key (items file)) ∧
      D.others total (untuned (items (setAll file ws))) =
        D.others total (untuned (items file)) := by
  induction ws generalizing file with
  | nil => exact ⟨h, nofun, fun _ _ _ => rfl, rfl⟩
  | cons w ws ih =>
    obtain ⟨⟨sect, key⟩, value⟩ := w
    obtain ⟨hw, hsect⟩ := List.forall_mem_cons.mp hsect
    obtain ⟨hwt, htuned⟩ := List.forall_mem_cons.mp htuned
    obtain ⟨hfresh, hpaths⟩ := List.nodup_cons.mp hpaths
    have hwords : ∀ p ∈ tuned, Word p.1 ∧ Word p.2 := by decide
    obtain ⟨hedit, hset⟩ := setToml_items h (hwords _ hwt).1 (hwords _ hwt).2 value
    obtain ⟨hlast, hread, hkept, hothers⟩ := ih hedit hsect htuned hpaths
    refine ⟨hlast, List.forall_mem_cons.mpr ⟨?_, hread⟩, fun s k hne => ?_, ?_⟩
    · exact (hkept sect key hfresh).trans hset.value
    · obtain ⟨hhead, htail⟩ := not_or.mp (mt List.mem_cons.mpr hne)
      exact (hkept s k htail).trans (hset.lookup_ne (Ne.symm hhead))
    · exact hothers.trans (hset.others_eq hD hw hwt)

theorem load_write {s : Settings} (hD : D.TakesEmptyTables) (h : Editable file)
    (hload : load D total file = some cfg) : load D total (s.write file) = s.loaded D cfg := by
  have hsect : ∀ w ∈ s.writes, w.1.1 ∈ [limits, warp] := by
    simp [Settings.writes]
  have htuned : ∀ w ∈ s.writes, w.1 ∈ tuned := by
    simp [Settings.writes, tuned, tuning, timeoutTuning, Tuning.path]
  have hpaths : (s.writes.map Prod.fst).Nodup := by
    have hfixed : s.writes.map Prod.fst =
      [(limits, maxConcurrentConnections), (limits, maxPendingDials),
      (limits, relayBufferSize), (limits, connectTimeout), (warp, tcpBufferSize)] := rfl
    rw [hfixed]
    decide
  obtain ⟨hedit, hread, -, hothers⟩ := setAll_items total hD h hsect htuned hpaths
  obtain ⟨-, base, connections, pending, timeout, relay, tcp, hbase, -, -, -, -, -, rfl⟩ :=
    loadItems_eq_some.mp hload
  simp only [Settings.writes, List.forall_mem_cons] at hread
  obtain ⟨hconn, hpend, hrelay, htimeout, htcp, -⟩ := hread
  rw [load, loadItems, Settings.write, if_pos hedit.unique, hothers, hbase]
  simp only [Settings.writes, hconn, hpend, hrelay, htimeout, htcp, field]
  rfl

end

/-! ### A loader of TOML integers -/

def tomlInteger (digits : Line) : Option ℕ :=
  if (digits ≠ [] ∧ ∀ c ∈ digits, c.isDigit) ∧ NoLeadingZero digits ∧ digitsValue digits <
  2 ^ 63 then
    some (digitsValue digits)
  else none

def Decoder.toml : Decoder :=
  { Decoder.plain with
    usize := fun raw => if (stripComment raw).contains '"' then none
    else tomlInteger (plainValue raw) }

theorem isKeyChar_digit {c : Char} (hc : c.isDigit) : isKeyChar c := by
  simp [isKeyChar, Char.isAlphanum, hc]

theorem plainValue_digits {digits : Line} (hdigits : ∀ c ∈ digits, c.isDigit) :
    plainValue (' ' :: digits) = digits ∧ '"' ∉ stripComment (' ' :: digits) := by
  have hne (d : Char) (hd : isKeyChar d = false) : ∀ c ∈ digits, c ≠ d := fun c hc =>
    isKeyChar_ne (isKeyChar_digit (hdigits c hc)) hd
  have hspace : ∀ c ∈ digits, isSpace c = false := fun c hc =>
    isKeyChar_not_space (isKeyChar_digit (hdigits c hc))
  have hstrip : stripComment (' ' :: digits) = ' ' :: digits := by
    refine List.takeWhile_eq_self_iff.mpr fun c hc => ?_
    rcases List.mem_cons.mp hc with rfl | hc
    · decide
    · simpa using hne '#' (by decide) c hc
  have hskip : skipSpace (' ' :: digits) = digits := by
    rw [skipSpace, List.dropWhile_cons_of_pos (by decide), List.dropWhile_eq_self_iff]
    intro hpos
    simp [hspace _ (List.getElem_mem hpos)]
  have htrim : digits.rdropWhile isSpace = digits := by
    rw [List.rdropWhile_eq_self_iff]
    intro hl
    simp [hspace _ (List.getLast_mem hl)]
  have hquote : digits.filter (· != '"') = digits := by
    refine List.filter_eq_self.mpr fun c hc => ?_
    simpa using hne '"' (by decide) c hc
  refine ⟨?_, ?_⟩
  · rw [plainValue, hstrip, bare, hskip, htrim, hquote]
  · rw [hstrip, List.mem_cons, not_or]
    exact ⟨by decide, fun hc => hne '"' (by decide) '"' hc rfl⟩

theorem Decoder.toml_readsIntegers : Decoder.toml.ReadsIntegers where
  usize_digits := by
    intro digits hne hdigits
    obtain ⟨hplain, hquote⟩ := plainValue_digits hdigits
    have hcontains : (stripComment (' ' :: digits)).contains '"' = false := by simpa using hquote
    simp only [Decoder.toml, hcontains, Bool.false_eq_true, if_false, hplain, tomlInteger, ne_eq,
      hne, not_false_eq_true, true_and]
    rw [if_congr (and_iff_right hdigits) rfl rfl]
  duration_seconds := by decide

theorem default_valid_two_gib : Config.validateWith ⟨false, totalSystemMemoryBytes 2097152⟩
    (Config.default none) false false = .ok () := by
  decide +kernel

/-- On 2 GiB, the defaults: 4096 connections are written and accepted. -/
theorem tuned_accepted_two_gib :
    (∃ cfg', (settings .balanced (text 4096)).loaded .toml (Config.default none) = some cfg' ∧
      Config.validateWith ⟨false, totalSystemMemoryBytes 2097152⟩ cfg' false false = .ok ()) ↔
      Tunes .balanced 2097152 2 (some (text 4096)) :=
  have hrun : tuneConcurrency 2097152 .balanced (some (text 4096)) =
    some (settings .balanced (text 4096)) := by decide +kernel
  tuned_accepted_iff Decoder.toml_readsIntegers default_valid_two_gib hrun

/-- On 2 GiB: `--max 100` passes the script and leaves 512 dials for 100 connections. -/
theorem tuned_rejected : ¬ ∀ (D : Decoder) (allowOpenProxy : Bool) (memKb : ℕ) (p : Profile)
    (forceMax : Option Line) (s : Settings) (cfg : Config) (isContainer trustedHostNet : Bool),
    D.ReadsIntegers →
    Config.validateWith ⟨allowOpenProxy, totalSystemMemoryBytes memKb⟩ cfg isContainer
      trustedHostNet = .ok () →
    tuneConcurrency memKb p forceMax = some s →
    ∃ cfg', s.loaded D cfg = some cfg' ∧
      Config.validateWith ⟨allowOpenProxy, totalSystemMemoryBytes memKb⟩ cfg' isContainer
        trustedHostNet = .ok () := by
  intro hall
  obtain ⟨cfg', hcfg, hafter⟩ := hall .toml false 2097152 .balanced (some (text 100))
    (settings .balanced (text 100)) (Config.default none) false false Decoder.toml_readsIntegers
    default_valid_two_gib (by decide +kernel)
  rw [loaded_settings Decoder.toml_readsIntegers,
    usize_text Decoder.toml_readsIntegers (by decide) (by decide)] at hcfg
  obtain rfl := Option.some.inj hcfg
  exact absurd (Config.limits_inRange hafter).pending.2 (by decide)

end WarpRust.Install
