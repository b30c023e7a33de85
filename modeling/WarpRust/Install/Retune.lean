import WarpRust.Config.Admission
import WarpRust.Install.Toml

/-!
# The update of legacy limits

`retune_legacy_limits` on the text of a configuration file, against what it does to the items
of a plain file, and the validation of what it leaves behind. How TOML values are written is
the loader's: a `Decoder` stands for it, and only the values the script compares or writes
are told about it.
-/

namespace WarpRust.Install

def limits : Line := "limits".toList
def warp : Line := "warp".toList
def maxConcurrentConnections : Line := "max_concurrent_connections".toList
def maxPendingDials : Line := "max_pending_dials".toList
def relayBufferSize : Line := "relay_buffer_size".toList
def tcpBufferSize : Line := "tcp_buffer_size".toList
def connectTimeout : Line := "connect_timeout".toList

structure Tuning where
  sect : Line
  key : Line
  old : Line
  new : Line

def tuning : List Tuning :=
  [⟨limits, maxPendingDials, "128".toList, "512".toList⟩,
    ⟨limits, relayBufferSize, "65536".toList, "32768".toList⟩,
    ⟨warp, tcpBufferSize, "262144".toList, "131072".toList⟩]

def timeoutTuning : Tuning := ⟨limits, connectTimeout, "12s".toList, "\"8s\"".toList⟩

def adaptiveNote : Line :=
  "max_concurrent_connections 已交还给按物理内存自适应（v0.4.8）；如需钉死请取消下一行注释".toList

/-! ### The script -/

def tune (file : File) (t : Tuning) : File :=
  let cur := (readTomlKey file t.sect t.key).getD []
  if cur = t.old then writeTomlKey file t.sect t.key t.new else file

def isLegacyConcurrency (cur : Line) : Bool := cur == "1024".toList || cur == "4096".toList

def handBackConcurrency (file : File) : File :=
  let cur := (readTomlKey file limits maxConcurrentConnections).getD []
  if isLegacyConcurrency cur then
    commentOutTomlKey file limits maxConcurrentConnections adaptiveNote
  else file

/-- The backup and the messages are left out. -/
def retuneLegacyLimits (file : File) : File :=
  tune (handBackConcurrency (tuning.foldl tune file)) timeoutTuning

/-! ### Its effect on the items -/

def current (sect key : Line) (l : List Item) : Line := ((lookup sect key l).map plainValue).getD []

def tuneItems (l : List Item) (t : Tuning) : List Item :=
  if current t.sect t.key l = t.old then setValue t.sect t.key (' ' :: t.new) l else l

def handBackItems (l : List Item) : List Item :=
  if isLegacyConcurrency (current limits maxConcurrentConnections l) then
    dropEntry limits maxConcurrentConnections l
  else l

def retuneItems (l : List Item) : List Item :=
  tuneItems (handBackItems (tuning.foldl tuneItems l)) timeoutTuning

instance (word : Line) : Decidable (Word word) := inferInstanceAs (Decidable (_ ∧ _))

def Tuning.Ok (t : Tuning) : Prop :=
  Word t.sect ∧ Word t.key ∧ classify (assignment t.key t.new) = .entry t.key (' ' :: t.new) ∧
    t.old ≠ []

instance (t : Tuning) : Decidable t.Ok := inferInstanceAs (Decidable (_ ∧ _))

theorem tuning_ok : ∀ t ∈ tuning, t.Ok := by decide

theorem timeoutTuning_ok : timeoutTuning.Ok := by decide

section
variable {file : File} {l : List Item} {t : Tuning} {sect key : Line}

theorem lookup_of_current (h : current sect key l ≠ []) : ∃ raw, lookup sect key l = some raw := by
  cases hlookup : lookup sect key l with
  | some raw => exact ⟨raw, rfl⟩
  | none =>
    rw [current, hlookup] at h
    exact absurd rfl h

theorem tune_items (h : Editable file) (ht : t.Ok) :
    Editable (tune file t) ∧ items (tune file t) = tuneItems (items file) t := by
  obtain ⟨hsect, hkey, hassign, hold⟩ := ht
  have hcur : (readTomlKey file t.sect t.key).getD [] = current t.sect t.key (items file) := by
    rw [readTomlKey_eq h hsect hkey, current]
  rw [tune, tuneItems, hcur]
  by_cases hlegacy : current t.sect t.key (items file) = t.old
  · obtain ⟨raw, hraw⟩ := lookup_of_current (hlegacy ▸ hold)
    rw [if_pos hlegacy, if_pos hlegacy]
    exact writeTomlKey_items h hsect hkey hassign (path_of_lookup hraw)
  · rw [if_neg hlegacy, if_neg hlegacy]
    exact ⟨h, rfl⟩

theorem tune_all_items {ts : List Tuning} (h : Editable file) (hts : ∀ t ∈ ts, t.Ok) :
    Editable (ts.foldl tune file) ∧ items (ts.foldl tune file) =
    ts.foldl tuneItems (items file) := by
  induction ts generalizing file with
  | nil => exact ⟨h, rfl⟩
  | cons t ts ih =>
    obtain ⟨ht, hts⟩ := List.forall_mem_cons.mp hts
    obtain ⟨hedit, hitems⟩ := tune_items h ht
    rw [List.foldl_cons, List.foldl_cons, ← hitems]
    exact ih hedit hts

theorem handBack_items (h : Editable file) :
    Editable (handBackConcurrency file) ∧
      items (handBackConcurrency file) = handBackItems (items file) := by
  have hsect : Word limits := by decide
  have hkey : Word maxConcurrentConnections := by decide
  have hcur : (readTomlKey file limits maxConcurrentConnections).getD [] =
      current limits maxConcurrentConnections (items file) := by
    rw [readTomlKey_eq h hsect hkey, current]
  rw [handBackConcurrency, handBackItems, hcur]
  split
  · exact commentOutTomlKey_items h hsect hkey adaptiveNote
  · exact ⟨h, rfl⟩

theorem retune_items (h : Editable file) :
    Editable (retuneLegacyLimits file) ∧
      items (retuneLegacyLimits file) = retuneItems (items file) := by
  obtain ⟨htuned, htunedItems⟩ := tune_all_items h tuning_ok
  obtain ⟨hback, hbackItems⟩ := handBack_items htuned
  obtain ⟨hedit, hitems⟩ := tune_items hback timeoutTuning_ok
  refine ⟨hedit, hitems.trans ?_⟩
  rw [hbackItems, htunedItems, retuneItems]

/-! ### What the steps leave of each entry -/

def Tuning.path (t : Tuning) : Line × Line := (t.sect, t.key)

theorem lookup_tuneItems_ne (hne : t.path ≠ (sect, key)) :
    lookup sect key (tuneItems l t) = lookup sect key l := by
  rw [tuneItems]
  split
  · exact lookup_setValue_ne hne
  · rfl

theorem lookup_tuneItems_self (hold : t.old ≠ []) : lookup t.sect t.key (tuneItems l t) =
    if current t.sect t.key l = t.old then some (' ' :: t.new) else lookup t.sect t.key l := by
  rw [tuneItems]
  split
  · next hlegacy =>
    obtain ⟨raw, hraw⟩ := lookup_of_current (hlegacy ▸ hold)
    rw [lookup_setValue_self, hraw, Option.map_some]
  · rfl

theorem lookup_tune_all_ne {ts : List Tuning} (hne : (sect, key) ∉ ts.map Tuning.path) :
    lookup sect key (ts.foldl tuneItems l) = lookup sect key l := by
  induction ts generalizing l with
  | nil => rfl
  | cons t ts ih =>
    rw [List.map_cons, List.mem_cons, not_or] at hne
    obtain ⟨hhead, htail⟩ := hne
    rw [List.foldl_cons, ih htail, lookup_tuneItems_ne (Ne.symm hhead)]

theorem current_congr {l' : List Item} (h : lookup sect key l = lookup sect key l') :
    current sect key l = current sect key l' := by
  rw [current, h, current]

theorem lookup_tune_all_self {ts : List Tuning} (hts : ∀ t ∈ ts, t.Ok)
    (hpaths : (ts.map Tuning.path).Nodup) (ht : t ∈ ts) :
    lookup t.sect t.key (ts.foldl tuneItems l) =
      if current t.sect t.key l = t.old then some (' ' :: t.new) else lookup t.sect t.key l := by
  induction ts generalizing l with
  | nil => cases ht
  | cons t' ts ih =>
    obtain ⟨hok, hts⟩ := List.forall_mem_cons.mp hts
    obtain ⟨hfresh, hpaths⟩ := List.nodup_cons.mp hpaths
    rw [List.foldl_cons]
    rcases List.mem_cons.mp ht with rfl | ht
    · rw [lookup_tune_all_ne hfresh, lookup_tuneItems_self hok.2.2.2]
    · have hne : t'.path ≠ (t.sect, t.key) := fun heq =>
        hfresh (List.mem_map.mpr ⟨t, ht, heq.symm⟩)
      rw [ih hts hpaths ht, lookup_tuneItems_ne hne, current_congr (lookup_tuneItems_ne hne)]

theorem lookup_handBackItems_ne (hne : (limits, maxConcurrentConnections) ≠ (sect, key)) :
    lookup sect key (handBackItems l) = lookup sect key l := by
  rw [handBackItems]
  split
  · exact lookup_dropEntry_ne hne
  · rfl

theorem lookup_handBackItems_self : lookup limits maxConcurrentConnections (handBackItems l) =
    if isLegacyConcurrency (current limits maxConcurrentConnections l) then none
    else lookup limits maxConcurrentConnections l := by
  rw [handBackItems]
  split
  · exact lookup_dropEntry_self
  · rfl

theorem lookup_retuneItems (ht : t ∈ timeoutTuning :: tuning) :
    lookup t.sect t.key (retuneItems l) =
      if current t.sect t.key l = t.old then some (' ' :: t.new) else lookup t.sect t.key l := by
  have hpaths : ((limits, maxConcurrentConnections) ::
    (timeoutTuning :: tuning).map Tuning.path).Nodup := by decide
  obtain ⟨hconn, hpaths⟩ := List.nodup_cons.mp hpaths
  have hback : (limits, maxConcurrentConnections) ≠ (t.sect, t.key) := fun heq =>
    hconn (List.mem_map.mpr ⟨t, ht, heq.symm⟩)
  obtain ⟨htimeout, htuning⟩ := List.nodup_cons.mp hpaths
  rcases List.mem_cons.mp ht with rfl | ht
  · have hbefore : lookup timeoutTuning.sect timeoutTuning.key
        (handBackItems (tuning.foldl tuneItems l)) =
          lookup timeoutTuning.sect timeoutTuning.key l := by
      rw [lookup_handBackItems_ne hback, lookup_tune_all_ne htimeout]
    rw [retuneItems, lookup_tuneItems_self timeoutTuning_ok.2.2.2, hbefore, current_congr hbefore]
  · have hne : timeoutTuning.path ≠ (t.sect, t.key) := fun heq =>
      htimeout (List.mem_map.mpr ⟨t, ht, heq.symm⟩)
    rw [retuneItems, lookup_tuneItems_ne hne, lookup_handBackItems_ne hback,
      lookup_tune_all_self tuning_ok htuning ht]

theorem lookup_retuneItems_concurrency : lookup limits maxConcurrentConnections (retuneItems l) =
    if isLegacyConcurrency (current limits maxConcurrentConnections l) then none
    else lookup limits maxConcurrentConnections l := by
  have hbefore : lookup limits maxConcurrentConnections (tuning.foldl tuneItems l) =
      lookup limits maxConcurrentConnections l := lookup_tune_all_ne (by decide)
  rw [retuneItems, lookup_tuneItems_ne (by decide), lookup_handBackItems_self, hbefore,
    current_congr hbefore]

end

/-! ### Loading -/

def tuned : List (Line × Line) :=
  (limits, maxConcurrentConnections) :: (timeoutTuning :: tuning).map Tuning.path

def Item.isTuned : Item → Bool
  | header _ => false
  | entry sect key _ => tuned.contains (sect, key)

def untuned (l : List Item) : List Item := l.filter fun x => !x.isTuned

/-- How the loader reads what stands behind the sign of an entry, and what it makes of the
headers and entries the script never touches. -/
structure Decoder where
  usize : Line → Option ℕ
  duration : Line → Option Duration
  others : Option ℕ → List Item → Option Config

/-- What TOML says of the values the script compares and writes: a decimal number is read as
itself, and no comment or blank around a number changes it. -/
structure Decoder.Lawful (D : Decoder) : Prop where
  usize_decimal : ∀ n ∈ [512, 1024, 4096, 32768, 65536, 131072, 262144],
    D.usize (' ' :: (toString n).toList) = some n
  usize_bare : ∀ raw raw' n n', plainValue raw = plainValue raw' → D.usize raw = some n →
    D.usize raw' = some n' → n = n'
  duration_seconds : D.duration " \"8s\"".toList = some (.fromSecs 8)

/-- A key that is missing takes its default. -/
def field {α : Type} (decode : Line → Option α) (default : α) : Option Line → Option α
  | some raw => decode raw
  | none => some default

def loadItems (D : Decoder) (total : Option ℕ) (l : List Item) : Option Config :=
  if Unique l then do
    let cfg ← D.others total (untuned l)
    let connections ← field D.usize (LimitsConfig.default total).maxConcurrentConnections
      (lookup limits maxConcurrentConnections l)
    let pending ← field D.usize (LimitsConfig.default total).maxPendingDials
      (lookup limits maxPendingDials l)
    let timeout ← field D.duration (LimitsConfig.default total).connectTimeout
      (lookup limits connectTimeout l)
    let relay ← field D.usize (LimitsConfig.default total).relayBufferSize
      (lookup limits relayBufferSize l)
    let tcp ← field D.usize WarpConfig.default.tcpBufferSize (lookup warp tcpBufferSize l)
    some { cfg with
      warp := { cfg.warp with tcpBufferSize := tcp }
      limits := { cfg.limits with
        maxConcurrentConnections := connections
        maxPendingDials := pending
        connectTimeout := timeout
        relayBufferSize := relay } }
  else none

/-- `Config::load` on a plain file, with no variable of the environment set. -/
def load (D : Decoder) (total : Option ℕ) (file : File) : Option Config :=
  loadItems D total (items file)

def Accepted (D : Decoder) (h : HostFacts) (isContainer trustedHostNet : Bool) (file : File) :
    Prop :=
  ∃ cfg, load D h.totalSystemMemoryBytes file = some cfg ∧
    Config.validateWith h cfg isContainer trustedHostNet = .ok ()

/-! ### What is loaded afterwards -/

def DialsRaised (l : List Item) : Prop := current limits maxPendingDials l = "128".toList

def HandedBack (l : List Item) : Prop :=
  isLegacyConcurrency (current limits maxConcurrentConnections l) = true

instance (l : List Item) : Decidable (DialsRaised l) := inferInstanceAs (Decidable (_ = _))
instance (l : List Item) : Decidable (HandedBack l) := inferInstanceAs (Decidable (_ = _))

def retuned (total : Option ℕ) (l : List Item) (cfg : Config) : Config :=
  { cfg with
    warp := { cfg.warp with
      tcpBufferSize :=
        if current warp tcpBufferSize l = "262144".toList then 131072 else cfg.warp.tcpBufferSize }
    limits := { cfg.limits with
      maxConcurrentConnections :=
        if HandedBack l then defaultMaxConcurrentConnections total
        else cfg.limits.maxConcurrentConnections
      maxPendingDials := if DialsRaised l then 512 else cfg.limits.maxPendingDials
      connectTimeout :=
        if current limits connectTimeout l = "12s".toList then .fromSecs 8
        else cfg.limits.connectTimeout
      relayBufferSize :=
        if current limits relayBufferSize l = "65536".toList then 32768
        else cfg.limits.relayBufferSize } }

section
variable {file : File} {l : List Item} {t : Tuning} {sect key raw : Line} {D : Decoder}
  {total : Option ℕ} {cfg : Config}

@[simp] theorem retuned_tcp : (retuned total l cfg).warp.tcpBufferSize =
    if current warp tcpBufferSize l = "262144".toList then 131072 else cfg.warp.tcpBufferSize := rfl

@[simp] theorem retuned_relay : (retuned total l cfg).limits.relayBufferSize =
    if current limits relayBufferSize l = "65536".toList then 32768
    else cfg.limits.relayBufferSize := rfl

@[simp] theorem retuned_connections : (retuned total l cfg).limits.maxConcurrentConnections =
    if HandedBack l then defaultMaxConcurrentConnections total
    else cfg.limits.maxConcurrentConnections := rfl

@[simp] theorem retuned_pending : (retuned total l cfg).limits.maxPendingDials =
    if DialsRaised l then 512 else cfg.limits.maxPendingDials := rfl

@[simp] theorem retuned_connectTimeout : (retuned total l cfg).limits.connectTimeout =
    if current limits connectTimeout l = "12s".toList then .fromSecs 8
    else cfg.limits.connectTimeout := rfl

@[simp] theorem retuned_parallel :
    (retuned total l cfg).limits.maxParallelDials = cfg.limits.maxParallelDials := rfl

theorem untuned_setValue (h : (sect, key) ∈ tuned) :
    untuned (setValue sect key raw l) = untuned l := by
  have htuned (value : Line) : (!(Item.entry sect key value).isTuned) = false := by
    simpa [Item.isTuned] using h
  induction l with
  | nil => rfl
  | cons x l ih =>
    by_cases hpath : x.path = some (sect, key)
    · obtain ⟨name⟩ | ⟨s, k, value⟩ := x
      · cases hpath
      obtain ⟨rfl, rfl⟩ := Prod.mk.inj (Option.some.inj hpath)
      rw [setValue_cons_self, untuned, untuned, List.filter_cons_of_neg (by simp [htuned]),
        List.filter_cons_of_neg (by simp [htuned])]
      exact ih
    · rw [setValue_cons_ne hpath, untuned, untuned, List.filter_cons, List.filter_cons]
      exact congrArg (fun rest => if (!x.isTuned) = true then x :: rest else rest) ih

theorem untuned_dropEntry (h : (sect, key) ∈ tuned) :
    untuned (dropEntry sect key l) = untuned l := by
  rw [untuned, dropEntry, List.filter_filter]
  refine List.filter_congr fun x _ => ?_
  cases x with
  | header name => rfl
  | entry s k value =>
    by_cases hpath : (s, k) = (sect, key)
    · obtain ⟨rfl, rfl⟩ := Prod.mk.inj hpath
      have htuned : (!(Item.entry s k value).isTuned) = false := by simpa [Item.isTuned] using h
      rw [htuned, Bool.false_and]
    · rw [decide_eq_true (by simpa [Item.path] using hpath), Bool.and_true]

theorem tuneItems_untuned (ht : t ∈ timeoutTuning :: tuning) :
    untuned (tuneItems l t) = untuned l := by
  rw [tuneItems]
  split
  · exact untuned_setValue (List.mem_cons_of_mem _ (List.mem_map_of_mem ht))
  · rfl

theorem retuneItems_untuned : untuned (retuneItems l) = untuned l := by
  have hall (ts : List Tuning) (hts : ∀ t ∈ ts, t ∈ timeoutTuning :: tuning) (l : List Item) :
      untuned (ts.foldl tuneItems l) = untuned l := by
    induction ts generalizing l with
    | nil => rfl
    | cons t ts ih =>
      obtain ⟨ht, hts⟩ := List.forall_mem_cons.mp hts
      rw [List.foldl_cons, ih hts, tuneItems_untuned ht]
  have hback (l : List Item) : untuned (handBackItems l) = untuned l := by
    rw [handBackItems]
    split
    · exact untuned_dropEntry List.mem_cons_self
    · rfl
  rw [retuneItems, tuneItems_untuned List.mem_cons_self, hback,
    hall tuning fun _ ht => List.mem_cons_of_mem _ ht]

theorem loadItems_eq_some : loadItems D total l = some cfg ↔ Unique l ∧
    ∃ base connections pending timeout relay tcp,
      D.others total (untuned l) = some base ∧
      field D.usize (LimitsConfig.default total).maxConcurrentConnections
        (lookup limits maxConcurrentConnections l) = some connections ∧
      field D.usize (LimitsConfig.default total).maxPendingDials
        (lookup limits maxPendingDials l) = some pending ∧
      field D.duration (LimitsConfig.default total).connectTimeout
        (lookup limits connectTimeout l) = some timeout ∧
      field D.usize (LimitsConfig.default total).relayBufferSize
        (lookup limits relayBufferSize l) = some relay ∧
      field D.usize WarpConfig.default.tcpBufferSize (lookup warp tcpBufferSize l) = some tcp ∧
      cfg = { base with
        warp := { base.warp with tcpBufferSize := tcp }
        limits := { base.limits with
          maxConcurrentConnections := connections
          maxPendingDials := pending
          connectTimeout := timeout
          relayBufferSize := relay } } := by
  rw [loadItems]
  constructor
  · intro hload
    split at hload
    · next hunique =>
      simp only [Option.bind_eq_bind, Option.bind_eq_some_iff, Option.some.injEq] at hload
      obtain ⟨base, hbase, connections, hconn, pending, hpend, timeout, htimeout, relay, hrelay,
        tcp, htcp, rfl⟩ := hload
      exact ⟨hunique, base, connections, pending, timeout, relay, tcp, hbase, hconn, hpend,
        htimeout, hrelay, htcp, rfl⟩
    · cases hload
  · intro ⟨hunique, base, connections, pending, timeout, relay, tcp, hbase, hconn, hpend, htimeout,
      hrelay, htcp, hcfg⟩
    rw [if_pos hunique, hbase, hconn, hpend, htimeout, hrelay, htcp, hcfg]
    rfl

theorem field_ite {α : Type} {decode : Line → Option α} {default v v' : α} {o o' : Option Line}
    {p : Prop} [Decidable p] (h : field decode default o = some v)
    (h' : field decode default o' = some v') :
    field decode default (if p then o' else o) = some (if p then v' else v) := by
  split
  · exact h'
  · exact h

theorem load_retune (hD : D.Lawful) (h : Editable file) (hload : load D total file = some cfg) :
    load D total (retuneLegacyLimits file) = some (retuned total (items file) cfg) := by
  obtain ⟨hedit, hitems⟩ := retune_items h
  rw [load] at hload ⊢
  obtain ⟨-, base, connections, pending, timeout, relay, tcp, hbase, hconn, hpend, htimeout, hrelay,
    htcp, rfl⟩ := loadItems_eq_some.mp hload
  have hpending : lookup limits maxPendingDials (retuneItems (items file)) =
      if current limits maxPendingDials (items file) = "128".toList then some " 512".toList
      else lookup limits maxPendingDials (items file) :=
    lookup_retuneItems (t := ⟨limits, maxPendingDials, "128".toList, "512".toList⟩)
      (by simp [tuning])
  have hconnect : lookup limits connectTimeout (retuneItems (items file)) =
      if current limits connectTimeout (items file) = "12s".toList then some " \"8s\"".toList
      else lookup limits connectTimeout (items file) :=
    lookup_retuneItems (t := timeoutTuning) List.mem_cons_self
  have hbuffer : lookup limits relayBufferSize (retuneItems (items file)) =
      if current limits relayBufferSize (items file) = "65536".toList then some " 32768".toList
      else lookup limits relayBufferSize (items file) :=
    lookup_retuneItems (t := ⟨limits, relayBufferSize, "65536".toList, "32768".toList⟩)
      (by simp [tuning])
  have hsocket : lookup warp tcpBufferSize (retuneItems (items file)) =
      if current warp tcpBufferSize (items file) = "262144".toList then some " 131072".toList
      else lookup warp tcpBufferSize (items file) :=
    lookup_retuneItems (t := ⟨warp, tcpBufferSize, "262144".toList, "131072".toList⟩)
      (by simp [tuning])
  rw [loadItems_eq_some, hitems]
  refine ⟨hitems ▸ hedit.unique, base, _, _, _, _, _, ?_, ?_, ?_, ?_, ?_, ?_, rfl⟩
  · rw [retuneItems_untuned, hbase]
  · rw [lookup_retuneItems_concurrency]
    exact field_ite hconn rfl
  · rw [hpending]
    exact field_ite hpend (hD.usize_decimal 512 (by decide))
  · rw [hconnect]
    exact field_ite htimeout hD.duration_seconds
  · rw [hbuffer]
    exact field_ite hrelay (hD.usize_decimal 32768 (by decide))
  · rw [hsocket]
    exact field_ite htcp (hD.usize_decimal 131072 (by decide))

/-! ### Legacy values -/

theorem decimal_plain : ∀ n ∈ [512, 1024, 4096, 32768, 65536, 131072, 262144],
    plainValue (' ' :: (toString n).toList) = (toString n).toList ∧ (toString n).toList ≠ [] := by
  decide

theorem field_legacy {default v n : ℕ} (hD : D.Lawful)
    (hn : n ∈ [512, 1024, 4096, 32768, 65536, 131072, 262144])
    (hcur : current sect key l = (toString n).toList)
    (hfield : field D.usize default (lookup sect key l) = some v) : v = n := by
  obtain ⟨hplain, hne⟩ := decimal_plain n hn
  obtain ⟨raw, hraw⟩ := lookup_of_current (hcur ▸ hne)
  rw [current, hraw, Option.map_some, Option.getD_some] at hcur
  rw [hraw] at hfield
  exact hD.usize_bare _ _ _ _ (hcur.trans hplain.symm) hfield (hD.usize_decimal n hn)

structure LegacyRead (l : List Item) (cfg : Config) : Prop where
  connections : HandedBack l → cfg.limits.maxConcurrentConnections ≤ 4096
  relay : current limits relayBufferSize l = "65536".toList → cfg.limits.relayBufferSize = 65536
  tcp : current warp tcpBufferSize l = "262144".toList → cfg.warp.tcpBufferSize = 262144

theorem legacyRead (hD : D.Lawful) (hload : loadItems D total l = some cfg) : LegacyRead l cfg := by
  obtain ⟨-, base, connections, pending, timeout, relay, tcp, -, hconn, -, -, hrelay, htcp, rfl⟩ :=
    loadItems_eq_some.mp hload
  refine ⟨fun hback => ?_, fun hcur => ?_, fun hcur => ?_⟩
  · rw [HandedBack, isLegacyConcurrency, Bool.or_eq_true, beq_iff_eq, beq_iff_eq] at hback
    rcases hback with hcur | hcur
    · exact (field_legacy (n := 1024) hD (by decide) hcur hconn).le.trans (by decide)
    · exact (field_legacy (n := 4096) hD (by decide) hcur hconn).le
  · exact field_legacy (n := 65536) hD (by decide) hcur hrelay
  · exact field_legacy (n := 262144) hD (by decide) hcur htcp

/-! ### Validation -/

structure Fits (h : HostFacts) (l : List Item) (cfg : Config) : Prop where
  raised : DialsRaised l → ¬ HandedBack l → 512 ≤ cfg.limits.maxConcurrentConnections
  kept : HandedBack l → ¬ DialsRaised l →
    cfg.limits.maxPendingDials ≤ defaultMaxConcurrentConnections h.totalSystemMemoryBytes
  memory : DialsRaised l ∨ HandedBack l → ∀ total, h.totalSystemMemoryBytes = some total →
    5 * bufferBytes (retuned (some total) l cfg).warp (retuned (some total) l cfg).limits <
    4 * total

theorem bufferBytes_retuned_le (total : Option ℕ) (hlegacy : LegacyRead l cfg)
    (hraised : ¬ DialsRaised l)
    (hback : ¬ HandedBack l) :
    bufferBytes (retuned total l cfg).warp (retuned total l cfg).limits ≤
      bufferBytes cfg.warp cfg.limits := by
  have htcp : (retuned total l cfg).warp.tcpBufferSize ≤ cfg.warp.tcpBufferSize := by
    rw [retuned_tcp]
    split
    · next hcur =>
      rw [hlegacy.tcp hcur]
      decide
    · rfl
  have hrelay : (retuned total l cfg).limits.relayBufferSize ≤ cfg.limits.relayBufferSize := by
    rw [retuned_relay]
    split
    · next hcur =>
      rw [hlegacy.relay hcur]
      decide
    · rfl
  have hconn : (retuned total l cfg).limits.maxConcurrentConnections =
      cfg.limits.maxConcurrentConnections := if_neg hback
  have hpend : (retuned total l cfg).limits.maxPendingDials = cfg.limits.maxPendingDials :=
    if_neg hraised
  rw [bufferBytes, bufferBytes, hconn, hpend, retuned_parallel]
  gcongr

theorem retuned_buffersInRange (hb : BuffersInRange cfg.warp cfg.limits) :
    BuffersInRange (retuned total l cfg).warp (retuned total l cfg).limits := by
  refine ⟨?_, ?_⟩
  · rw [retuned_tcp]
    split
    · decide
    · exact hb.tcp
  · rw [retuned_relay]
    split
    · decide
    · exact hb.relay

theorem retuned_pending_le {h : HostFacts} (hl : cfg.limits.InRange) :
    (retuned h.totalSystemMemoryBytes l cfg).limits.maxPendingDials ≤
        (retuned h.totalSystemMemoryBytes l cfg).limits.maxConcurrentConnections ↔
      (DialsRaised l → ¬ HandedBack l → 512 ≤ cfg.limits.maxConcurrentConnections) ∧
      (HandedBack l → ¬ DialsRaised l →
        cfg.limits.maxPendingDials ≤ defaultMaxConcurrentConnections h.totalSystemMemoryBytes) := by
  have hfloor := (Config.defaultMaxConcurrentConnections_range h.totalSystemMemoryBytes).1
  have hpend := hl.pending.2
  by_cases hraised : DialsRaised l
  · by_cases hback : HandedBack l
    · simp only [retuned_pending, retuned_connections, hraised, hback, if_true, not_true,
        false_imp_iff, imp_true_iff, and_true, iff_true]
      omega
    · simp only [retuned_pending, retuned_connections, hraised, hback, if_true, if_false,
        not_false_eq_true, true_imp_iff, false_imp_iff, and_true]
  · by_cases hback : HandedBack l
    · simp only [retuned_pending, retuned_connections, hraised, hback, if_true, if_false,
        not_false_eq_true, true_imp_iff, false_imp_iff, true_and]
    · simp only [retuned_pending, retuned_connections, hraised, hback, if_false, false_imp_iff,
        and_true, iff_true]
      exact hpend

/-- The ports are never what rejects the file: at most 4096 dials stay where the default is
taken, and at most 512 where it is not. -/
theorem retuned_ports_le (total : Option ℕ) (hlegacy : LegacyRead l cfg) (hl : cfg.limits.InRange)
    (hports : cfg.limits.ports ≤ 32768) : (retuned total l cfg).limits.ports ≤ 32768 := by
  have hceiling := (Config.defaultMaxConcurrentConnections_range total).2
  have hparallel := hl.parallel.2
  rw [LimitsConfig.ports] at hports ⊢
  have hdials (n : ℕ) (hn : n ≤ 4096) : n * (cfg.limits.maxParallelDials - 1) ≤ 4096 * 3 :=
    Nat.mul_le_mul hn (by omega)
  by_cases hback : HandedBack l
  · have hpend := hl.pending.2.trans (hlegacy.connections hback)
    by_cases hraised : DialsRaised l
    · have hraisedPorts := hdials 512 (by decide)
      simp only [retuned_pending, retuned_connections, retuned_parallel, hraised, hback, if_true]
      omega
    · have hkeptPorts := hdials _ hpend
      simp only [retuned_pending, retuned_connections, retuned_parallel, hraised, hback, if_true,
        if_false]
      omega
  · by_cases hraised : DialsRaised l
    · have hraisedPorts := hdials 512 (by decide)
      have hconn := hl.connections.2
      simp only [retuned_pending, retuned_connections, retuned_parallel, hraised, hback, if_true,
        if_false]
      omega
    · simpa only [retuned_pending, retuned_connections, retuned_parallel, hraised, hback, if_false]
        using hports

theorem retuned_inRange {h : HostFacts} (hl : cfg.limits.InRange)
    (hpending : (retuned h.totalSystemMemoryBytes l cfg).limits.maxPendingDials ≤
      (retuned h.totalSystemMemoryBytes l cfg).limits.maxConcurrentConnections) :
    (retuned h.totalSystemMemoryBytes l cfg).limits.InRange := by
  have hrange := Config.defaultMaxConcurrentConnections_range h.totalSystemMemoryBytes
  refine ⟨?_, ⟨?_, hpending⟩, ?_, hl.handshakeTimeout_pos, hl.idleTimeout_pos, hl.delay_pos,
    hl.candidates, hl.parallel⟩
  · rw [retuned_connections]
    split
    · exact ⟨(by decide : 1 ≤ 1024).trans hrange.1, hrange.2⟩
    · exact hl.connections
  · rw [retuned_pending]
    split
    · decide
    · exact hl.pending.1
  · rw [retuned_connectTimeout]
    split
    · decide
    · exact hl.connectTimeout_pos

variable {h : HostFacts} {isContainer trustedHostNet : Bool}

theorem fits_iff (hlegacy : LegacyRead l cfg)
    (hv : Config.validateWith h cfg isContainer trustedHostNet = .ok ()) :
    Fits h l cfg ↔ (retuned h.totalSystemMemoryBytes l cfg).limits.maxPendingDials ≤
        (retuned h.totalSystemMemoryBytes l cfg).limits.maxConcurrentConnections ∧
      ∀ total, h.totalSystemMemoryBytes = some total →
        5 * bufferBytes (retuned h.totalSystemMemoryBytes l cfg).warp
          (retuned h.totalSystemMemoryBytes l cfg).limits < 4 * total := by
  rw [retuned_pending_le (Config.limits_inRange hv)]
  constructor
  · intro hfits
    refine ⟨⟨hfits.raised, hfits.kept⟩, fun total htotal => ?_⟩
    rw [htotal]
    by_cases hgrown : DialsRaised l ∨ HandedBack l
    · exact hfits.memory hgrown total htotal
    · obtain ⟨hraised, hback⟩ := not_or.mp hgrown
      have hbytes := bufferBytes_retuned_le (some total) hlegacy hraised hback
      have hbefore := Config.bufferBytes_fits hv htotal
      omega
  · intro ⟨⟨hraised, hkept⟩, hmemory⟩
    refine ⟨hraised, hkept, fun _ total htotal => ?_⟩
    rw [← htotal]
    exact hmemory total htotal

theorem validateWith_retuned_iff (hlegacy : LegacyRead l cfg)
    (hv : Config.validateWith h cfg isContainer trustedHostNet = .ok ()) :
    Config.validateWith h (retuned h.totalSystemMemoryBytes l cfg) isContainer trustedHostNet =
      .ok () ↔ Fits h l cfg := by
  rw [fits_iff hlegacy hv]
  constructor
  · intro hafter
    exact ⟨(Config.limits_inRange hafter).pending.2, fun _ => Config.bufferBytes_fits hafter⟩
  · intro ⟨hpending, hmemory⟩
    have hl := retuned_inRange (Config.limits_inRange hv) hpending
    have hb : BuffersInRange (retuned h.totalSystemMemoryBytes l cfg).warp
        (retuned h.totalSystemMemoryBytes l cfg).limits :=
      retuned_buffersInRange (Config.buffers_inRange hv)
    have hports := retuned_ports_le h.totalSystemMemoryBytes hlegacy
      (Config.limits_inRange hv) (Config.ports_le hv)
    exact Config.validateWith_of_limits hv rfl rfl rfl rfl rfl hb hl hports hmemory

/-- An accepted file stays accepted exactly when the dials stay within the connections and,
where one of the two was raised, the buffers within the memory. -/
theorem retune_accepted_iff (hD : D.Lawful) (hplain : Plain file)
    (hload : load D h.totalSystemMemoryBytes file = some cfg)
    (hv : Config.validateWith h cfg isContainer trustedHostNet = .ok ()) :
    Accepted D h isContainer trustedHostNet (retuneLegacyLimits file) ↔
      Fits h (items file) cfg := by
  have hedit : Editable file := ⟨hplain, (loadItems_eq_some.mp hload).1⟩
  rw [← validateWith_retuned_iff (legacyRead hD hload) hv, Accepted, load_retune hD hedit hload]
  constructor
  · rintro ⟨cfg', hcfg, hvalid⟩
    obtain rfl := Option.some.inj hcfg
    exact hvalid
  · intro hvalid
    exact ⟨_, rfl, hvalid⟩

end

/-! ### A loader of decimal numbers and seconds -/

def decimal (digits : Line) : Option ℕ :=
  if digits ≠ [] ∧ ∀ c ∈ digits, c.isDigit then
    some (digits.foldl (fun n c => 10 * n + (c.toNat - 48)) 0)
  else none

def Decoder.plain : Decoder where
  usize raw := if (stripComment raw).contains '"' then none else decimal (plainValue raw)
  duration raw :=
    if (plainValue raw).getLast? = some 's' then
      (decimal (plainValue raw).dropLast).map .fromSecs
    else none
  others total l :=
    if ∀ x ∈ l, x = .header limits ∨ x = .header warp then some (Config.default total) else none

theorem Decoder.plain_lawful : Decoder.plain.Lawful where
  usize_decimal := by decide
  usize_bare := by
    intro raw raw' n n' hbare hread hread'
    simp only [Decoder.plain, Option.ite_none_left_eq_some] at hread hread'
    rw [hbare, hread'.2] at hread
    exact (Option.some.inj hread.2).symm
  duration_seconds := by decide

theorem accepted_iff {D : Decoder} {h : HostFacts} {isContainer trustedHostNet : Bool}
    {file : File} :
    Accepted D h isContainer trustedHostNet file ↔
      (load D h.totalSystemMemoryBytes file).any fun cfg =>
        decide (Config.validateWith h cfg isContainer trustedHostNet = .ok ()) := by
  rw [Accepted, Option.any_eq_true]
  simp only [decide_eq_true_eq]

instance (D : Decoder) (h : HostFacts) (isContainer trustedHostNet : Bool) (file : File) :
    Decidable (Accepted D h isContainer trustedHostNet file) :=
  decidable_of_iff _ accepted_iff.symm

def legacyFile : File :=
  ["[warp]".toList, "tcp_buffer_size = 262144".toList, [], "[limits]".toList,
    "max_concurrent_connections = 1024".toList, "max_pending_dials = 128".toList,
    "connect_timeout = \"12s\"".toList, "relay_buffer_size = 65536".toList]

theorem retune_accepted_legacy : ∃ cfg, load .plain (some 1073741824) legacyFile = some cfg ∧
    (Accepted .plain ⟨false, some 1073741824⟩ false false (retuneLegacyLimits legacyFile) ↔
      Fits ⟨false, some 1073741824⟩ (items legacyFile) cfg) := by
  have hsect : ∀ p ∈ (items legacyFile).filterMap Item.path, p.1 ≠ [] := by decide
  have hplain : Plain legacyFile := ⟨by decide, fun key hkey => hsect _ hkey rfl⟩
  have hbefore : Accepted .plain ⟨false, some 1073741824⟩ false false legacyFile := by
    decide +kernel
  obtain ⟨cfg, hload, hv⟩ := hbefore
  exact ⟨cfg, hload, retune_accepted_iff Decoder.plain_lawful hplain hload hv⟩

def customFile : File :=
  ["[limits]".toList, "max_concurrent_connections = 256".toList, "max_pending_dials = 128".toList]

/-- On 1 GiB: 512 dials are left with 256 connections. -/
theorem retune_rejects : ¬ ∀ (D : Decoder) (h : HostFacts) (isContainer trustedHostNet : Bool)
    (file : File), D.Lawful → Plain file → Accepted D h isContainer trustedHostNet file →
      Accepted D h isContainer trustedHostNet (retuneLegacyLimits file) := by
  intro hall
  have hsect : ∀ p ∈ (items customFile).filterMap Item.path, p.1 ≠ [] := by decide
  have hplain : Plain customFile := ⟨by decide, fun key hkey => hsect _ hkey rfl⟩
  have hbefore : Accepted .plain ⟨false, some 1073741824⟩ false false customFile := by
    decide +kernel
  have hafter : ¬ Accepted .plain ⟨false, some 1073741824⟩ false false
      (retuneLegacyLimits customFile) := by
    decide +kernel
  exact hafter (hall _ _ _ _ _ Decoder.plain_lawful hplain hbefore)

end WarpRust.Install
