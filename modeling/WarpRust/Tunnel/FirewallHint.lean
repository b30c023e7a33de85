import WarpRust.Tunnel.EndpointRace
import WarpRust.Warp.Endpoints

/-!
# What the failed handshakes say about the firewall

`firewall_hint` and the parsing under it, on the messages the race of `connect_candidate` collects.
An attempt over an address family the host does not have says nothing about the firewall; the hint
is given when all the others were refused by the kernel.
-/

namespace WarpRust.Tunnel
open Library EndpointRace

/-- The kinds of `std::io` that are told apart here. -/
inductive ErrorKind where
  | networkUnreachable
  | hostUnreachable
  | networkDown
  | addrNotAvailable
  | other
  deriving DecidableEq

/-- What the messages look like: `display` is for the pieces that are not text already, and `kind`
is `from_raw_os_error`, whose numbers are the platform's own. -/
structure Platform where
  kind : ℤ → ErrorKind
  display : Piece → List Char
  displayIp : IpAddr → String

def Platform.render (P : Platform) (t : Text) : List Char :=
  t.flatMap fun
    | .lit s => s.toList
    | piece => P.display piece

def errnoMarker : List Char := "(os error ".toList

def afterRfind (pat : List Char) : List Char → Option (List Char)
  | [] => if pat = [] then some [] else none
  | c :: s =>
    match afterRfind pat s with
    | some rest => some rest
    | none => if pat <+: c :: s then some ((c :: s).drop pat.length) else none

def magnitude (s : List Char) : Option ℕ :=
  if s = [] then none
  else s.foldl (fun n c => n.bind fun n => (Warp.digit c).map (10 * n + ·)) (some 0)

/-- `i32::from_str`: an optional sign, then digits, without an overflow. -/
def parseI32 (s : List Char) : Option ℤ :=
  if s.head? = some '-' then
    (magnitude s.tail).bind fun n => if n ≤ 2 ^ 31 then some (-n) else none
  else
    (magnitude (if s.head? = some '+' then s.tail else s)).bind fun n =>
      if n < 2 ^ 31 then some n else none

def osErrno (failure : List Char) : Option ℤ :=
  (afterRfind errnoMarker failure).bind fun rest =>
    if ')' ∈ rest then parseI32 (Warp.trim (rest.takeWhile (· ≠ ')'))) else none

def unavailableKinds : List ErrorKind :=
  [.networkUnreachable, .hostUnreachable, .networkDown, .addrNotAvailable]

def unavailableTexts : List String :=
  ["family not supported", "Network is unreachable", "No route to host", "Network is down",
    "Cannot assign requested address", "Can't assign requested address"]

def isAddressFamilyUnavailable (P : Platform) (failure : List Char) : Bool :=
  (osErrno failure).any (P.kind · ∈ unavailableKinds) ||
    unavailableTexts.any fun text => text.toList <:+: failure

def isPermissionRefused (failure : List Char) : Bool :=
  "Operation not permitted".toList <:+: failure

def relevantFailures (P : Platform) (failures : List (SocketAddr × Text)) :
    List (SocketAddr × Text) :=
  failures.filter fun f => !isAddressFamilyUnavailable P (P.render f.2)

def blockedIps (relevant : List (SocketAddr × Text)) : List IpAddr :=
  relevant.foldl (fun ips f => if f.1.ip ∈ ips then ips else ips ++ [f.1.ip]) []

def firewallRule (P : Platform) (ip : IpAddr) : Text :=
  [.lit (if ip.isIpv4 then "iptables" else "ip6tables"), .lit " -A OUTPUT -p udp -d ",
    .lit (P.displayIp ip), .lit " -j ACCEPT"]

def hintText (P : Platform) (ips : List IpAddr) : Text :=
  [.lit " —— 所有可判定的尝试都是 EPERM，通常是本机防火墙(iptables/nftables OUTPUT)拦截了",
    .lit "到 WARP endpoint ["] ++ Text.join ", " (ips.map fun ip => [.lit (P.displayIp ip)]) ++
  [.lit "] 的出站 UDP。请放行到这些地址的", .lit "2408/500/1701/4500（例：`"] ++
  Text.join "; " (ips.map (firewallRule P)) ++ [.lit "`）"]

def firewallHint (P : Platform) (failures : List (SocketAddr × Text)) : Text :=
  let relevant := relevantFailures P failures
  if relevant.isEmpty || !relevant.all (fun f => isPermissionRefused (P.render f.2)) then []
  else hintText P (blockedIps relevant)

def tunnelRace (P : Platform) (cfg : WireGuardConfig) : EndpointRace.Params := ⟨cfg, firewallHint P⟩

/-! ### The error number of a message -/

def errnoText (n : ℕ) : List Char := errnoMarker ++ Nat.toDigits 10 n ++ [')']

theorem afterRfind_append {pat b rest : List Char} (a : List Char)
    (h : afterRfind pat b = some rest) :
    afterRfind pat (a ++ b) = some rest := by
  induction a with
  | nil => exact h
  | cons c a ih => rw [List.cons_append, afterRfind, ih]

theorem afterRfind_append_none {c : Char} {p b : List Char} (a : List Char) (hc : c ∉ a)
    (h : afterRfind (c :: p) b = none) : afterRfind (c :: p) (a ++ b) = none := by
  induction a with
  | nil => exact h
  | cons d a ih =>
    rw [List.cons_append, afterRfind, ih fun h => hc (List.mem_cons_of_mem d h)]
    apply if_neg
    intro hp
    obtain ⟨rfl, _⟩ := List.cons_prefix_cons.mp hp
    exact hc List.mem_cons_self

/-- Neither the pattern nor what follows it begins the pattern again. -/
theorem afterRfind_last {c : Char} {p post : List Char} (pre rest : List Char) (hp : c ∉ p)
    (hrest : c ∉ rest) (hpost : afterRfind (c :: p) post = none) :
    afterRfind (c :: p) (pre ++ (c :: p ++ rest) ++ post) = some (rest ++ post) := by
  have hbehind : afterRfind (c :: p) (p ++ rest ++ post) = none :=
    afterRfind_append_none _ (by simp [hp, hrest]) hpost
  have hprefix : c :: p <+: c :: (p ++ rest ++ post) := by
    rw [List.append_assoc]
    exact List.prefix_append (c :: p) _
  rw [List.append_assoc]
  apply afterRfind_append
  rw [List.cons_append, List.cons_append, afterRfind, hbehind]
  dsimp only
  rw [if_pos hprefix, List.append_assoc, List.length_cons, List.drop_succ_cons, List.drop_left]

theorem magnitude_eq {s : List Char} (hs : s ≠ []) (h : ∀ c ∈ s, c.isDigit = true) :
    magnitude s = some (Nat.ofDigitChars 10 s 0) := by
  have hfold (n : ℕ) : s.foldl (fun n c => n.bind fun n => (Warp.digit c).map (10 * n + ·))
    (some n) =
      some (Nat.ofDigitChars 10 s n) := by
    clear hs
    induction s generalizing n with
    | nil => rw [Nat.ofDigitChars_nil, List.foldl_nil]
    | cons c s ih =>
      obtain ⟨hc, hs⟩ := List.forall_mem_cons.mp h
      rw [List.foldl_cons, Nat.ofDigitChars_cons, Option.bind_some, Warp.digit_eq hc,
        Option.map_some]
      exact ih hs _
  rw [magnitude, if_neg hs, hfold]

theorem isDigit_of_digits {n : ℕ} {c : Char} (h : c ∈ Nat.toDigits 10 n) : c.isDigit = true :=
  Nat.isDigit_of_mem_toDigits (by decide) (by decide) h

theorem not_mem_digits {n : ℕ} {c : Char} (h : c.isDigit = false) : c ∉ Nat.toDigits 10 n := by
  intro hc
  rw [isDigit_of_digits hc] at h
  cases h

theorem trim_eq_self {s : List Char} (h : ∀ c ∈ s, Warp.isWhitespace c = false) :
    Warp.trim s = s := by
  apply Warp.Trimmed.trim_eq
  exact ⟨⟨[], [], by simp, by simp, by simp⟩, fun c hc => h c (List.mem_of_mem_head? hc),
    fun c hc => h c (List.mem_of_getLast? hc)⟩

theorem not_whitespace_of_isDigit {c : Char} (h : c.isDigit = true) :
    Warp.isWhitespace c = false := by
  have hc := Warp.toNat_of_isDigit h
  simp only [Warp.isWhitespace, Bool.or_eq_false_iff, Bool.and_eq_false_iff,
    decide_eq_false_iff_not]
  omega

theorem parseI32_digits {n : ℕ} (hn : n < 2 ^ 31) :
    parseI32 (Nat.toDigits 10 n) = some (n : ℤ) := by
  have hhead {c : Char} (hc : c.isDigit = false) : (Nat.toDigits 10 n).head? ≠ some c :=
    fun h => not_mem_digits hc (List.mem_of_mem_head? h)
  rw [parseI32, if_neg (hhead rfl), if_neg (hhead rfl),
    magnitude_eq Nat.toDigits_ne_nil fun c hc => isDigit_of_digits hc,
    Nat.ofDigitChars_ten_toDigits]
  exact if_pos hn

theorem osErrno_display {pre post : List Char} {n : ℕ} (hn : n < 2 ^ 31)
    (hpost : afterRfind errnoMarker post = none) :
    osErrno (pre ++ errnoText n ++ post) = some (n : ℤ) := by
  have hlast : afterRfind errnoMarker (pre ++ errnoText n ++ post) =
      some (Nat.toDigits 10 n ++ [')'] ++ post) := by
    have hmark : errnoMarker = '(' :: "os error ".toList := by decide
    have hrest : '(' ∉ Nat.toDigits 10 n ++ [')'] := by
      simpa using not_mem_digits (by decide)
    rw [errnoText, List.append_assoc errnoMarker]
    rw [hmark] at hpost ⊢
    exact afterRfind_last pre _ (by decide) hrest hpost
  have hread : (Nat.toDigits 10 n ++ [')'] ++ post).takeWhile (· ≠ ')') = Nat.toDigits 10 n := by
    rw [List.append_assoc, List.takeWhile_append_of_pos]
    · simp
    · intro c hc
      exact decide_eq_true fun h => not_mem_digits (n := n) (c := ')') rfl (h ▸ hc)
  rw [osErrno, hlast, Option.bind_some, if_pos (by simp), hread,
    trim_eq_self fun c hc => not_whitespace_of_isDigit (isDigit_of_digits hc), parseI32_digits hn]

/-! ### The hint of a race -/

def Relevant (P : Platform) (f : SocketAddr × Text) : Prop :=
  isAddressFamilyUnavailable P (P.render f.2) = false

def Refused (P : Platform) (f : SocketAddr × Text) : Prop :=
  "Operation not permitted".toList <:+: P.render f.2

/-- A failure that an attempt ended with, whatever the order, and not one of a missing address
family. -/
structure Evidence (P : Platform) (s : EndpointRace.State) (f : SocketAddr × Text) : Prop where
  ended : ∃ x ∈ s.ended, recorded x = some f
  relevant : Relevant P f

def Blocked (P : Platform) (s : EndpointRace.State) : Prop :=
  (∃ f, Evidence P s f) ∧ ∀ f, Evidence P s f → Refused P f

def hintIps (P : Platform) (s : EndpointRace.State) : List IpAddr :=
  blockedIps (relevantFailures P s.failures)

structure Diagnosed (P : Platform) (cfg : WireGuardConfig) (s : EndpointRace.State) (e : Error) :
    Prop where
  error : e = .other (.lit "all WARP WireGuard endpoint candidates failed: " ::
    failureDetail s.failures ++ firewallHint P s.failures)
  given : Blocked P s → firewallHint P s.failures = hintText P (hintIps P s)
  withheld : ¬ Blocked P s → firewallHint P s.failures = []
  once : (hintIps P s).Nodup
  named : ∀ ip, ip ∈ hintIps P s ↔ ∃ f, Evidence P s f ∧ f.1.ip = ip
  tried : ∀ f, Evidence P s f → f.1 ∈ endpointAttempts cfg ∨ ∃ e t, (e, .panicked t) ∈ s.ended
  setAside : ∀ f pre n post, P.render f.2 = pre ++ errnoText n ++ post → n < 2 ^ 31 →
    afterRfind errnoMarker post = none → P.kind n ∈ unavailableKinds → ¬ Evidence P s f

variable {P : Platform} {cfg : WireGuardConfig} {s t : EndpointRace.State} {e : Error}

theorem blockedIps_eq (relevant : List (SocketAddr × Text)) :
    blockedIps relevant = firstOccurrences (relevant.map fun f => f.1.ip) := by
  rw [← foldl_appendNew_nil, List.foldl_map]
  rfl

theorem mem_relevantFailures {failures : List (SocketAddr × Text)} {f : SocketAddr × Text} :
    f ∈ relevantFailures P failures ↔ f ∈ failures ∧ Relevant P f := by
  rw [relevantFailures, List.mem_filter, Bool.not_eq_true', Relevant]

theorem hintText_ne_nil (P : Platform) (ips : List IpAddr) : hintText P ips ≠ [] :=
  List.cons_ne_nil _ _

theorem suppressed_iff {relevant : List (SocketAddr × Text)} :
    (relevant.isEmpty || !relevant.all fun f => isPermissionRefused (P.render f.2)) = true ↔
      ¬ ((∃ f, f ∈ relevant) ∧ ∀ f ∈ relevant, Refused P f) := by
  have hall : (relevant.all fun f => isPermissionRefused (P.render f.2)) = true ↔
      ∀ f ∈ relevant, Refused P f :=
    List.all_eq_true.trans (forall₂_congr fun f _ => decide_eq_true_iff)
  rw [not_and_or, not_exists, ← List.eq_nil_iff_forall_not_mem, Bool.or_eq_true, List.isEmpty_iff,
    Bool.not_eq_true', ← Bool.not_eq_true, hall]

theorem mem_failures (h : Inv (tunnelRace P cfg) s) (hs : s.phase = .returned (.error e))
    {f : SocketAddr × Text} : f ∈ s.failures ↔ ∃ x ∈ s.ended, recorded x = some f := by
  have hphase := h.phase
  simp only [PhaseInv, hs] at hphase
  obtain ⟨hquiet, hsel, _, _⟩ := hphase
  have hfinished : s.finished = [] := by
    rw [State.inFlight, Nat.add_eq_zero_iff] at hquiet
    exact List.eq_nil_of_length_eq_zero hquiet.2
  have hjoined := hsel.open_
  rw [hfinished, List.append_nil] at hjoined
  rw [hsel.failures, List.mem_filterMap]
  exact exists_congr fun x => and_congr_left' hjoined.mem_iff

theorem mem_relevant_iff (h : Inv (tunnelRace P cfg) s) (hs : s.phase = .returned (.error e))
    {f : SocketAddr × Text} : f ∈ relevantFailures P s.failures ↔ Evidence P s f := by
  rw [mem_relevantFailures, mem_failures h hs]
  exact ⟨fun ⟨he, hr⟩ => ⟨he, hr⟩, fun hf => ⟨hf.ended, hf.relevant⟩⟩

theorem Diagnosed.of_over (h : Inv (tunnelRace P cfg) s) (hs : s.phase = .returned (.error e)) :
    Diagnosed P cfg s e := by
  have hmem {f : SocketAddr × Text} := mem_relevant_iff h hs (f := f)
  have hblocked : Blocked P s ↔ (∃ f, f ∈ relevantFailures P s.failures) ∧
      ∀ f ∈ relevantFailures P s.failures, Refused P f :=
    and_congr (exists_congr fun f => hmem.symm) (forall_congr' fun f => imp_congr_left hmem.symm)
  have hphase := h.phase
  simp only [PhaseInv, hs] at hphase
  refine ⟨hphase.2.2.2, fun hb => ?_, fun hb => ?_, ?_, fun ip => ?_, fun f hf => ?_, ?_⟩
  · exact if_neg fun hc => suppressed_iff.mp hc (hblocked.mp hb)
  · exact if_pos (suppressed_iff.mpr fun hc => hb (hblocked.mpr hc))
  · rw [hintIps, blockedIps_eq]
    exact firstOccurrences_nodup _
  · rw [hintIps, blockedIps_eq, mem_firstOccurrences, List.mem_map]
    exact exists_congr fun f => and_congr_left' hmem
  · obtain ⟨⟨x, o⟩, hx, hr⟩ := hf.ended
    cases o with
    | connected => cases hr
    | failed err =>
      obtain rfl := Option.some.inj hr
      have hstarted := h.books.ended_started hx
      have horder : s.started ++ s.pending = endpointAttempts cfg := h.books.order
      exact .inl (horder ▸ List.mem_append_left s.pending hstarted)
    | panicked t => exact .inr ⟨x, t, hx⟩
  · intro f pre n post hf hn hpost hkind hev
    have hrel := hev.relevant
    rw [Relevant, isAddressFamilyUnavailable, hf, osErrno_display hn hpost, Option.any_some,
      decide_eq_true hkind, Bool.true_or] at hrel
    cases hrel

/-- However the attempts of a failed race were ordered: the error carries the hint exactly when some
attempt failed for another reason than a missing address family and every such attempt was refused
by the kernel, and the hint names the addresses of these attempts, each once. An attempt whose last
error number is one of an unavailable network counts for nothing, whatever words stand around it.
Two races whose attempts ended alike get the hint both or neither, for the same addresses. -/
theorem failed_race_diagnosed
    (h : (EndpointRace.machine (tunnelRace P cfg)).Reachable (.init cfg) s)
    (hs : s.phase = .returned (.error e)) :
    Diagnosed P cfg s e ∧
      ∀ t e', (EndpointRace.machine (tunnelRace P cfg)).Reachable (.init cfg) t →
        t.phase = .returned (.error e') → (∀ x, x ∈ t.ended ↔ x ∈ s.ended) →
          (firewallHint P t.failures = [] ↔ firewallHint P s.failures = []) ∧
            (hintIps P t).Perm (hintIps P s) := by
  have hds := Diagnosed.of_over (Inv.reachable h) hs
  refine ⟨hds, fun t e' ht hphase hended => ?_⟩
  have hdt := Diagnosed.of_over (Inv.reachable ht) hphase
  have hev (f : SocketAddr × Text) : Evidence P t f ↔ Evidence P s f := by
    have hex : (∃ x ∈ t.ended, recorded x = some f) ↔ ∃ x ∈ s.ended, recorded x = some f :=
      exists_congr fun x => and_congr_left' (hended x)
    exact ⟨fun hf => ⟨hex.mp hf.ended, hf.relevant⟩, fun hf => ⟨hex.mpr hf.ended, hf.relevant⟩⟩
  have hblocked : Blocked P t ↔ Blocked P s :=
    and_congr (exists_congr hev) (forall_congr' fun f => imp_congr_left (hev f))
  have hempty {u : EndpointRace.State} {e : Error} (hu : Diagnosed P cfg u e) :
      firewallHint P u.failures = [] ↔ ¬ Blocked P u := by
    refine ⟨fun hnil hb => ?_, hu.withheld⟩
    rw [hu.given hb] at hnil
    exact hintText_ne_nil _ _ hnil
  constructor
  · rw [hempty hdt, hempty hds, hblocked]
  · rw [List.perm_ext_iff_of_nodup hdt.once hds.once]
    intro ip
    rw [hdt.named, hds.named]
    exact exists_congr fun f => and_congr_left' (hev f)

/-- Linux, as far as its error numbers matter here; an IPv6 address is not written out. -/
def linux : Platform where
  kind n :=
    if n = 101 then .networkUnreachable
    else if n = 113 then .hostUnreachable
    else if n = 100 then .networkDown
    else if n = 99 then .addrNotAvailable
    else .other
  display _ := []
  displayIp
    | .v4 bits => String.intercalate "." ((IpAddr.ipv4Octets bits).map fun b => toString b.toNat)
    | .v6 _ => "::"

def createFailed (detail : String) : Joined :=
  .failed (.other [.lit "Failed to create WireGuard tunnel: IO error: ", .lit detail])

theorem failed_race_diagnosed_refused : ∃ s e, s.phase = .returned (.error e) ∧
    Diagnosed linux (endpointConfig (.v4 1 2408) []) s e ∧
    firewallHint linux s.failures = hintText linux [.v4 1] := by
  have hattempts : endpointAttempts (endpointConfig (.v4 1 2408) []) =
      [.v4 1 2408, .v4 1 500, .v4 1 1701, .v4 1 4500] := by decide
  have hrun : ∃ s, (EndpointRace.machine (tunnelRace linux (endpointConfig (.v4 1 2408) []))).run
      (.init (endpointConfig (.v4 1 2408) []))
      [.finish 1 (createFailed "Operation not permitted (os error 1)"), .join 0,
        .finish 0 (createFailed "Network is unreachable (os error 101)"), .join 0,
        .finish 0 (createFailed "Operation not permitted (os error 1)"),
        .finish 0 (createFailed "Operation not permitted (os error 1)"), .join 1, .join 0,
        .exhausted] = some s ∧ (∃ e, s.phase = .returned (.error e)) ∧
      firewallHint linux s.failures = hintText linux [.v4 1] := by
    simp only [State.init, hattempts]
    exact ⟨_, rfl, ⟨_, rfl⟩, by decide +kernel⟩
  obtain ⟨s, hs, ⟨e, he⟩, hhint⟩ := hrun
  obtain ⟨l, hl, -⟩ := Machine.exec_of_run _ hs
  exact ⟨s, e, he, (failed_race_diagnosed hl.reachable he).1, hhint⟩

end WarpRust.Tunnel
