import Mathlib.Data.List.Defs
import Mathlib.Data.List.DropRight
import Mathlib.Data.List.TakeWhile
import WarpRust.Library.Lists

/-!
# The line editor of the installer

The `awk` programs of `install.sh` that read, rewrite and comment out one key of one section,
and what the lines of a configuration file are when each key stands on its own line under a
plain header. Each program is stated on the items of such a file.
-/

namespace WarpRust.Install

abbrev Line := List Char
abbrev File := List Line

/-! ### The programs -/

/-- `[[:space:]]` -/
def isSpace (c : Char) : Bool := c == ' ' || (9 ≤ c.toNat && c.toNat ≤ 13)

def skipSpace (line : Line) : Line := line.dropWhile isSpace

/-- `[[:space:]]*(#.*)?$` -/
def endsLine (line : Line) : Bool :=
  match skipSpace line with
  | [] => true
  | c :: _ => c == '#'

/-- `"^[[:space:]]*\\[" sect "\\][[:space:]]*(#.*)?$"` -/
def isHeader (sect line : Line) : Bool :=
  match (skipSpace line).dropPrefix? ('[' :: sect ++ [']']) with
  | some rest => endsLine rest
  | none => false

/-- `/^[[:space:]]*\[/` -/
def opensSection (line : Line) : Bool := (skipSpace line).head? == some '['

/-- `sub(/#.*/, "", line)` -/
def stripComment (line : Line) : Line := line.takeWhile (· != '#')

/-- `"^[[:space:]]*" key "[[:space:]]*="` -/
def hasKey (key line : Line) : Bool :=
  match (skipSpace line).dropPrefix? key with
  | some rest => (skipSpace rest).head? == some '='
  | none => false

/-- `gsub(/^[[:space:]]+|[[:space:]]+$/, "", line); gsub(/"/, "", line)` -/
def bare (value : Line) : Line := ((skipSpace value).rdropWhile isSpace).filter (· != '"')

/-- `sub(/^[^=]*=/, "", line)`, then `bare`. -/
def valueOf (line : Line) : Line := bare (line.dropWhile (· != '=')).tail

def readFrom (sect key : Line) : Bool → File → Option Line
  | _, [] => none
  | inside, line :: rest =>
    if isHeader sect line then readFrom sect key true rest
    else if inside && opensSection line then none
    else if inside && hasKey key (stripComment line) then some (valueOf (stripComment line))
    else readFrom sect key inside rest

def readTomlKey (file : File) (sect key : Line) : Option Line := readFrom sect key false file

def assignment (key value : Line) : Line := key ++ " = ".toList ++ value

def writeFrom (sect key value : Line) : Bool → Bool → File → File
  | inside, done, [] => if inside && !done then [assignment key value] else []
  | inside, done, line :: rest =>
    if isHeader sect line then line :: writeFrom sect key value true done rest
    else if inside && opensSection line then
      if done then line :: writeFrom sect key value false done rest
      else assignment key value :: line :: writeFrom sect key value false true rest
    else if inside && !done && hasKey key (stripComment line) then
      assignment key value :: writeFrom sect key value inside true rest
    else line :: writeFrom sect key value inside done rest

def writeTomlKey (file : File) (sect key value : Line) : File :=
  writeFrom sect key value false false file

def commented (line : Line) : Line := "# ".toList ++ line

def commentOutFrom (sect key note : Line) : Bool → File → File
  | _, [] => []
  | inside, line :: rest =>
    if isHeader sect line then line :: commentOutFrom sect key note true rest
    else if inside && opensSection line then line :: commentOutFrom sect key note false rest
    else if inside && hasKey key (stripComment line) then
      commented note :: commented line :: commentOutFrom sect key note inside rest
    else line :: commentOutFrom sect key note inside rest

def commentOutTomlKey (file : File) (sect key note : Line) : File :=
  commentOutFrom sect key note false file

/-! ### Plain files -/

inductive Kind where
  | blank
  | header (name : Line)
  | entry (key value : Line)
  | other
  deriving DecidableEq

def isKeyChar (c : Char) : Bool := c.isAlphanum || c == '_' || c == '-'
def isNameChar (c : Char) : Bool := isKeyChar c || c == '.'

def classify (line : Line) : Kind :=
  match skipSpace line with
  | [] => .blank
  | c :: text =>
    if c == '#' then .blank
    else if c == '[' then
      match text.takeWhile isNameChar, text.dropWhile isNameChar with
      | n :: name, d :: tail => if d == ']' && endsLine tail then .header (n :: name) else .other
      | _, _ => .other
    else
      match (c :: text).takeWhile isKeyChar, skipSpace ((c :: text).dropWhile isKeyChar) with
      | k :: key, d :: value => if d == '=' then .entry (k :: key) value else .other
      | _, _ => .other

inductive Item where
  | header (name : Line)
  | entry (sect key value : Line)
  deriving DecidableEq

def itemsFrom (sect : Line) : File → List Item
  | [] => []
  | line :: rest =>
    match classify line with
    | .header name => .header name :: itemsFrom name rest
    | .entry key value => .entry sect key value :: itemsFrom sect rest
    | .blank | .other => itemsFrom sect rest

def items (file : File) : List Item := itemsFrom [] file

namespace Item

def name : Item → Option Line
  | header name => some name
  | entry _ _ _ => none

def path : Item → Option (Line × Line)
  | header _ => none
  | entry sect key _ => some (sect, key)

end Item

/-- Each line is blank, a header or an entry, and no entry stands before the first header. -/
structure Plain (file : File) : Prop where
  lines : ∀ line ∈ file, classify line ≠ .other
  sectioned : ∀ key, ([], key) ∉ (items file).filterMap Item.path

/-- TOML takes each table and each key once. -/
def Unique (l : List Item) : Prop := (l.filterMap Item.name).Nodup ∧ (l.filterMap Item.path).Nodup

instance (l : List Item) : Decidable (Unique l) := inferInstanceAs (Decidable (_ ∧ _))

def setValue (sect key value : Line) (l : List Item) : List Item :=
  l.map fun x => if x.path = some (sect, key) then .entry sect key value else x

def dropEntry (sect key : Line) (l : List Item) : List Item :=
  l.filter (·.path ≠ some (sect, key))

def lookup (sect key : Line) : List Item → Option Line
  | [] => none
  | .entry s k value :: l => if s = sect ∧ k = key then some value else lookup sect key l
  | .header _ :: l => lookup sect key l

/-! ### What a line of each kind is -/

inductive Shape : Line → Kind → Prop
  | blank {ws : Line} (hws : ∀ c ∈ ws, isSpace c) : Shape ws .blank
  | comment {ws text : Line} (hws : ∀ c ∈ ws, isSpace c) : Shape (ws ++ '#' :: text) .blank
  | header {ws name tail : Line} (hws : ∀ c ∈ ws, isSpace c) (hne : name ≠ [])
      (hname : ∀ c ∈ name, isNameChar c)
      (htail : endsLine tail = true) : Shape (ws ++ '[' :: (name ++ ']' :: tail)) (.header name)
  | entry {ws key gap value : Line} (hws : ∀ c ∈ ws, isSpace c) (hne : key ≠ [])
      (hkey : ∀ c ∈ key, isKeyChar c) (hgap : ∀ c ∈ gap, isSpace c) :
      Shape (ws ++ (key ++ (gap ++ '=' :: value))) (.entry key value)

theorem exists_skipSpace (line : Line) : ∃ ws, line = ws ++ skipSpace line ∧ ∀ c ∈ ws, isSpace c :=
  ⟨line.takeWhile isSpace, List.takeWhile_append_dropWhile.symm,
    fun _ hc => List.mem_takeWhile_imp hc⟩

theorem shape_classify {line : Line} (h : classify line ≠ .other) : Shape line (classify line) := by
  obtain ⟨ws, hline, hws⟩ := exists_skipSpace line
  cases htext : skipSpace line with
  | nil =>
    rw [htext, List.append_nil] at hline
    rw [classify, htext, hline]
    exact .blank hws
  | cons c text =>
    rw [htext] at hline
    by_cases hcomment : c = '#'
    · subst hcomment
      rw [classify, htext, hline]
      exact .comment hws
    have hne : (c == '#') = false := beq_eq_false_iff_ne.mpr hcomment
    by_cases hopen : c = '['
    · subst hopen
      have hname := List.takeWhile_append_dropWhile (p := isNameChar) (l := text)
      simp only [classify, htext, hne, beq_self_eq_true, Bool.false_eq_true, if_false,
        if_true] at h ⊢
      split at h
      · next n name d tail htake hdrop =>
        by_cases hend : (d == ']' && endsLine tail) = true
        · obtain ⟨hclose, htail⟩ := Bool.and_eq_true_iff.mp hend
          obtain rfl := beq_iff_eq.mp hclose
          rw [if_pos hend, hline, ← hname, htake, hdrop]
          refine .header hws (List.cons_ne_nil _ _) ?_ htail
          rw [← htake]
          exact fun _ hc => List.mem_takeWhile_imp hc
        · rw [if_neg hend] at h
          exact absurd rfl h
      · exact absurd rfl h
    · have hopen' : (c == '[') = false := beq_eq_false_iff_ne.mpr hopen
      have hkey := List.takeWhile_append_dropWhile (p := isKeyChar) (l := c :: text)
      obtain ⟨gap, hgap, hspace⟩ := exists_skipSpace ((c :: text).dropWhile isKeyChar)
      simp only [classify, htext, hne, hopen', Bool.false_eq_true, if_false] at h ⊢
      split at h
      · next k key d value htake hdrop =>
        by_cases heq : (d == '=') = true
        · obtain rfl := beq_iff_eq.mp heq
          rw [if_pos heq, hline, ← hkey, hgap, htake, hdrop]
          refine .entry hws (List.cons_ne_nil _ _) ?_ hspace
          rw [← htake]
          exact fun _ hc => List.mem_takeWhile_imp hc
        · rw [if_neg heq] at h
          exact absurd rfl h
      · exact absurd rfl h

/-! ### The programs on one line -/

section
variable {line sect key name value ws text rest : Line}

theorem skipSpace_append (hws : ∀ c ∈ ws, isSpace c) (text : Line) :
    skipSpace (ws ++ text) = skipSpace text := List.dropWhile_append_of_pos hws

theorem skipSpace_cons {c : Char} (hc : isSpace c = false) (text : Line) :
    skipSpace (c :: text) = c :: text := List.dropWhile_cons_of_neg (by rw [hc]; nofun)

theorem skipSpace_all (hws : ∀ c ∈ ws, isSpace c) : skipSpace ws = [] :=
  List.dropWhile_eq_nil_iff.mpr hws

theorem isKeyChar_ne {c d : Char} (hc : isKeyChar c) (hd : isKeyChar d = false) : c ≠ d := by
  rintro rfl
  rw [hd] at hc
  cases hc

theorem isKeyChar_not_space {c : Char} (hc : isKeyChar c) : isSpace c = false := by
  have hblank : c ≠ ' ' := by
    rintro rfl
    cases hc
  have hlow : 45 ≤ c.toNat := by
    delta isKeyChar Char.isAlphanum Char.isAlpha Char.isUpper Char.isLower at hc
    simp only [Char.isDigit, Bool.or_eq_true, beq_iff_eq, Bool.and_eq_true, decide_eq_true_eq,
      ge_iff_le, UInt32.le_iff_toNat_le] at hc
    rcases hc with ((((h | h) | h) | rfl) | rfl)
    · exact (by decide : 45 ≤ 65).trans (by simpa using h.1)
    · exact (by decide : 45 ≤ 97).trans (by simpa using h.1)
    · exact (by decide : 45 ≤ 48).trans (by simpa using h.1)
    · decide
    · decide
  simp only [isSpace, Bool.or_eq_false_iff, beq_eq_false_iff_ne, Bool.and_eq_false_iff,
    decide_eq_false_iff_not]
  exact ⟨hblank, .inr (by omega)⟩

theorem isSpace_ne {c d : Char} (hc : isSpace c) (hd : isSpace d = false) : c ≠ d := by
  rintro rfl
  rw [hd] at hc
  cases hc

theorem append_stop_inj {stop : Char} {a b s t : Line} (ha : ∀ c ∈ a, c ≠ stop)
    (hb : ∀ c ∈ b, c ≠ stop) (h : a ++ stop :: s = b ++ stop :: t) : a = b ∧ s = t := by
  have htake := congrArg (List.takeWhile (· != stop)) h
  rw [List.takeWhile_append_of_pos (fun c hc => bne_iff_ne.mpr (ha c hc)),
    List.takeWhile_append_of_pos (fun c hc => bne_iff_ne.mpr (hb c hc)),
    List.takeWhile_cons_of_neg (by simp), List.takeWhile_cons_of_neg (by simp), List.append_nil,
    List.append_nil] at htake
  subst htake
  exact ⟨rfl, List.cons_inj_right stop |>.mp (List.append_cancel_left h)⟩

def Word (word : Line) : Prop := word ≠ [] ∧ ∀ c ∈ word, isKeyChar c

theorem isNameChar_of_key {c : Char} (hc : isKeyChar c) : isNameChar c := by
  rw [isNameChar, hc, Bool.true_or]

theorem isNameChar_ne {c d : Char} (hc : isNameChar c) (hd : isNameChar d = false) : c ≠ d := by
  rintro rfl
  rw [hd] at hc
  cases hc

theorem dropPrefix?_eq_none {c d : Char} {a b : Line} (h : c ≠ d) :
    (c :: a).dropPrefix? (d :: b) = none := by
  rw [List.dropPrefix?, if_neg (by simpa using h)]

theorem isHeader_header (hsect : Word sect) (hws : ∀ c ∈ ws, isSpace c)
    (hname : ∀ c ∈ name, isNameChar c) (hrest : endsLine rest = true) :
    isHeader sect (ws ++ '[' :: (name ++ ']' :: rest)) = decide (name = sect) := by
  rw [isHeader, skipSpace_append hws, skipSpace_cons (by decide)]
  by_cases heq : name = sect
  · subst heq
    have hdrop : ('[' :: (name ++ ']' :: rest)).dropPrefix? ('[' :: name ++ [']']) = some rest := by
      rw [List.dropPrefix?_eq_some_iff]
      exact ⟨'[' :: name ++ [']'], by simp, by simp⟩
    rw [hdrop, decide_eq_true rfl]
    exact hrest
  · have hdrop : ('[' :: (name ++ ']' :: rest)).dropPrefix? ('[' :: sect ++ [']']) = none := by
      rw [Option.eq_none_iff_forall_ne_some]
      intro tail htail
      obtain ⟨p, hp, hsame⟩ := List.dropPrefix?_eq_some_iff.mp htail
      obtain rfl := eq_of_beq hsame
      simp only [List.cons_append, List.cons.injEq, true_and, List.append_assoc,
        List.nil_append] at hp
      exact heq (append_stop_inj (fun c hc => isNameChar_ne (hname c hc) (by decide))
        (fun c hc => isNameChar_ne (isNameChar_of_key (hsect.2 c hc)) (by decide)) hp).1
    rw [hdrop, decide_eq_false heq]

theorem isHeader_of_not_opens (h : opensSection line = false) : isHeader sect line = false := by
  rw [isHeader]
  rw [opensSection] at h
  cases htext : skipSpace line with
  | nil => rfl
  | cons c text =>
    have hne : c ≠ '[' := by
      rintro rfl
      rw [htext] at h
      cases h
    rw [List.cons_append, dropPrefix?_eq_none hne]

theorem stripComment_append (hws : ∀ c ∈ ws, c ≠ '#') (text : Line) :
    stripComment (ws ++ text) = ws ++ stripComment text :=
  List.takeWhile_append_of_pos fun c hc => bne_iff_ne.mpr (hws c hc)

theorem hasKey_space (hkey : Word key) (hws : ∀ c ∈ ws, isSpace c) : hasKey key ws = false := by
  rw [hasKey, skipSpace_all hws]
  obtain ⟨k, rest, rfl⟩ := List.exists_cons_of_ne_nil hkey.1
  rfl

theorem takeWhile_key {gap : Line} (hkey : Word key) (hgap : ∀ c ∈ gap, isSpace c) :
    (key ++ gap).takeWhile isKeyChar = key := by
  rw [List.takeWhile_append_of_pos hkey.2]
  cases gap with
  | nil => simp
  | cons c gap =>
    have hc : ¬ isKeyChar c := fun hc => by
      have := isKeyChar_not_space hc
      rw [hgap c List.mem_cons_self] at this
      cases this
    rw [List.takeWhile_cons_of_neg hc, List.append_nil]

theorem no_sign {gap : Line} (hkey : Word key) (hgap : ∀ c ∈ gap, isSpace c) :
    ∀ c ∈ key ++ gap, c ≠ '=' := by
  intro c hc
  rcases List.mem_append.mp hc with hc | hc
  · exact isKeyChar_ne (hkey.2 c hc) (by decide)
  · exact isSpace_ne (hgap c hc) (by decide)

theorem hasKey_entry {k gap : Line} (hkey : Word key) (hk : Word k) (hws : ∀ c ∈ ws, isSpace c)
    (hgap : ∀ c ∈ gap, isSpace c) (value : Line) :
    hasKey key (ws ++ (k ++ (gap ++ '=' :: value))) = decide (k = key) := by
  obtain ⟨c, k', rfl⟩ := List.exists_cons_of_ne_nil hk.1
  have hc := isKeyChar_not_space (hk.2 c List.mem_cons_self)
  rw [hasKey, skipSpace_append hws, List.cons_append, skipSpace_cons hc, ← List.cons_append]
  by_cases heq : c :: k' = key
  · subst heq
    have hdrop : (c :: k' ++ (gap ++ '=' :: value)).dropPrefix? (c :: k') =
        some (gap ++ '=' :: value) := List.dropPrefix?_append_of_beq _ (by simp)
    rw [hdrop, decide_eq_true rfl]
    simp only [skipSpace_append hgap, skipSpace_cons (by decide : isSpace '=' = false)]
    rfl
  · rw [decide_eq_false heq]
    cases hdrop : (c :: k' ++ (gap ++ '=' :: value)).dropPrefix? key with
    | none => rfl
    | some tail =>
      obtain ⟨p, hp, hsame⟩ := List.dropPrefix?_eq_some_iff.mp hdrop
      obtain rfl := eq_of_beq hsame
      refine beq_eq_false_iff_ne.mpr fun hsign => heq ?_
      obtain ⟨ws', htail, hws'⟩ := exists_skipSpace tail
      obtain ⟨rest, hrest⟩ := List.head?_eq_some_iff.mp hsign
      rw [hrest] at htail
      rw [htail, ← List.append_assoc, ← List.append_assoc] at hp
      have hnames := (append_stop_inj (no_sign hk hgap) (no_sign hkey hws') hp).1
      rw [← takeWhile_key hk hgap, hnames, takeWhile_key hkey hws']

theorem valueOf_entry {k gap value : Line} (hk : Word k) (hws : ∀ c ∈ ws, isSpace c)
    (hgap : ∀ c ∈ gap, isSpace c) : valueOf (ws ++ (k ++ (gap ++ '=' :: value))) = bare value := by
  have hstop : ∀ c ∈ ws ++ (k ++ gap), (c != '=') = true := by
    intro c hc
    rw [bne_iff_ne]
    rcases List.mem_append.mp hc with hc | hc
    · exact isSpace_ne (hws c hc) (by decide)
    · exact no_sign hk hgap c hc
  have hsplit : ws ++ (k ++ (gap ++ '=' :: value)) = (ws ++ (k ++ gap)) ++ '=' :: value := by
    simp only [List.append_assoc]
  rw [valueOf, hsplit, List.dropWhile_append_of_pos hstop, List.dropWhile_cons_of_neg (by simp)]
  rfl

theorem blank_line (h : classify line = .blank) (hkey : Word key) :
    opensSection line = false ∧ hasKey key (stripComment line) = false := by
  have hshape := shape_classify (show classify line ≠ .other by rw [h]; nofun)
  rw [h] at hshape
  cases hshape with
  | blank hws =>
    refine ⟨?_, hasKey_space hkey fun c hc => hws c (List.takeWhile_subset _ hc)⟩
    rw [opensSection, skipSpace_all hws]
    rfl
  | @comment ws text hws =>
    constructor
    · rw [opensSection, skipSpace_append hws, skipSpace_cons (by decide)]
      rfl
    · rw [stripComment_append fun c hc => isSpace_ne (hws c hc) (by decide)]
      have hnone : stripComment ('#' :: text) = [] := List.takeWhile_cons_of_neg (by simp)
      rw [hnone, List.append_nil]
      exact hasKey_space hkey hws

theorem header_line (h : classify line = .header name) (hsect : Word sect) :
    isHeader sect line = decide (name = sect) ∧ opensSection line = true := by
  have hshape := shape_classify (show classify line ≠ .other by rw [h]; nofun)
  rw [h] at hshape
  cases hshape with
  | header hws _ hname htail =>
    refine ⟨isHeader_header hsect hws hname htail, ?_⟩
    rw [opensSection, skipSpace_append hws, skipSpace_cons (by decide)]
    rfl

theorem entry_line {k : Line} (h : classify line = .entry k value) (hkey : Word key) :
    opensSection line = false ∧ hasKey key (stripComment line) = decide (k = key) ∧
      valueOf (stripComment line) = bare (stripComment value) := by
  have hshape := shape_classify (show classify line ≠ .other by rw [h]; nofun)
  rw [h] at hshape
  cases hshape with
  | @entry ws _ gap _ hws hne hk hgap =>
    have hword : Word k := ⟨hne, hk⟩
    have hstrip : stripComment (ws ++ (k ++ (gap ++ '=' :: value))) =
        ws ++ (k ++ (gap ++ '=' :: stripComment value)) := by
      rw [stripComment_append fun c hc => isSpace_ne (hws c hc) (by decide),
        stripComment_append fun c hc => isKeyChar_ne (hk c hc) (by decide),
        stripComment_append fun c hc => isSpace_ne (hgap c hc) (by decide)]
      rfl
    refine ⟨?_, ?_, ?_⟩
    · obtain ⟨c, k, rfl⟩ := List.exists_cons_of_ne_nil hne
      have hc := hk c List.mem_cons_self
      rw [opensSection, skipSpace_append hws, List.cons_append,
        skipSpace_cons (isKeyChar_not_space hc)]
      simpa using isKeyChar_ne hc (by decide : isKeyChar '[' = false)
    · rw [hstrip, hasKey_entry hkey hword hws hgap]
    · rw [hstrip, valueOf_entry hword hws hgap]

end

/-! ### The programs on a plain file -/

section
variable {file : File} {l : List Item} {cur sect key name value raw note : Line}

theorem itemsFrom_blank {line : Line} (h : classify line = .blank) :
    itemsFrom cur (line :: file) = itemsFrom cur file := by
  rw [itemsFrom, h]

theorem itemsFrom_header {line : Line} (h : classify line = .header name) :
    itemsFrom cur (line :: file) = .header name :: itemsFrom name file := by
  rw [itemsFrom, h]

theorem itemsFrom_entry {line : Line} (h : classify line = .entry key value) :
    itemsFrom cur (line :: file) = .entry cur key value :: itemsFrom cur file := by
  rw [itemsFrom, h]

theorem sect_of_path {p : Line × Line} (h : p ∈ (itemsFrom cur file).filterMap Item.path) :
    p.1 ∈ cur :: (itemsFrom cur file).filterMap Item.name := by
  induction file generalizing cur with
  | nil => cases h
  | cons line file ih =>
    cases hkind : classify line with
    | blank =>
      rw [itemsFrom_blank hkind] at h ⊢
      exact ih h
    | header name =>
      rw [itemsFrom_header hkind] at h ⊢
      exact List.mem_cons_of_mem cur (ih h)
    | entry key value =>
      rw [itemsFrom_entry hkind] at h ⊢
      rcases List.mem_cons.mp h with rfl | h
      · exact List.mem_cons_self
      · exact ih h
    | other =>
      rw [itemsFrom, hkind] at h ⊢
      exact ih h

theorem lookup_eq_none (h : (sect, key) ∉ l.filterMap Item.path) : lookup sect key l = none := by
  induction l with
  | nil => rfl
  | cons x l ih =>
    cases x with
    | header name => exact ih h
    | entry s k value =>
      rw [List.filterMap_cons_some (show (Item.entry s k value).path = some (s, k) from rfl),
        List.mem_cons, not_or] at h
      rw [lookup, if_neg fun heq => h.1 (by rw [heq.1, heq.2]), ih h.2]

theorem entry_elsewhere {k : Line} (h : ¬ (cur = sect ∧ k = key)) :
    (decide (cur = sect) && decide (k = key)) = false := by
  rw [← Bool.decide_and, decide_eq_false h]

theorem readFrom_eq (hsect : Word sect) (hkey : Word key)
    (hlines : ∀ line ∈ file, classify line ≠ .other)
    (hnames : (cur :: (itemsFrom cur file).filterMap Item.name).Nodup) :
    readFrom sect key (decide (cur = sect)) file =
      (lookup sect key (itemsFrom cur file)).map fun value => bare (stripComment value) := by
  induction file generalizing cur with
  | nil => rfl
  | cons line file ih =>
    obtain ⟨hline, hlines⟩ := List.forall_mem_cons.mp hlines
    cases hkind : classify line with
    | other => exact absurd hkind hline
    | blank =>
      obtain ⟨hopens, hhas⟩ := blank_line hkind hkey
      rw [itemsFrom_blank hkind] at hnames ⊢
      rw [readFrom, isHeader_of_not_opens hopens, hopens, hhas, Bool.and_false]
      exact ih hlines hnames
    | header name =>
      obtain ⟨hheader, hopens⟩ := header_line hkind hsect
      rw [itemsFrom_header hkind] at hnames ⊢
      obtain ⟨hcur, hnames⟩ := List.nodup_cons.mp hnames
      have hrest := ih hlines hnames
      rw [readFrom, hheader, hopens, Bool.and_true, lookup]
      by_cases hname : name = sect
      · simpa only [hname, decide_true, if_true] using hrest
      by_cases hin : cur = sect
      · have hnone : (sect, key) ∉ (itemsFrom name file).filterMap Item.path := fun hpath => by
          have hmem := sect_of_path hpath
          rw [← hin] at hmem
          exact hcur hmem
        simp only [lookup_eq_none hnone, hname, hin, decide_true, decide_false, Bool.false_eq_true,
          if_false, if_true, Option.map_none]
      · simpa only [hname, hin, decide_false, Bool.false_and, Bool.false_eq_true, if_false] using
          hrest
    | entry k value =>
      obtain ⟨hopens, hhas, hvalue⟩ := entry_line hkind hkey
      rw [itemsFrom_entry hkind] at hnames ⊢
      rw [readFrom, isHeader_of_not_opens hopens, hopens, hhas, Bool.and_false, lookup]
      by_cases hin : cur = sect ∧ k = key
      · simp only [hin.1, hin.2, hvalue, decide_true, Bool.and_true, and_self, if_true,
          Bool.false_eq_true, if_false, Option.map_some]
      · rw [if_neg hin, ← ih hlines hnames]
        have hskip := entry_elsewhere hin
        simp only [hskip, Bool.false_eq_true, if_false]

theorem writeFrom_done (inside : Bool) (file : File) :
    writeFrom sect key value inside true file = file := by
  induction file generalizing inside with
  | nil => simp [writeFrom]
  | cons line file ih => simp [writeFrom, ih]

theorem setValue_of_notMem (h : (sect, key) ∉ l.filterMap Item.path) :
    setValue sect key raw l = l := by
  refine (List.map_congr_left fun x hx => if_neg fun hpath => h ?_).trans (List.map_id' l)
  exact List.mem_filterMap.mpr ⟨x, hx, hpath⟩

theorem path_ne {k v : Line} (h : ¬ (cur = sect ∧ k = key)) :
    (Item.entry cur k v).path ≠ some (sect, key) := by
  simpa [Item.path] using h

theorem setValue_cons_ne {x : Item} (h : x.path ≠ some (sect, key)) :
    setValue sect key raw (x :: l) = x :: setValue sect key raw l := by
  rw [setValue, List.map_cons, if_neg h]
  rfl

theorem setValue_cons_self : setValue sect key raw (.entry sect key value :: l) =
    .entry sect key raw :: setValue sect key raw l := by
  rw [setValue, List.map_cons]
  exact congrArg₂ List.cons (if_pos rfl) rfl

theorem dropEntry_cons_ne {x : Item} (h : x.path ≠ some (sect, key)) :
    dropEntry sect key (x :: l) = x :: dropEntry sect key l :=
  List.filter_cons_of_pos (decide_eq_true h)

theorem dropEntry_cons_self :
    dropEntry sect key (.entry sect key value :: l) = dropEntry sect key l :=
  List.filter_cons_of_neg (by simp [Item.path])

theorem writeFrom_header {line : Line} (hkind : classify line = .header name) (hsect : Word sect)
    (hout : ¬ cur = sect) : writeFrom sect key value (decide (cur = sect)) false (line :: file) =
      line :: writeFrom sect key value (decide (name = sect)) false file := by
  obtain ⟨hheader, hopens⟩ := header_line hkind hsect
  rw [writeFrom, hheader, hopens, decide_eq_false hout]
  by_cases hname : name = sect
  · simp only [hname, decide_true, if_true]
  · simp only [hname, decide_false, Bool.false_and, Bool.false_eq_true, if_false]

theorem writeFrom_eq (hsect : Word sect) (hkey : Word key)
    (hassign : classify (assignment key value) = .entry key raw)
    (hlines : ∀ line ∈ file, classify line ≠ .other)
    (hnames : (cur :: (itemsFrom cur file).filterMap Item.name).Nodup)
    (hpaths : ((itemsFrom cur file).filterMap Item.path).Nodup)
    (hmem : (sect, key) ∈ (itemsFrom cur file).filterMap Item.path) :
    (∀ line ∈ writeFrom sect key value (decide (cur = sect)) false file, classify line ≠ .other) ∧
      itemsFrom cur (writeFrom sect key value (decide (cur = sect)) false file) =
        setValue sect key raw (itemsFrom cur file) := by
  induction file generalizing cur with
  | nil => cases hmem
  | cons line file ih =>
    obtain ⟨hline, hlines⟩ := List.forall_mem_cons.mp hlines
    cases hkind : classify line with
    | other => exact absurd hkind hline
    | blank =>
      obtain ⟨hopens, hhas⟩ := blank_line hkind hkey
      rw [itemsFrom_blank hkind] at hnames hpaths hmem ⊢
      obtain ⟨hnew, hitems⟩ := ih hlines hnames hpaths hmem
      rw [writeFrom, isHeader_of_not_opens hopens, hopens, hhas, Bool.and_false, Bool.and_false]
      exact ⟨List.forall_mem_cons.mpr ⟨hline, hnew⟩, (itemsFrom_blank hkind).trans hitems⟩
    | header name =>
      rw [itemsFrom_header hkind] at hnames hpaths hmem ⊢
      obtain ⟨hcur, hnames⟩ := List.nodup_cons.mp hnames
      obtain ⟨hnew, hitems⟩ := ih hlines hnames hpaths hmem
      have hout : ¬ cur = sect := fun hin => by
        have hfound := sect_of_path hmem
        rw [← hin] at hfound
        exact hcur hfound
      rw [writeFrom_header hkind hsect hout, itemsFrom_header hkind, hitems]
      exact ⟨List.forall_mem_cons.mpr ⟨hline, hnew⟩, rfl⟩
    | entry k v =>
      obtain ⟨hopens, hhas, _⟩ := entry_line hkind hkey
      rw [itemsFrom_entry hkind] at hnames hpaths hmem ⊢
      obtain ⟨hfresh, hpaths⟩ := List.nodup_cons.mp hpaths
      rw [writeFrom, isHeader_of_not_opens hopens, hopens, hhas, Bool.and_false]
      by_cases hin : cur = sect ∧ k = key
      · obtain ⟨rfl, rfl⟩ := hin
        simp only [decide_true, Bool.not_false, Bool.and_true, if_true, Bool.false_eq_true,
          if_false, writeFrom_done]
        rw [itemsFrom_entry hassign, setValue_cons_self, setValue_of_notMem hfresh]
        exact ⟨List.forall_mem_cons.mpr ⟨by rw [hassign]; nofun, hlines⟩, rfl⟩
      · have hrest : (sect, key) ∈ (itemsFrom cur file).filterMap Item.path := by
          rcases List.mem_cons.mp hmem with heq | hmem
          · obtain ⟨rfl, rfl⟩ := Prod.mk.inj heq
            exact absurd ⟨rfl, rfl⟩ hin
          · exact hmem
        obtain ⟨hnew, hitems⟩ := ih hlines hnames hpaths hrest
        have hskip := entry_elsewhere hin
        simp only [Bool.not_false, Bool.and_true, hskip, Bool.false_eq_true, if_false]
        rw [itemsFrom_entry hkind, hitems, setValue_cons_ne (path_ne hin)]
        exact ⟨List.forall_mem_cons.mpr ⟨hline, hnew⟩, rfl⟩

theorem commentOutFrom_eq (note : Line) (hsect : Word sect) (hkey : Word key)
    (hlines : ∀ line ∈ file, classify line ≠ .other)
    (hnames : (cur :: (itemsFrom cur file).filterMap Item.name).Nodup) :
    (∀ line ∈ commentOutFrom sect key note (decide (cur = sect)) file, classify line ≠ .other) ∧
      itemsFrom cur (commentOutFrom sect key note (decide (cur = sect)) file) =
        dropEntry sect key (itemsFrom cur file) := by
  induction file generalizing cur with
  | nil => exact ⟨nofun, rfl⟩
  | cons line file ih =>
    obtain ⟨hline, hlines⟩ := List.forall_mem_cons.mp hlines
    cases hkind : classify line with
    | other => exact absurd hkind hline
    | blank =>
      obtain ⟨hopens, hhas⟩ := blank_line hkind hkey
      rw [itemsFrom_blank hkind] at hnames ⊢
      obtain ⟨hnew, hitems⟩ := ih hlines hnames
      rw [commentOutFrom, isHeader_of_not_opens hopens, hopens, hhas, Bool.and_false]
      exact ⟨List.forall_mem_cons.mpr ⟨hline, hnew⟩, (itemsFrom_blank hkind).trans hitems⟩
    | header name =>
      obtain ⟨hheader, hopens⟩ := header_line hkind hsect
      rw [itemsFrom_header hkind] at hnames ⊢
      obtain ⟨hnew, hitems⟩ := ih hlines (List.nodup_cons.mp hnames).2
      have hedit : commentOutFrom sect key note (decide (cur = sect)) (line :: file) =
          line :: commentOutFrom sect key note (decide (name = sect)) file := by
        rw [commentOutFrom, hheader, hopens, Bool.and_true]
        by_cases hname : name = sect
        · simp only [hname, decide_true, if_true]
        by_cases hin : cur = sect
        · simp only [hname, hin, decide_true, decide_false, if_true, Bool.false_eq_true, if_false]
        · simp only [hname, hin, decide_false, Bool.false_and, Bool.false_eq_true, if_false]
      rw [hedit, itemsFrom_header hkind, hitems]
      exact ⟨List.forall_mem_cons.mpr ⟨hline, hnew⟩, rfl⟩
    | entry k v =>
      obtain ⟨hopens, hhas, _⟩ := entry_line hkind hkey
      rw [itemsFrom_entry hkind] at hnames ⊢
      obtain ⟨hnew, hitems⟩ := ih hlines hnames
      have hcomment (text : Line) : classify (commented text) = .blank := rfl
      rw [commentOutFrom, isHeader_of_not_opens hopens, hopens, hhas, Bool.and_false]
      by_cases hin : cur = sect ∧ k = key
      · obtain ⟨rfl, rfl⟩ := hin
        simp only [decide_true, Bool.and_true, if_true, Bool.false_eq_true,
          if_false] at hnew hitems ⊢
        rw [itemsFrom_blank (hcomment _), itemsFrom_blank (hcomment _), hitems, dropEntry_cons_self]
        exact ⟨List.forall_mem_cons.mpr ⟨by rw [hcomment]; nofun,
          List.forall_mem_cons.mpr ⟨by rw [hcomment]; nofun, hnew⟩⟩, rfl⟩
      · have hskip := entry_elsewhere hin
        simp only [hskip, Bool.false_eq_true, if_false]
        rw [itemsFrom_entry hkind, hitems, dropEntry_cons_ne (path_ne hin)]
        exact ⟨List.forall_mem_cons.mpr ⟨hline, hnew⟩, rfl⟩

/-! ### Whole files -/

def plainValue (value : Line) : Line := bare (stripComment value)

theorem name_ne_nil (h : name ∈ (itemsFrom cur file).filterMap Item.name) : name ≠ [] := by
  induction file generalizing cur with
  | nil => cases h
  | cons line file ih =>
    cases hkind : classify line with
    | blank =>
      rw [itemsFrom_blank hkind] at h
      exact ih h
    | header n =>
      rw [itemsFrom_header hkind] at h
      rcases List.mem_cons.mp h with rfl | h
      · have hshape := shape_classify (show classify line ≠ .other by rw [hkind]; nofun)
        rw [hkind] at hshape
        cases hshape with
        | header _ hne => exact hne
      · exact ih h
    | entry key value =>
      rw [itemsFrom_entry hkind] at h
      exact ih h
    | other =>
      rw [itemsFrom, hkind] at h
      exact ih h

structure Editable (file : File) : Prop where
  plain : Plain file
  unique : Unique (items file)

theorem Editable.names (h : Editable file) : ([] :: (items file).filterMap Item.name).Nodup :=
  List.nodup_cons.mpr ⟨fun hmem => name_ne_nil hmem rfl, h.unique.1⟩

theorem outside (hsect : Word sect) : decide (([] : Line) = sect) = false :=
  decide_eq_false fun h => hsect.1 h.symm

theorem readTomlKey_eq (h : Editable file) (hsect : Word sect) (hkey : Word key) :
    readTomlKey file sect key = (lookup sect key (items file)).map plainValue := by
  have hread := readFrom_eq hsect hkey h.plain.lines h.names
  rw [outside hsect] at hread
  exact hread

theorem path_of_lookup (h : lookup sect key l = some value) :
    (sect, key) ∈ l.filterMap Item.path := by
  by_contra hnone
  rw [lookup_eq_none hnone] at h
  cases h

@[simp] theorem setValue_names :
    (setValue sect key raw l).filterMap Item.name = l.filterMap Item.name := by
  rw [setValue, List.filterMap_map]
  refine List.filterMap_congr fun x _ => ?_
  cases x with
  | header name => rfl
  | entry s k value =>
    rw [Function.comp_apply]
    split <;> rfl

@[simp] theorem setValue_paths :
    (setValue sect key raw l).filterMap Item.path = l.filterMap Item.path := by
  rw [setValue, List.filterMap_map]
  refine List.filterMap_congr fun x _ => ?_
  rw [Function.comp_apply]
  split
  · next h => exact h.symm
  · rfl

@[simp] theorem dropEntry_names :
    (dropEntry sect key l).filterMap Item.name = l.filterMap Item.name := by
  rw [dropEntry, List.filterMap_filter]
  refine List.filterMap_congr fun x _ => ?_
  cases x with
  | header name => rfl
  | entry s k value => simp [Item.name]

theorem dropEntry_paths :
    ((dropEntry sect key l).filterMap Item.path).Sublist (l.filterMap Item.path) :=
  List.filter_sublist.filterMap _

theorem Unique.setValue (h : Unique l) : Unique (setValue sect key raw l) := by
  rw [Unique, setValue_names, setValue_paths]
  exact h

theorem Unique.dropEntry (h : Unique l) : Unique (dropEntry sect key l) := by
  rw [Unique, dropEntry_names]
  exact ⟨h.1, h.2.sublist dropEntry_paths⟩

theorem writeTomlKey_items (h : Editable file) (hsect : Word sect) (hkey : Word key)
    (hassign : classify (assignment key value) = .entry key raw)
    (hmem : (sect, key) ∈ (items file).filterMap Item.path) :
    Editable (writeTomlKey file sect key value) ∧
      items (writeTomlKey file sect key value) = setValue sect key raw (items file) := by
  have hwrite := writeFrom_eq hsect hkey hassign h.plain.lines h.names h.unique.2 hmem
  rw [outside hsect] at hwrite
  obtain ⟨hlines, hitems⟩ := hwrite
  refine ⟨⟨⟨hlines, ?_⟩, ?_⟩, hitems⟩
  · intro k hk
    refine h.plain.sectioned k ?_
    rw [items, writeTomlKey, hitems, setValue_paths] at hk
    exact hk
  · rw [items, writeTomlKey, hitems]
    exact h.unique.setValue

theorem commentOutTomlKey_items (h : Editable file) (hsect : Word sect) (hkey : Word key)
    (note : Line) :
    Editable (commentOutTomlKey file sect key note) ∧
      items (commentOutTomlKey file sect key note) = dropEntry sect key (items file) := by
  have hedit := commentOutFrom_eq note hsect hkey h.plain.lines h.names
  rw [outside hsect] at hedit
  obtain ⟨hlines, hitems⟩ := hedit
  refine ⟨⟨⟨hlines, ?_⟩, ?_⟩, hitems⟩
  · intro k hk
    refine h.plain.sectioned k ?_
    rw [items, commentOutTomlKey, hitems] at hk
    exact dropEntry_paths.mem hk
  · rw [items, commentOutTomlKey, hitems]
    exact h.unique.dropEntry

theorem lookup_setValue_self : lookup sect key (setValue sect key raw l) =
    (lookup sect key l).map fun _ => raw := by
  induction l with
  | nil => rfl
  | cons x l ih =>
    cases x with
    | header name => exact ih
    | entry s k value =>
      by_cases h : s = sect ∧ k = key
      · obtain ⟨rfl, rfl⟩ := h
        rw [setValue_cons_self, lookup, if_pos ⟨rfl, rfl⟩, lookup, if_pos ⟨rfl, rfl⟩]
        rfl
      · rw [setValue_cons_ne (path_ne h), lookup, if_neg h, lookup, if_neg h, ih]

theorem lookup_setValue_ne {s k : Line} (hne : (sect, key) ≠ (s, k)) :
    lookup s k (setValue sect key raw l) = lookup s k l := by
  induction l with
  | nil => rfl
  | cons x l ih =>
    cases x with
    | header name => exact ih
    | entry s' k' value =>
      by_cases h : s' = sect ∧ k' = key
      · obtain ⟨rfl, rfl⟩ := h
        have hskip : ¬ (s' = s ∧ k' = k) := fun heq => hne (by rw [heq.1, heq.2])
        rw [setValue_cons_self, lookup, if_neg hskip, lookup, if_neg hskip, ih]
      · rw [setValue_cons_ne (path_ne h), lookup, lookup, ih]

theorem lookup_dropEntry_self : lookup sect key (dropEntry sect key l) = none := by
  apply lookup_eq_none
  rw [dropEntry, List.mem_filterMap]
  rintro ⟨x, hx, hpath⟩
  exact of_decide_eq_true (List.mem_filter.mp hx).2 hpath

theorem lookup_dropEntry_ne {s k : Line} (hne : (sect, key) ≠ (s, k)) :
    lookup s k (dropEntry sect key l) = lookup s k l := by
  induction l with
  | nil => rfl
  | cons x l ih =>
    cases x with
    | header name => exact ih
    | entry s' k' value =>
      by_cases h : s' = sect ∧ k' = key
      · obtain ⟨rfl, rfl⟩ := h
        have hskip : ¬ (s' = s ∧ k' = k) := fun heq => hne (by rw [heq.1, heq.2])
        rw [dropEntry_cons_self, lookup, if_neg hskip, ih]
      · rw [dropEntry_cons_ne (path_ne h), lookup, lookup, ih]

end

end WarpRust.Install
