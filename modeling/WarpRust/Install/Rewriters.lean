import WarpRust.Install.SetToml

/-!
# The line editors on any file

The programs agree on what a line is even where the file is no TOML: a text in which headers
repeat, keys stand outside any section or a value goes on over several lines. A file is cut
where the readers and writers of one key stop; what each program does there is all it does.
-/

namespace WarpRust.Install

/-- `read_toml` of the tuner is the installer's reader. -/
def readToml (file : File) (sect key : Line) : Option Line := readFrom sect key false file

/-- A value the programs carry as it stands: `awk -v` reads escapes, the readers cut comments,
blanks and quotes. -/
structure BareValue (value : Line) : Prop where
  nonempty : value ≠ []
  comment : '#' ∉ value
  quote : '"' ∉ value
  backslash : '\\' ∉ value
  newline : '\n' ∉ value
  first : ∀ h : value ≠ [], isSpace (value.head h) = false
  last : ∀ h : value ≠ [], isSpace (value.getLast h) = false

/-! ### One line -/

section
variable {line rest sect key name value s k : Line}

theorem opens_of_isHeader (h : isHeader sect line = true) : opensSection line = true := by
  cases hopens : opensSection line with
  | true => rfl
  | false =>
    rw [isHeader_of_not_opens hopens] at h
    cases h

theorem shape_of_isHeader (h : isHeader sect line = true) :
    ∃ tail, skipSpace line = '[' :: (sect ++ ']' :: tail) := by
  rw [isHeader] at h
  cases hdrop : (skipSpace line).dropPrefix? ('[' :: sect ++ [']']) with
  | none =>
    rw [hdrop] at h
    cases h
  | some tail =>
    obtain ⟨p, hp, hsame⟩ := List.dropPrefix?_eq_some_iff.mp hdrop
    obtain rfl := eq_of_beq hsame
    exact ⟨tail, by simpa using hp⟩

theorem isHeader_inj (hsect : Word sect) (hs : Word s) (h : isHeader sect line = true)
    (h' : isHeader s line = true) : sect = s := by
  obtain ⟨tail, htail⟩ := shape_of_isHeader h
  obtain ⟨tail', htail'⟩ := shape_of_isHeader h'
  have hsame := List.cons_inj_right '[' |>.mp (htail.symm.trans htail')
  exact (append_stop_inj (fun c hc => isKeyChar_ne (hsect.2 c hc) (by decide))
    (fun c hc => isKeyChar_ne (hs.2 c hc) (by decide)) hsame).1

theorem shape_of_hasKey (h : hasKey key line = true) :
    ∃ gap tail, (∀ c ∈ gap, isSpace c) ∧ skipSpace line = key ++ gap ++ '=' :: tail := by
  rw [hasKey] at h
  cases hdrop : (skipSpace line).dropPrefix? key with
  | none =>
    rw [hdrop] at h
    cases h
  | some after =>
    rw [hdrop] at h
    obtain ⟨p, hp, hsame⟩ := List.dropPrefix?_eq_some_iff.mp hdrop
    obtain rfl := eq_of_beq hsame
    obtain ⟨gap, hafter, hgap⟩ := exists_skipSpace after
    obtain ⟨tail, htail⟩ := List.head?_eq_some_iff.mp (beq_iff_eq.mp h)
    rw [htail] at hafter
    exact ⟨gap, tail, hgap, by rw [hp, hafter, List.append_assoc]⟩

theorem hasKey_inj (hkey : Word key) (hk : Word k) (h : hasKey key line = true)
    (h' : hasKey k line = true) : key = k := by
  obtain ⟨gap, tail, hgap, htail⟩ := shape_of_hasKey h
  obtain ⟨gap', tail', hgap', htail'⟩ := shape_of_hasKey h'
  have hsame := (append_stop_inj (no_sign hkey hgap) (no_sign hk hgap') (htail.symm.trans htail')).1
  rw [← takeWhile_key hkey hgap, hsame, takeWhile_key hk hgap']

theorem not_space_of_skipSpace {c : Char} {text : Line} (h : skipSpace line = c :: text) :
    isSpace c = false := by
  have hfirst := List.head?_dropWhile_not isSpace line
  rw [show line.dropWhile isSpace = c :: text from h] at hfirst
  exact hfirst

theorem stripComment_cons {c : Char} (hc : c ≠ '#') (text : Line) :
    stripComment (c :: text) = c :: stripComment text :=
  List.takeWhile_cons_of_pos (bne_iff_ne.mpr hc)

theorem skipSpace_stripComment (line : Line) :
    skipSpace (stripComment line) = stripComment (skipSpace line) := by
  obtain ⟨ws, hline, hws⟩ := exists_skipSpace line
  have hblank : ∀ c ∈ ws, c ≠ '#' := fun c hc => isSpace_ne (hws c hc) (by decide)
  have hpast : skipSpace (stripComment (skipSpace line)) = stripComment (skipSpace line) := by
    cases hskip : skipSpace line with
    | nil => rfl
    | cons c text =>
      by_cases hcomment : c = '#'
      · rw [hcomment]
        rfl
      · rw [stripComment_cons hcomment, skipSpace_cons (not_space_of_skipSpace hskip)]
  rw [← hpast]
  conv_lhs => rw [hline, stripComment_append hblank, skipSpace_append hws]

theorem not_opens_of_hasKey (hkey : Word key) (h : hasKey key (stripComment line) = true) :
    opensSection line = false := by
  obtain ⟨gap, tail, -, htail⟩ := shape_of_hasKey h
  obtain ⟨c, word, rfl⟩ := List.exists_cons_of_ne_nil hkey.1
  have hc := hkey.2 c List.mem_cons_self
  rw [skipSpace_stripComment] at htail
  cases hskip : skipSpace line with
  | nil =>
    rw [hskip] at htail
    cases htail
  | cons d text =>
    have hd : d = c := by
      rw [hskip] at htail
      by_cases hcomment : d = '#'
      · rw [hcomment] at htail
        cases htail
      · rw [stripComment_cons hcomment] at htail
        exact (List.cons.inj htail).1
    rw [opensSection, hskip, hd]
    exact beq_eq_false_iff_ne.mpr fun hopen =>
      isKeyChar_ne hc (by decide) (Option.some.inj hopen)

theorem bare_value (hvalue : BareValue value) : bare (stripComment (' ' :: value)) = value := by
  have hstrip : stripComment (' ' :: value) = ' ' :: value := by
    refine List.takeWhile_eq_self_iff.mpr fun c hc => bne_iff_ne.mpr ?_
    rintro rfl
    exact hvalue.comment ((List.mem_cons.mp hc).resolve_left (by decide))
  have hskip : skipSpace (' ' :: value) = value := by
    obtain ⟨c, text, rfl⟩ := List.exists_cons_of_ne_nil hvalue.nonempty
    rw [skipSpace, List.dropWhile_cons_of_pos rfl]
    exact skipSpace_cons (hvalue.first hvalue.nonempty) text
  have htrim : value.rdropWhile isSpace = value :=
    List.rdropWhile_eq_self_iff.mpr fun h => by rw [hvalue.last h]; exact Bool.false_ne_true
  rw [hstrip, bare, hskip, htrim]
  refine List.filter_eq_self.mpr fun c hc => bne_iff_ne.mpr ?_
  rintro rfl
  exact hvalue.quote hc

theorem assignment_line (hkey : Word key) (hk : Word k) (value : Line) :
    opensSection (assignment key value) = false ∧
      hasKey k (stripComment (assignment key value)) = decide (key = k) ∧
      valueOf (stripComment (assignment key value)) = bare (stripComment (' ' :: value)) :=
  entry_line (classify_assignment hkey value) hk

theorem commented_line (hk : Word k) (text : Line) : opensSection (commented text) = false ∧
    hasKey k (stripComment (commented text)) = false :=
  blank_line rfl hk

end

/-! ### Where readers and writers stop -/

inductive Passes (sect key : Line) : Bool → File → Bool → Prop
  | nil (inside : Bool) : Passes sect key inside [] inside
  | header {inside last : Bool} {line : Line} {rest : File} (hhead : isHeader sect line = true)
      (h : Passes sect key true rest last) : Passes sect key inside (line :: rest) last
  | line {inside last : Bool} {line : Line} {rest : File} (hhead : isHeader sect line = false)
      (hopens : (inside && opensSection line) = false)
      (hkey : (inside && hasKey key (stripComment line)) = false)
      (h : Passes sect key inside rest last) : Passes sect key inside (line :: rest) last

inductive Stop (sect key : Line) : File → File → Prop
  | eof : Stop sect key [] []
  | leaves {line : Line} {rest : File} (hhead : isHeader sect line = false)
      (hopens : opensSection line = true) : Stop sect key (line :: rest) (line :: rest)
  | sets {line : Line} {rest : File} (hhead : isHeader sect line = false)
      (hopens : opensSection line = false) (hkey : hasKey key (stripComment line) = true) :
      Stop sect key (line :: rest) rest

section
variable {file front back after : File} {line sect key value s k note : Line} {inside last : Bool}

theorem passes_or_stop (sect key : Line) (inside : Bool) (file : File) :
    Passes sect key inside file false ∨ ∃ front back after, file = front ++ back ∧
      Passes sect key inside front true ∧ Stop sect key back after := by
  induction file generalizing inside with
  | nil =>
    cases inside with
    | false => exact .inl (.nil false)
    | true => exact .inr ⟨[], [], [], rfl, .nil true, .eof⟩
  | cons line file ih =>
    cases hhead : isHeader sect line with
    | true =>
      refine (ih true).imp (.header hhead) ?_
      rintro ⟨front, back, after, rfl, hfront, hstop⟩
      exact ⟨line :: front, back, after, rfl, .header hhead hfront, hstop⟩
    | false =>
      cases hopens : inside && opensSection line with
      | true =>
        obtain ⟨rfl, hopens⟩ := Bool.and_eq_true_iff.mp hopens
        exact .inr ⟨[], _, _, rfl, .nil true, .leaves hhead hopens⟩
      | false =>
        cases hkey : inside && hasKey key (stripComment line) with
        | true =>
          obtain ⟨rfl, hkey⟩ := Bool.and_eq_true_iff.mp hkey
          exact .inr ⟨[], _, _, rfl, .nil true, .sets hhead hopens hkey⟩
        | false =>
          refine (ih inside).imp (.line hhead hopens hkey) ?_
          rintro ⟨front, back, after, rfl, hfront, hstop⟩
          exact ⟨line :: front, back, after, rfl, .line hhead hopens hkey hfront, hstop⟩

theorem Passes.outside (h : Passes sect key inside file last) (hlast : last = false) :
    inside = false ∧ file.any (isHeader sect) = false := by
  induction h with
  | nil => exact ⟨hlast, rfl⟩
  | header _ _ ih => cases (ih hlast).1
  | line hhead _ _ _ ih =>
    obtain ⟨hin, hrest⟩ := ih hlast
    exact ⟨hin, by rw [List.any_cons, hhead, hrest]; rfl⟩

theorem Passes.any_isHeader (h : Passes sect key inside file last) (hin : inside = false)
    (hlast : last = true) : file.any (isHeader sect) = true := by
  induction h with
  | nil =>
    rw [hin] at hlast
    cases hlast
  | header hhead => rw [List.any_cons, hhead, Bool.true_or]
  | line _ _ _ _ ih => rw [List.any_cons, ih hin hlast, Bool.or_true]

theorem Passes.read (h : Passes sect key inside front last) (back : File) :
    readFrom sect key inside (front ++ back) = readFrom sect key last back := by
  induction h with
  | nil => rfl
  | header hhead _ ih => rw [List.cons_append, readFrom, if_pos hhead, ih]
  | line hhead hopens hkey _ ih =>
    rw [List.cons_append, readFrom, hhead, hopens, hkey, ih]
    simp only [Bool.false_eq_true, if_false]

theorem Passes.write (h : Passes sect key inside front last) (value : Line) (back : File) :
    writeFrom sect key value inside false (front ++ back) =
      front ++ writeFrom sect key value last false back := by
  induction h with
  | nil => rfl
  | header hhead _ ih => rw [List.cons_append, writeFrom, if_pos hhead, ih, List.cons_append]
  | line hhead hopens hkey _ ih =>
    rw [List.cons_append, writeFrom, hhead, hopens, Bool.not_false, Bool.and_true, hkey, ih]
    simp only [Bool.false_eq_true, if_false, List.cons_append]

theorem Stop.write (h : Stop sect key back after) (value : Line) :
    writeFrom sect key value true false back = assignment key value :: after := by
  cases h with
  | eof => rfl
  | leaves hhead hopens => simp [writeFrom, hhead, hopens, writeFrom_done]
  | sets hhead hopens hkey => simp [writeFrom, hhead, hopens, hkey, writeFrom_done]

theorem stop_assignment (hkey : Word key) (value : Line) (after : File) :
    Stop sect key (assignment key value :: after) after := by
  obtain ⟨hopens, hsets, -⟩ := assignment_line hkey hkey value
  exact .sets (isHeader_of_not_opens hopens) hopens (hsets.trans (decide_eq_true rfl))

theorem readFrom_assignment (hkey : Word key) (hvalue : BareValue value) (after : File) :
    readFrom sect key true (assignment key value :: after) = some value := by
  obtain ⟨hopens, hsets, hread⟩ := assignment_line hkey hkey value
  rw [readFrom, isHeader_of_not_opens hopens, hopens, hsets, hread, bare_value hvalue]
  simp

/-! ### Another reader -/

theorem readFrom_skip {inside : Bool} (hopens : opensSection line = false)
    (hkey : inside = true → hasKey k (stripComment line) = false) (rest : File) :
    readFrom s k inside (line :: rest) = readFrom s k inside rest := by
  have hsets : (inside && hasKey k (stripComment line)) = false := by
    cases inside with
    | false => rfl
    | true => exact hkey rfl
  rw [readFrom, isHeader_of_not_opens hopens, hopens, hsets, Bool.and_false]
  simp only [Bool.false_eq_true, if_false]

def GoesOn (s line : Line) (inside last : Bool) : Prop :=
  last = true → isHeader s line = true ∨ inside = true ∧ opensSection line = false

theorem readFrom_cons_congr {x y : File}
    (h : ∀ last, GoesOn s line inside last → readFrom s k last x = readFrom s k last y) :
    readFrom s k inside (line :: x) = readFrom s k inside (line :: y) := by
  rw [readFrom, readFrom]
  by_cases hhead : isHeader s line = true
  · rw [if_pos hhead, if_pos hhead]
    exact h true fun _ => .inl hhead
  rw [if_neg hhead, if_neg hhead]
  by_cases hleaves : (inside && opensSection line) = true
  · rw [if_pos hleaves, if_pos hleaves]
  rw [if_neg hleaves, if_neg hleaves]
  by_cases hsets : (inside && hasKey k (stripComment line)) = true
  · rw [if_pos hsets, if_pos hsets]
  rw [if_neg hsets, if_neg hsets]
  refine h inside fun hin => .inr ⟨hin, ?_⟩
  rw [hin, Bool.true_and] at hleaves
  exact eq_false_of_ne_true hleaves

def Agree (sect s : Line) (inside insideS : Bool) : Prop :=
  inside = true → insideS = true → sect = s

theorem GoesOn.agree_header {insideS lastS : Bool} (h : GoesOn s line insideS lastS)
    (hsect : Word sect) (hs : Word s) (hhead : isHeader sect line = true) :
    Agree sect s true lastS := by
  intro _ hlast
  rcases h hlast with hheadS | ⟨-, hopens⟩
  · exact isHeader_inj hsect hs hhead hheadS
  · rw [opens_of_isHeader hhead] at hopens
    cases hopens

theorem GoesOn.agree_line {insideS lastS : Bool} (h : GoesOn s line insideS lastS)
    (hagree : Agree sect s inside insideS) (hopens : (inside && opensSection line) = false) :
    Agree sect s inside lastS := by
  intro hin hlast
  rcases h hlast with hheadS | ⟨hinS, -⟩
  · rw [hin, opens_of_isHeader hheadS] at hopens
    cases hopens
  · exact hagree hin hinS

theorem Passes.read_congr (h : Passes sect key inside front last) (hsect : Word sect)
    (hs : Word s) {insideS : Bool} (hagree : Agree sect s inside insideS) {x y : File}
    (hxy : ∀ lastS, Agree sect s last lastS → readFrom s k lastS x = readFrom s k lastS y) :
    readFrom s k insideS (front ++ x) = readFrom s k insideS (front ++ y) := by
  induction h generalizing insideS with
  | nil => exact hxy insideS hagree
  | header hhead _ ih =>
    exact readFrom_cons_congr fun lastS hon => ih (hon.agree_header hsect hs hhead) hxy
  | line _ hopens _ _ ih =>
    exact readFrom_cons_congr fun lastS hon => ih (hon.agree_line hagree hopens) hxy

theorem Stop.read_ne (h : Stop sect key back after) (hkey : Word key) (hk : Word k)
    (hne : (s, k) ≠ (sect, key)) (value : Line) {insideS : Bool}
    (hagree : Agree sect s true insideS) :
    readFrom s k insideS (assignment key value :: after) = readFrom s k insideS back := by
  have hother : insideS = true → key ≠ k := by
    rintro hin rfl
    exact hne (by rw [hagree rfl hin])
  obtain ⟨hopens, hsets, -⟩ := assignment_line hkey hk value
  rw [readFrom_skip hopens fun hin => hsets.trans (decide_eq_false (hother hin))]
  cases h with
  | eof => rfl
  | leaves => rfl
  | sets _ hopens hsets =>
    refine (readFrom_skip hopens (fun hin => eq_false_of_ne_true fun hsetsK => ?_) _).symm
    exact hother hin (hasKey_inj hkey hk hsets hsetsK)

/-! ### The writers -/

def Writes (sect key value : Line) (file file' : File) : Prop :=
  ∃ front after, file' = front ++ assignment key value :: after ∧
    (file = front ++ after ∧ readFrom sect key false file = none ∨
      ∃ line, file = front ++ line :: after ∧ hasKey key (stripComment line) = true ∧
        readFrom sect key false file = some (valueOf (stripComment line)))

theorem Stop.cases (h : Stop sect key back after) :
    back = after ∧ readFrom sect key true back = none ∨
    ∃ line, back = line :: after ∧ hasKey key (stripComment line) = true ∧
      readFrom sect key true back = some (valueOf (stripComment line)) := by
  cases h with
  | eof => exact .inl ⟨rfl, rfl⟩
  | leaves hhead hopens => exact .inl ⟨rfl, by simp [readFrom, hhead, hopens]⟩
  | sets hhead hopens hkey => exact .inr ⟨_, rfl, hkey, by simp [readFrom, hhead, hopens, hkey]⟩

theorem exists_stop (hexists : file.any (isHeader sect) = true) (key value : Line) :
    ∃ front back after, file = front ++ back ∧ Passes sect key false front true ∧
      Stop sect key back after ∧
      writeTomlKey file sect key value = front ++ assignment key value :: after := by
  rcases passes_or_stop sect key false file with hpass | ⟨front, back, after, rfl, hfront, hstop⟩
  · rw [(hpass.outside rfl).2] at hexists
    cases hexists
  · refine ⟨front, back, after, rfl, hfront, hstop, ?_⟩
    rw [writeTomlKey, hfront.write, hstop.write]

theorem writeTomlKey_writes (hexists : file.any (isHeader sect) = true) (key value : Line) :
    Writes sect key value file (writeTomlKey file sect key value) := by
  obtain ⟨front, back, after, rfl, hfront, hstop, hwrite⟩ := exists_stop hexists key value
  refine ⟨front, after, hwrite, ?_⟩
  rw [hfront.read]
  exact hstop.cases.imp (fun ⟨hback, hread⟩ => ⟨by rw [hback], hread⟩)
    fun ⟨line, hback, hkey, hread⟩ => ⟨line, by rw [hback], hkey, hread⟩

theorem readTomlKey_writeTomlKey (hexists : file.any (isHeader sect) = true) (hkey : Word key)
    (hvalue : BareValue value) :
    readTomlKey (writeTomlKey file sect key value) sect key = some value := by
  obtain ⟨front, back, after, rfl, hfront, hstop, hwrite⟩ := exists_stop hexists key value
  rw [hwrite, readTomlKey, hfront.read, readFrom_assignment hkey hvalue]

theorem readTomlKey_writeTomlKey_ne (hexists : file.any (isHeader sect) = true) (hsect : Word sect)
    (hkey : Word key) (hs : Word s) (hk : Word k) (hne : (s, k) ≠ (sect, key)) (value : Line) :
    readTomlKey (writeTomlKey file sect key value) s k = readTomlKey file s k := by
  obtain ⟨front, back, after, rfl, hfront, hstop, hwrite⟩ := exists_stop hexists key value
  have hagree : Agree sect s false false := fun hin => absurd hin Bool.false_ne_true
  rw [hwrite]
  exact hfront.read_congr hsect hs hagree fun _ hagree => hstop.read_ne hkey hk hne value hagree

theorem writeTomlKey_any (hexists : file.any (isHeader sect) = true) (key value : Line) :
    (writeTomlKey file sect key value).any (isHeader sect) = true := by
  obtain ⟨front, back, after, rfl, hfront, hstop, hwrite⟩ := exists_stop hexists key value
  rw [hwrite, List.any_append, hfront.any_isHeader rfl rfl, Bool.true_or]

theorem writeTomlKey_twice (hexists : file.any (isHeader sect) = true) (hkey : Word key)
    (value : Line) :
    writeTomlKey (writeTomlKey file sect key value) sect key value =
      writeTomlKey file sect key value := by
  obtain ⟨front, back, after, rfl, hfront, hstop, hwrite⟩ := exists_stop hexists key value
  rw [hwrite, writeTomlKey, hfront.write, (stop_assignment hkey value after).write]

theorem setToml_eq_writeTomlKey (hexists : file.any (isHeader sect) = true) (key value : Line) :
    setToml file sect key value = writeTomlKey file sect key value := by
  rw [setToml_eq, if_pos hexists]

/-! ### A new section -/

theorem setToml_of_absent (habsent : file.any (isHeader sect) = false) (key value : Line) :
    setToml file sect key value = file ++ newSection sect key value := by
  rw [setToml_eq, habsent]
  exact if_neg Bool.false_ne_true

theorem passes_of_absent (habsent : file.any (isHeader sect) = false) (key : Line) :
    Passes sect key false file false := by
  rcases passes_or_stop sect key false file with hpass | ⟨front, back, after, rfl, hfront, hstop⟩
  · exact hpass
  · rw [List.any_append, hfront.any_isHeader rfl rfl] at habsent
    cases habsent

theorem empty_line (hk : Word k) : opensSection [] = false ∧ hasKey k (stripComment []) = false :=
  blank_line rfl hk

theorem sectionLine_line (hsect : Word sect) (hs : Word s) :
    isHeader s (sectionLine sect) = decide (sect = s) ∧ opensSection (sectionLine sect) = true :=
  header_line (classify_sectionLine hsect) hs

theorem passes_newSection (hsect : Word sect) (hkey : Word key) (inside : Bool) :
    Passes sect key inside [[], sectionLine sect] true := by
  obtain ⟨hopens, hsets⟩ := empty_line hkey
  refine .line (isHeader_of_not_opens hopens) ?_ ?_ (.header ?_ (.nil true))
  · rw [hopens, Bool.and_false]
  · rw [hsets, Bool.and_false]
  · exact (sectionLine_line hsect hsect).1.trans (decide_eq_true rfl)

theorem readFrom_newSection_ne (hsect : Word sect) (hkey : Word key) (hs : Word s) (hk : Word k)
    (hne : (s, k) ≠ (sect, key)) (value : Line) (inside : Bool) :
    readFrom s k inside (newSection sect key value) = none := by
  obtain ⟨hblank, hunset⟩ := empty_line hk
  obtain ⟨hopens, hsets, -⟩ := assignment_line hkey hk value
  obtain ⟨hhead, hleaves⟩ := sectionLine_line hsect hs
  rw [newSection, readFrom_skip hblank fun _ => hunset, readFrom, hhead, hleaves, Bool.and_true]
  by_cases hsame : sect = s
  · rw [if_pos (decide_eq_true hsame), readFrom_skip hopens fun _ => ?_]
    · rfl
    · rw [hsets]
      refine decide_eq_false ?_
      rintro rfl
      exact hne (by rw [hsame])
  · rw [if_neg (by simpa using hsame)]
    cases inside with
    | true => rfl
    | false =>
      rw [if_neg Bool.false_ne_true, Bool.false_and, if_neg Bool.false_ne_true,
        readFrom_skip hopens fun hin => absurd hin Bool.false_ne_true]
      rfl

theorem readFrom_append (h : ∀ inside, readFrom s k inside back = none) (inside : Bool)
    (file : File) :
    readFrom s k inside (file ++ back) = readFrom s k inside file := by
  induction file generalizing inside with
  | nil => exact h inside
  | cons line file ih => exact readFrom_cons_congr fun last _ => ih last

theorem newSection_eq (sect key value : Line) :
    newSection sect key value = [[], sectionLine sect] ++ [assignment key value] := rfl

theorem readToml_setToml (hsect : Word sect) (hkey : Word key) (hvalue : BareValue value) :
    readToml (setToml file sect key value) sect key = some value := by
  cases hexists : file.any (isHeader sect) with
  | true =>
    rw [setToml_eq_writeTomlKey hexists]
    exact readTomlKey_writeTomlKey hexists hkey hvalue
  | false =>
    rw [setToml_of_absent hexists, readToml, (passes_of_absent hexists key).read, newSection_eq,
      (passes_newSection hsect hkey false).read, readFrom_assignment hkey hvalue]

theorem readToml_setToml_ne (hsect : Word sect) (hkey : Word key) (hs : Word s) (hk : Word k)
    (hne : (s, k) ≠ (sect, key)) (value : Line) :
    readToml (setToml file sect key value) s k = readToml file s k := by
  cases hexists : file.any (isHeader sect) with
  | true =>
    rw [setToml_eq_writeTomlKey hexists]
    exact readTomlKey_writeTomlKey_ne hexists hsect hkey hs hk hne value
  | false =>
    rw [setToml_of_absent hexists]
    exact readFrom_append (readFrom_newSection_ne hsect hkey hs hk hne value) false file

theorem setToml_twice (hsect : Word sect) (hkey : Word key) (value : Line) :
    setToml (setToml file sect key value) sect key value = setToml file sect key value := by
  cases hexists : file.any (isHeader sect) with
  | true =>
    have hkept := writeTomlKey_any hexists key value
    rw [setToml_eq_writeTomlKey hexists, setToml_eq_writeTomlKey hkept,
      writeTomlKey_twice hexists hkey]
  | false =>
    have hadded : (file ++ newSection sect key value).any (isHeader sect) = true := by
      rw [newSection_eq, List.any_append, List.any_append,
        (passes_newSection hsect hkey false).any_isHeader rfl rfl, Bool.true_or, Bool.or_true]
    rw [setToml_of_absent hexists, setToml_eq_writeTomlKey hadded, writeTomlKey,
      (passes_of_absent hexists key).write, newSection_eq,
      (passes_newSection hsect hkey false).write,
      (stop_assignment hkey value []).write]

/-! ### The commenter -/

theorem commentOutFrom_skip {rest : File} (hopens : opensSection line = false)
    (hkey : hasKey key (stripComment line) = false) (inside : Bool) :
    commentOutFrom sect key note inside (line :: rest) =
      line :: commentOutFrom sect key note inside rest := by
  rw [commentOutFrom, isHeader_of_not_opens hopens, hopens, hkey, Bool.and_false]
  simp only [Bool.false_eq_true, if_false]

theorem commentOutFrom_absent (hkey : Word key) (note : Line) (inside : Bool) (file : File) :
    readFrom sect key inside (commentOutFrom sect key note inside file) = none := by
  induction file generalizing inside with
  | nil => rfl
  | cons line file ih =>
    rw [commentOutFrom]
    split_ifs with hhead hleaves hsets
    · rw [readFrom, if_pos hhead, ih]
    · rw [readFrom, if_neg hhead, if_pos hleaves]
    · obtain ⟨hnote, hnone⟩ := commented_line hkey note
      obtain ⟨hline, hunset⟩ := commented_line hkey line
      rw [readFrom_skip hnote fun _ => hnone, readFrom_skip hline fun _ => hunset, ih]
    · rw [readFrom, if_neg hhead, if_neg hleaves, if_neg hsets, ih]

theorem commentOutFrom_read_ne (hsect : Word sect) (hkey : Word key) (hs : Word s) (hk : Word k)
    (hne : (s, k) ≠ (sect, key)) (note : Line) {inside insideS : Bool}
    (hagree : Agree sect s inside insideS) (file : File) :
    readFrom s k insideS (commentOutFrom sect key note inside file) =
      readFrom s k insideS file := by
  induction file generalizing inside insideS with
  | nil => rfl
  | cons line file ih =>
    rw [commentOutFrom]
    split_ifs with hhead hleaves hsets
    · exact readFrom_cons_congr fun lastS hon => ih (hon.agree_header hsect hs hhead)
    · exact readFrom_cons_congr fun lastS _ => ih fun hin => absurd hin Bool.false_ne_true
    · obtain ⟨hin, hsets⟩ := Bool.and_eq_true_iff.mp hsets
      obtain ⟨hnote, hnone⟩ := commented_line hk note
      obtain ⟨hline, hunset⟩ := commented_line hk line
      rw [readFrom_skip hnote fun _ => hnone, readFrom_skip hline fun _ => hunset, ih hagree]
      refine (readFrom_skip (not_opens_of_hasKey hkey hsets)
        (fun hinS => eq_false_of_ne_true fun hsetsK => hne ?_) _).symm
      rw [hagree hin hinS, hasKey_inj hkey hk hsets hsetsK]
    · exact readFrom_cons_congr fun lastS hon =>
        ih (hon.agree_line hagree (eq_false_of_ne_true hleaves))

theorem commentOutFrom_twice (hkey : Word key) (note : Line) (inside : Bool) (file : File) :
    commentOutFrom sect key note inside (commentOutFrom sect key note inside file) =
      commentOutFrom sect key note inside file := by
  induction file generalizing inside with
  | nil => rfl
  | cons line file ih =>
    rw [commentOutFrom]
    split_ifs with hhead hleaves hsets
    · rw [commentOutFrom, if_pos hhead, ih]
    · rw [commentOutFrom, if_neg hhead, if_pos hleaves, ih]
    · obtain ⟨hnote, hnone⟩ := commented_line hkey note
      obtain ⟨hline, hunset⟩ := commented_line hkey line
      rw [commentOutFrom_skip hnote hnone, commentOutFrom_skip hline hunset, ih]
    · rw [commentOutFrom, if_neg hhead, if_neg hleaves, if_neg hsets, ih]

def Comments (key note : Line) (file file' : File) : Prop :=
  ∃ chunks : List File, file' = chunks.flatten ∧ List.Forall₂ (fun line chunk => chunk = [line] ∨
    hasKey key (stripComment line) = true ∧ chunk = [commented note, commented line]) file chunks

theorem Comments.keep {file' : File} (h : Comments key note file file') (line : Line) :
    Comments key note (line :: file) (line :: file') := by
  obtain ⟨chunks, rfl, hchunks⟩ := h
  exact ⟨[line] :: chunks, rfl, .cons (.inl rfl) hchunks⟩

theorem Comments.comment {file' : File} (h : Comments key note file file')
    (hkey : hasKey key (stripComment line) = true) :
    Comments key note (line :: file) (commented note :: commented line :: file') := by
  obtain ⟨chunks, rfl, hchunks⟩ := h
  exact ⟨[commented note, commented line] :: chunks, rfl, .cons (.inr ⟨hkey, rfl⟩) hchunks⟩

theorem commentOutFrom_comments (sect key note : Line) (inside : Bool) (file : File) :
    Comments key note file (commentOutFrom sect key note inside file) := by
  induction file generalizing inside with
  | nil => exact ⟨[], rfl, .nil⟩
  | cons line file ih =>
    rw [commentOutFrom]
    split_ifs with hhead hleaves hsets
    · exact (ih true).keep line
    · exact (ih false).keep line
    · exact (ih inside).comment (Bool.and_eq_true_iff.mp hsets).2
    · exact (ih inside).keep line

/-! ### One key and nothing else -/

/-- What the three rewriters leave of `file`; `note` is one line. -/
structure Rewrites (file : File) (sect key value note : Line) : Prop where
  set_reads : readToml (setToml file sect key value) sect key = some value
  set_others : ∀ s k, Word s → Word k → (s, k) ≠ (sect, key) →
    readToml (setToml file sect key value) s k = readToml file s k
  set_lines : file.any (isHeader sect) = true ∧
      Writes sect key value file (setToml file sect key value) ∨
    file.any (isHeader sect) = false ∧
      setToml file sect key value = file ++ [[], sectionLine sect, assignment key value]
  set_twice : setToml (setToml file sect key value) sect key value = setToml file sect key value
  same : file.any (isHeader sect) = true →
    setToml file sect key value = writeTomlKey file sect key value
  write_reads : file.any (isHeader sect) = true →
    readTomlKey (writeTomlKey file sect key value) sect key = some value
  write_others : file.any (isHeader sect) = true → ∀ s k, Word s → Word k → (s, k) ≠ (sect, key) →
    readTomlKey (writeTomlKey file sect key value) s k = readTomlKey file s k
  write_lines : file.any (isHeader sect) = true →
    Writes sect key value file (writeTomlKey file sect key value)
  write_twice : file.any (isHeader sect) = true →
    writeTomlKey (writeTomlKey file sect key value) sect key value =
    writeTomlKey file sect key value
  comment_reads : readTomlKey (commentOutTomlKey file sect key note) sect key = none
  comment_others : ∀ s k, Word s → Word k → (s, k) ≠ (sect, key) →
    readTomlKey (commentOutTomlKey file sect key note) s k = readTomlKey file s k
  comment_lines : Comments key note file (commentOutTomlKey file sect key note)
  comment_twice : commentOutTomlKey (commentOutTomlKey file sect key note) sect key note =
    commentOutTomlKey file sect key note

theorem rewriters_change_one_key (file : File) (note : Line) (hsect : Word sect) (hkey : Word key)
    (hvalue : BareValue value) : Rewrites file sect key value note where
  set_reads := readToml_setToml hsect hkey hvalue
  set_others _ _ hs hk hne := readToml_setToml_ne hsect hkey hs hk hne value
  set_lines := by
    cases hexists : file.any (isHeader sect) with
    | true =>
      rw [setToml_eq_writeTomlKey hexists]
      exact .inl ⟨rfl, writeTomlKey_writes hexists key value⟩
    | false => exact .inr ⟨rfl, setToml_of_absent hexists key value⟩
  set_twice := setToml_twice hsect hkey value
  same hexists := setToml_eq_writeTomlKey hexists key value
  write_reads hexists := readTomlKey_writeTomlKey hexists hkey hvalue
  write_others hexists _ _ hs hk hne :=
    readTomlKey_writeTomlKey_ne hexists hsect hkey hs hk hne value
  write_lines hexists := writeTomlKey_writes hexists key value
  write_twice hexists := writeTomlKey_twice hexists hkey value
  comment_reads := commentOutFrom_absent hkey note false file
  comment_others _ _ hs hk hne := commentOutFrom_read_ne hsect hkey hs hk hne note
    (fun hin => absurd hin Bool.false_ne_true) file
  comment_lines := commentOutFrom_comments sect key note false file
  comment_twice := commentOutFrom_twice hkey note false file

end

/-- A header that comes back, with the key in its second block. -/
theorem rewriters_change_one_key_repeated : Rewrites
    ["[limits]".toList, "ports = 4".toList, "[warp]".toList, "[limits]".toList,
      "mtu = 9 # bytes".toList]
    "limits".toList "mtu".toList "1280".toList "handed back".toList :=
  rewriters_change_one_key _ _ ⟨by decide, by decide⟩ ⟨by decide, by decide⟩
    ⟨by decide, by decide, by decide, by decide, by decide, fun _ => rfl, fun _ => rfl⟩

end WarpRust.Install
