import WarpRust.Install.Toml

/-!
# The line editor of the tuner

`set_toml` sets a key that is there as the installer's editor does; otherwise it adds the key
at the end of its section, or the section at the end of the file. On a plain file the items
before and after agree but for that entry and the header of a new section.
-/

namespace WarpRust.Install

def sectionLine (sect : Line) : Line := '[' :: sect ++ [']']

/-- The parameters are the program's `inside`, `done` and `seen_section`. -/
def setFrom (sect key value : Line) : Bool → Bool → Bool → File → File
  | inside, done, seen, [] =>
    (if inside && !done then [assignment key value] else []) ++
      if !seen then [[], sectionLine sect, assignment key value]
      else if !(done || inside) then [assignment key value]
      else []
  | inside, done, seen, line :: rest =>
    if isHeader sect line then line :: setFrom sect key value true done true rest
    else if inside && opensSection line then
      if done then line :: setFrom sect key value false done seen rest
      else assignment key value :: line :: setFrom sect key value false true seen rest
    else if inside && !done && hasKey key (stripComment line) then
      assignment key value :: setFrom sect key value inside true seen rest
    else line :: setFrom sect key value inside done seen rest

def setToml (file : File) (sect key value : Line) : File :=
  setFrom sect key value false false false file

def newSection (sect key value : Line) : File := [[], sectionLine sect, assignment key value]

section
variable {file : File} {l : List Item} {cur sect key name value raw : Line}

theorem setFrom_eq (inside done seen : Bool) (hseen : seen = true ↔ inside = true ∨ done = true) :
    setFrom sect key value inside done seen file = writeFrom sect key value inside done file ++
      if seen || file.any (isHeader sect) then [] else newSection sect key value := by
  induction file generalizing inside done seen with
  | nil => cases inside <;> cases done <;> cases seen <;> simp_all [setFrom, writeFrom, newSection]
  | cons line file ih =>
    by_cases hheader : isHeader sect line
    · rw [setFrom, writeFrom, if_pos hheader, if_pos hheader, ih true done true (by simp),
        List.any_cons, hheader]
      simp
    · rw [setFrom, writeFrom, if_neg hheader, if_neg hheader, List.any_cons,
        eq_false_of_ne_true hheader, Bool.false_or]
      split
      · next hleave =>
        have hin : inside = true := (Bool.and_eq_true_iff.mp hleave).1
        have hopen : seen = true := hseen.mpr (.inl hin)
        split
        · next hdone => rw [ih false done seen (by simp [hopen, hdone]), List.cons_append]
        · rw [ih false true seen (by simp [hopen]), List.cons_append, List.cons_append]
      · split
        · next hset =>
          have hin : inside = true := (Bool.and_eq_true_iff.mp (Bool.and_eq_true_iff.mp hset).1).1
          rw [ih inside true seen (by simp [hseen, hin]), List.cons_append]
        · rw [ih inside done seen hseen, List.cons_append]

theorem writeFrom_outside (habsent : file.any (isHeader sect) = false) :
    writeFrom sect key value false false file = file := by
  induction file with
  | nil => rfl
  | cons line file ih =>
    rw [List.any_cons, Bool.or_eq_false_iff] at habsent
    rw [writeFrom, habsent.1, ih habsent.2]
    simp

theorem setToml_eq : setToml file sect key value =
    if file.any (isHeader sect) then writeTomlKey file sect key value
    else file ++ newSection sect key value := by
  rw [setToml, setFrom_eq false false false (by simp), Bool.false_or]
  split
  · rw [List.append_nil, writeTomlKey]
  · next habsent => rw [writeFrom_outside (eq_false_of_ne_true habsent)]

/-! ### On a plain file -/

theorem classify_assignment (hkey : Word key) (value : Line) :
    classify (assignment key value) = .entry key (' ' :: value) := by
  have hline : assignment key value = key ++ ' ' :: '=' :: ' ' :: value := by
    rw [assignment, List.append_assoc]
    rfl
  have htake : (key ++ ' ' :: '=' :: ' ' :: value).takeWhile isKeyChar = key := by
    rw [List.takeWhile_append_of_pos hkey.2, List.takeWhile_cons_of_neg (by decide),
      List.append_nil]
  have hdrop : (key ++ ' ' :: '=' :: ' ' :: value).dropWhile isKeyChar =
      ' ' :: '=' :: ' ' :: value := by
    rw [List.dropWhile_append_of_pos hkey.2, List.dropWhile_cons_of_neg (by decide)]
  have hgap : skipSpace (' ' :: '=' :: ' ' :: value) = '=' :: ' ' :: value := rfl
  obtain ⟨c, k, rfl⟩ := List.exists_cons_of_ne_nil hkey.1
  have hc : isKeyChar c := hkey.2 c List.mem_cons_self
  have hhash : (c == '#') = false := beq_eq_false_iff_ne.mpr (isKeyChar_ne hc (by decide))
  have hopen : (c == '[') = false := beq_eq_false_iff_ne.mpr (isKeyChar_ne hc (by decide))
  rw [List.cons_append] at hline htake hdrop
  rw [hline, classify, skipSpace_cons (isKeyChar_not_space hc)]
  simp only [hhash, hopen, Bool.false_eq_true, if_false, htake, hdrop, hgap, beq_self_eq_true,
    if_true]

theorem classify_sectionLine (hsect : Word sect) : classify (sectionLine sect) = .header sect := by
  have hline : sectionLine sect = '[' :: (sect ++ [']']) := List.cons_append
  have hname : ∀ c ∈ sect, isNameChar c := fun c hc => isNameChar_of_key (hsect.2 c hc)
  have htake : (sect ++ [']']).takeWhile isNameChar = sect := by
    rw [List.takeWhile_append_of_pos hname, List.takeWhile_cons_of_neg (by decide), List.append_nil]
  have hdrop : (sect ++ [']']).dropWhile isNameChar = [']'] := by
    rw [List.dropWhile_append_of_pos hname, List.dropWhile_cons_of_neg (by decide)]
  have hopen : ('[' == '#') = false := by decide
  obtain ⟨c, k, rfl⟩ := List.exists_cons_of_ne_nil hsect.1
  rw [hline, classify, skipSpace_cons (by decide)]
  simp only [hopen, Bool.false_eq_true, if_false, beq_self_eq_true, if_true, htake, hdrop,
    Bool.true_and]
  rfl

theorem lookup_append_of_notMem {l₁ l₂ : List Item} (h : (sect, key) ∉ l₁.filterMap Item.path) :
    lookup sect key (l₁ ++ l₂) = lookup sect key l₂ := by
  induction l₁ with
  | nil => rfl
  | cons x l₁ ih =>
    cases x with
    | header name => exact ih h
    | entry s k v =>
      rw [List.filterMap_cons_some (show (Item.entry s k v).path = some (s, k) from rfl),
        List.mem_cons, not_or] at h
      rw [List.cons_append, lookup, if_neg fun heq => h.1 (by rw [heq.1, heq.2]), ih h.2]

theorem any_isHeader (hsect : Word sect) (hlines : ∀ line ∈ file, classify line ≠ .other) :
    file.any (isHeader sect) = true ↔ sect ∈ (itemsFrom cur file).filterMap Item.name := by
  induction file generalizing cur with
  | nil => simp [itemsFrom]
  | cons line file ih =>
    obtain ⟨hline, hlines⟩ := List.forall_mem_cons.mp hlines
    rw [List.any_cons, Bool.or_eq_true]
    cases hkind : classify line with
    | other => exact absurd hkind hline
    | blank =>
      rw [itemsFrom_blank hkind, isHeader_of_not_opens (blank_line hkind hsect).1]
      exact (or_iff_right Bool.false_ne_true).trans (ih hlines)
    | header name =>
      rw [itemsFrom_header hkind, (header_line hkind hsect).1, ih hlines, decide_eq_true_eq,
        List.filterMap_cons_some (show (Item.header name).name = some name from rfl), List.mem_cons,
        eq_comm]
    | entry k v =>
      rw [itemsFrom_entry hkind, isHeader_of_not_opens (entry_line hkind hsect).1]
      exact (or_iff_right Bool.false_ne_true).trans (ih hlines)

theorem writeFrom_added (hsect : Word sect) (hkey : Word key)
    (hassign : classify (assignment key value) = .entry key raw)
    (hlines : ∀ line ∈ file, classify line ≠ .other)
    (hnames : (cur :: (itemsFrom cur file).filterMap Item.name).Nodup)
    (hpath : (sect, key) ∉ (itemsFrom cur file).filterMap Item.path)
    (hmem : sect ∈ cur :: (itemsFrom cur file).filterMap Item.name) :
    (∀ line ∈ writeFrom sect key value (decide (cur = sect)) false file, classify line ≠ .other) ∧
      ∃ l₁ l₂, itemsFrom cur file = l₁ ++ l₂ ∧
        itemsFrom cur (writeFrom sect key value (decide (cur = sect)) false file) =
          l₁ ++ .entry sect key raw :: l₂ := by
  have hnew : classify (assignment key value) ≠ .other := by
    rw [hassign]
    nofun
  induction file generalizing cur with
  | nil =>
    obtain rfl := List.mem_singleton.mp hmem
    have hwrite : writeFrom sect key value (decide (sect = sect)) false [] =
        [assignment key value] := by
      simp [writeFrom]
    rw [hwrite, itemsFrom_entry hassign]
    exact ⟨by simpa using hnew, [], [], rfl, rfl⟩
  | cons line file ih =>
    obtain ⟨hline, hlines⟩ := List.forall_mem_cons.mp hlines
    cases hkind : classify line with
    | other => exact absurd hkind hline
    | blank =>
      obtain ⟨hopens, hhas⟩ := blank_line hkind hkey
      rw [itemsFrom_blank hkind] at hnames hpath hmem ⊢
      obtain ⟨hkept, l₁, l₂, hbefore, hafter⟩ := ih hlines hnames hpath hmem
      rw [writeFrom, isHeader_of_not_opens hopens, hopens, hhas, Bool.and_false, Bool.and_false]
      exact ⟨List.forall_mem_cons.mpr ⟨hline, hkept⟩, l₁, l₂, hbefore,
        (itemsFrom_blank hkind).trans hafter⟩
    | header name =>
      obtain ⟨hheader, hopens⟩ := header_line hkind hsect
      rw [itemsFrom_header hkind] at hnames hpath hmem ⊢
      obtain ⟨hcur, hnames⟩ := List.nodup_cons.mp hnames
      by_cases hin : cur = sect
      · subst hin
        have hname : ¬ name = cur := fun heq => hcur (heq ▸ List.mem_cons_self)
        have hwrite : writeFrom cur key value (decide (cur = cur)) false (line :: file) =
            assignment key value :: line :: file := by
          rw [writeFrom, hheader, hopens]
          simp [hname, writeFrom_done]
        rw [hwrite, itemsFrom_entry hassign, itemsFrom_header hkind]
        exact ⟨List.forall_mem_cons.mpr ⟨hnew, List.forall_mem_cons.mpr ⟨hline, hlines⟩⟩, [], _,
          rfl, rfl⟩
      · have hrest : sect ∈ name :: (itemsFrom name file).filterMap Item.name := by
          rcases List.mem_cons.mp hmem with heq | hrest
          · exact absurd heq.symm hin
          · exact hrest
        obtain ⟨hkept, l₁, l₂, hbefore, hafter⟩ := ih hlines hnames hpath hrest
        rw [writeFrom_header hkind hsect hin, itemsFrom_header hkind, hbefore, hafter]
        exact ⟨List.forall_mem_cons.mpr ⟨hline, hkept⟩, .header name :: l₁, l₂, rfl, rfl⟩
    | entry k v =>
      obtain ⟨hopens, hhas, _⟩ := entry_line hkind hkey
      rw [itemsFrom_entry hkind] at hnames hpath hmem ⊢
      obtain ⟨hne, hpath⟩ := not_or.mp (mt List.mem_cons.mpr hpath)
      have hskip : (decide (cur = sect) && decide (k = key)) = false := entry_elsewhere fun heq =>
        hne (by rw [heq.1, heq.2])
      obtain ⟨hkept, l₁, l₂, hbefore, hafter⟩ := ih hlines hnames hpath hmem
      rw [writeFrom, isHeader_of_not_opens hopens, hopens, hhas, Bool.and_false]
      simp only [Bool.not_false, Bool.and_true, hskip, Bool.false_eq_true, if_false]
      rw [itemsFrom_entry hkind, hbefore, hafter]
      exact ⟨List.forall_mem_cons.mpr ⟨hline, hkept⟩, .entry cur k v :: l₁, l₂, rfl, rfl⟩

theorem itemsFrom_newSection (hheader : classify (sectionLine sect) = .header sect)
    (hassign : classify (assignment key value) = .entry key raw) :
    itemsFrom cur (file ++ newSection sect key value) =
      itemsFrom cur file ++ [.header sect, .entry sect key raw] := by
  induction file generalizing cur with
  | nil =>
    rw [List.nil_append, newSection, itemsFrom_blank rfl, itemsFrom_header hheader,
      itemsFrom_entry hassign]
    rfl
  | cons line file ih =>
    rw [List.cons_append, itemsFrom, itemsFrom]
    split
    · rw [ih, List.cons_append]
    · rw [ih, List.cons_append]
    · exact ih
    · exact ih

theorem lookup_append_header (l : List Item) :
    lookup sect key (l ++ [.header name]) = lookup sect key l := by
  induction l with
  | nil => rfl
  | cons x l ih =>
    cases x with
    | header n => exact ih
    | entry s k v => rw [List.cons_append, lookup, ih, lookup]

theorem exists_lookup (h : (sect, key) ∈ l.filterMap Item.path) :
    ∃ v, lookup sect key l = some v := by
  induction l with
  | nil => cases h
  | cons x l ih =>
    cases x with
    | header n => exact ih h
    | entry s k v =>
      by_cases hpath : s = sect ∧ k = key
      · exact ⟨v, by rw [lookup, if_pos hpath]⟩
      · rw [List.filterMap_cons_some (show (Item.entry s k v).path = some (s, k) from rfl),
          List.mem_cons] at h
        rw [lookup, if_neg hpath]
        exact ih (h.resolve_left fun heq => hpath ⟨(Prod.mk.inj heq).1.symm,
          (Prod.mk.inj heq).2.symm⟩)

theorem dropEntry_of_notMem (h : (sect, key) ∉ l.filterMap Item.path) : dropEntry sect key l = l :=
  List.filter_eq_self.mpr fun x hx => decide_eq_true fun hpath =>
    h (List.mem_filterMap.mpr ⟨x, hx, hpath⟩)

theorem dropEntry_setValue :
    dropEntry sect key (setValue sect key raw l) = dropEntry sect key l := by
  induction l with
  | nil => rfl
  | cons x l ih =>
    by_cases hpath : x.path = some (sect, key)
    · obtain ⟨n⟩ | ⟨s, k, v⟩ := x
      · cases hpath
      obtain ⟨rfl, rfl⟩ := Prod.mk.inj (Option.some.inj hpath)
      rw [setValue_cons_self, dropEntry_cons_self, dropEntry_cons_self, ih]
    · rw [setValue_cons_ne hpath, dropEntry_cons_ne hpath, dropEntry_cons_ne hpath, ih]

/-- What one call leaves: the entry with its value, once, and nothing else but the header of a
new section. -/
structure SetsEntry (sect key raw : Line) (before after : List Item) : Prop where
  unique : Unique after
  sectioned : ∀ k, ([], k) ∈ after.filterMap Item.path → ([], k) ∈ before.filterMap Item.path
  value : lookup sect key after = some raw
  others : dropEntry sect key after = dropEntry sect key before ∨
    sect ∉ before.filterMap Item.name ∧
      dropEntry sect key after = dropEntry sect key before ++ [.header sect]

theorem SetsEntry.lookup_ne {before after : List Item} (h : SetsEntry sect key raw before after)
    {s k : Line} (hne : (sect, key) ≠ (s, k)) : lookup s k after = lookup s k before := by
  rw [← lookup_dropEntry_ne hne, ← lookup_dropEntry_ne (l := before) hne]
  rcases h.others with hsame | ⟨-, hnew⟩
  · rw [hsame]
  · rw [hnew]
    exact lookup_append_header _

theorem setsEntry_setValue (hunique : Unique l) (hmem : (sect, key) ∈ l.filterMap Item.path) :
    SetsEntry sect key raw l (setValue sect key raw l) := by
  obtain ⟨v, hlookup⟩ := exists_lookup hmem
  refine ⟨hunique.setValue, fun k hk => ?_, ?_, .inl dropEntry_setValue⟩
  · rw [setValue_paths] at hk
    exact hk
  · rw [lookup_setValue_self, hlookup, Option.map_some]

theorem setsEntry_added {l₁ l₂ : List Item} (hsect : sect ≠ []) (hunique : Unique (l₁ ++ l₂))
    (hfresh : (sect, key) ∉ (l₁ ++ l₂).filterMap Item.path)
    (hbefore : l₁ ++ l₂ = l ∨ sect ∉ l.filterMap Item.name ∧ l₁ ++ l₂ = l ++ [.header sect]) :
    SetsEntry sect key raw l (l₁ ++ .entry sect key raw :: l₂) := by
  have hpaths : (l₁ ++ .entry sect key raw :: l₂).filterMap Item.path =
      l₁.filterMap Item.path ++ (sect, key) :: l₂.filterMap Item.path := by
    rw [List.filterMap_append]
    rfl
  have hpathsL : (l₁ ++ l₂).filterMap Item.path = l.filterMap Item.path := by
    rcases hbefore with rfl | ⟨-, hnew⟩
    · rfl
    · rw [hnew, List.filterMap_append]
      exact List.append_nil _
  have hperm : ((sect, key) :: (l₁ ++ l₂).filterMap Item.path).Perm
      (l₁.filterMap Item.path ++ (sect, key) :: l₂.filterMap Item.path) := by
    rw [List.filterMap_append]
    exact List.perm_middle.symm
  have hfirst : (sect, key) ∉ l₁.filterMap Item.path := fun hmem => hfresh (by
    rw [List.filterMap_append]
    exact List.mem_append_left _ hmem)
  have hdrop : dropEntry sect key (l₁ ++ .entry sect key raw :: l₂) = l₁ ++ l₂ := by
    have hsplit : dropEntry sect key (l₁ ++ .entry sect key raw :: l₂) =
        dropEntry sect key l₁ ++ dropEntry sect key (.entry sect key raw :: l₂) :=
        List.filter_append ..
    have hwhole : dropEntry sect key (l₁ ++ l₂) = dropEntry sect key l₁ ++ dropEntry sect key l₂ :=
      List.filter_append ..
    rw [hsplit, dropEntry_cons_self, ← hwhole, dropEntry_of_notMem hfresh]
  refine ⟨⟨?_, ?_⟩, fun k hk => ?_, ?_, ?_⟩
  · have hnames := hunique.1
    rw [List.filterMap_append] at hnames ⊢
    exact hnames
  · rw [hpaths]
    exact hperm.nodup_iff.mp (List.nodup_cons.mpr ⟨hfresh, hunique.2⟩)
  · rw [hpaths] at hk
    rcases List.mem_cons.mp (hperm.mem_iff.mpr hk) with heq | hk
    · exact absurd (Prod.mk.inj heq).1.symm hsect
    · rw [hpathsL] at hk
      exact hk
  · rw [lookup_append_of_notMem hfirst, lookup, if_pos ⟨rfl, rfl⟩]
  · rw [hdrop, dropEntry_of_notMem (l := l) (by rwa [← hpathsL])]
    exact hbefore

theorem writeTomlKey_sets (h : Editable file) (hsect : Word sect) (hkey : Word key) (value : Line)
    (hname : sect ∈ (items file).filterMap Item.name) :
    (∀ line ∈ writeTomlKey file sect key value, classify line ≠ .other) ∧
      SetsEntry sect key (' ' :: value) (items file)
      (items (writeTomlKey file sect key value)) := by
  have hassign := classify_assignment hkey value
  by_cases hmem : (sect, key) ∈ (items file).filterMap Item.path
  · obtain ⟨hnew, hitems⟩ := writeTomlKey_items h hsect hkey hassign hmem
    rw [hitems]
    exact ⟨hnew.plain.lines, setsEntry_setValue h.unique hmem⟩
  · have hadded := writeFrom_added hsect hkey hassign h.plain.lines h.names hmem
      (List.mem_cons_of_mem _ hname)
    rw [outside hsect] at hadded
    obtain ⟨hlines, l₁, l₂, hbefore, hafter⟩ := hadded
    have hitems : items (writeTomlKey file sect key value) =
        l₁ ++ .entry sect key (' ' :: value) :: l₂ := hafter
    have hwhole : l₁ ++ l₂ = items file := hbefore.symm
    rw [hitems]
    exact ⟨hlines, setsEntry_added hsect.1 (hwhole ▸ h.unique) (hwhole ▸ hmem) (.inl hwhole)⟩

theorem newSection_sets (h : Editable file) (hsect : Word sect) (hkey : Word key) (value : Line)
    (hname : sect ∉ (items file).filterMap Item.name) :
    (∀ line ∈ file ++ newSection sect key value, classify line ≠ .other) ∧
      SetsEntry sect key (' ' :: value) (items file)
      (items (file ++ newSection sect key value)) := by
  have hheader := classify_sectionLine hsect
  have hassign := classify_assignment hkey value
  have hpath : (sect, key) ∉ (items file).filterMap Item.path := fun hmem => by
    rcases List.mem_cons.mp (sect_of_path hmem) with hroot | hmem
    · exact hsect.1 hroot
    · exact hname hmem
  have hitems : items (file ++ newSection sect key value) =
      (items file ++ [.header sect]) ++ .entry sect key (' ' :: value) :: [] := by
    rw [items, itemsFrom_newSection hheader hassign, List.append_assoc]
    rfl
  have hunique : Unique ((items file ++ [.header sect]) ++ []) := by
    rw [List.append_nil, Unique, List.filterMap_append, List.filterMap_append]
    refine ⟨?_, (List.append_nil _).symm ▸ h.unique.2⟩
    exact List.nodup_append.mpr ⟨h.unique.1, List.pairwise_singleton _ _, by
      rintro a ha b hb rfl
      exact hname (List.mem_singleton.mp hb ▸ ha)⟩
  rw [hitems]
  refine ⟨?_, setsEntry_added hsect.1 hunique ?_ (.inr ⟨hname, List.append_nil _⟩)⟩
  · intro line hline
    rcases List.mem_append.mp hline with hline | hline
    · exact h.plain.lines line hline
    · simp only [newSection, List.mem_cons, List.not_mem_nil, or_false] at hline
      rcases hline with rfl | rfl | rfl
      · decide
      · rw [hheader]
        exact Kind.noConfusion
      · rw [hassign]
        exact Kind.noConfusion
  · rw [List.append_nil, List.filterMap_append]
    simpa [Item.path] using hpath

theorem setToml_items (h : Editable file) (hsect : Word sect) (hkey : Word key) (value : Line) :
    Editable (setToml file sect key value) ∧
      SetsEntry sect key (' ' :: value) (items file) (items (setToml file sect key value)) := by
  have hfound : file.any (isHeader sect) = true ↔ sect ∈ (items file).filterMap Item.name :=
    any_isHeader hsect h.plain.lines
  have hedit : (∀ line ∈ setToml file sect key value, classify line ≠ .other) ∧
      SetsEntry sect key (' ' :: value) (items file) (items (setToml file sect key value)) := by
    rw [setToml_eq]
    split
    · next hany => exact writeTomlKey_sets h hsect hkey value (hfound.mp hany)
    · next hany => exact newSection_sets h hsect hkey value (mt hfound.mpr hany)
  obtain ⟨hlines, hsets⟩ := hedit
  exact ⟨⟨⟨hlines, fun k hk => h.plain.sectioned k (hsets.sectioned k hk)⟩, hsets.unique⟩, hsets⟩

end

end WarpRust.Install
