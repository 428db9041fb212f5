import RobotCtl.Experiments.Columns

/-! # Reading the listing back

Whatever compose declares, every cell of a listing can be read back from its
output. The rows that say yes, written as targets, are an `enabled.conf` that
enables what the robot's own one does.
-/

namespace RobotCtl.Experiments

open Text Conf Prog

section Targets

/-- The target that a row stands for. -/
def Row.spec (row : Row) : Str :=
  if row.configured = ['-'] then row.name else row.name ++ ':' :: row.configured

/-- An `enabled.conf` of the rows that are enabled. -/
def enabledText (rows : List Row) : Str :=
  joinLines ((rows.filter fun row => row.enabled = yes).map Row.spec)

/-- What the parser makes of some text has profiles that are distinct, and at least one. -/
def Target.Listed (target : Target) : Prop :=
  ∀ names, target.profiles = .named names → names ≠ [] ∧ names.Nodup

variable {target : Target} {targets : List Target} {text : Str}

theorem listed_of_mem_parseEnabled (h : target ∈ (parseEnabled text).targets) : target.Listed := by
  obtain ⟨line, -, hp⟩ := exists_line_of_mem_parseEnabled h
  exact fun names hn => parse_named hp hn

theorem visible_of_isNameChar {c : Char} (h : isNameChar c = true) : isWhitespace c = false := by
  simp only [isNameChar, isAlphanumeric, Bool.or_eq_true, beq_iff_eq, isUpper_iff, isLower_iff,
    isDigit_iff] at h
  rcases h with ((h | rfl) | rfl) | rfl
  · simp [isWhitespace]
    omega
  · decide
  · decide
  · decide

theorem ExperimentName.visible (name : ExperimentName) : ∀ c ∈ name.str, isWhitespace c = false :=
  fun c hc => visible_of_isNameChar (name.chars c hc)

theorem ProfileName.visible (name : ProfileName) : ∀ c ∈ name.str, isWhitespace c = false :=
  fun c hc => visible_of_isNameChar (name.chars c hc)

theorem head?_joinWith (sep : Str) (c : Char) (l : Str) (ls : List Str) :
    (joinWith sep ((c :: l) :: ls)).head? = some c := by
  cases ls <;> simp [joinWith, List.intercalate]

/-- The pieces of a printed list of profiles. -/
theorem pieces_joinWith {ls : List Str} (hn : ls ≠ []) (hl : ∀ l ∈ ls, ',' ∉ l ∧ trim l = l) :
    pieces (joinWith ", ".toList ls) = ls := by
  induction ls with
  | nil => exact absurd rfl hn
  | cons l ls ih =>
    obtain ⟨⟨hc, ht⟩, hl⟩ := List.forall_mem_cons.mp hl
    cases ls with
    | nil =>
      have hj : joinWith ", ".toList [l] = l := List.intercalate_singleton
      rw [hj, pieces_of_not_mem hc, ht]
    | cons m ls =>
      have hj : joinWith ", ".toList (l :: m :: ls) =
          l ++ ',' :: (' ' :: joinWith ", ".toList (m :: ls)) := by
        simp [joinWith, List.intercalate_cons_cons]
      have hspace : pieces (' ' :: joinWith ", ".toList (m :: ls)) =
          pieces (joinWith ", ".toList (m :: ls)) := by
        rw [← pieces_trimStart, ← pieces_trimStart (joinWith ", ".toList (m :: ls))]
        rfl
      rw [hj, pieces_append, pieces_of_not_mem hc, ht, hspace, ih (by simp) hl]
      rfl

/-- The cells of a target are parsed as the target. -/
theorem parse_spec {row : Row} (hl : target.Listed) (hn : row.name = target.name.str)
    (hc : row.configured = configuredDisplay target.profiles) :
    Target.parse row.spec = .ok target := by
  have hcolon : ':' ∉ target.name.str := fun hm => absurd (target.name.chars _ hm) (by decide)
  have hname : trim target.name.str = target.name.str := trim_eq_self target.name.visible
  rw [Row.spec, hn, hc]
  cases hp : target.profiles with
  | none =>
    refine parse_eq_ok_iff.mpr ⟨none, ?_, hp ▸ .missing⟩
    have hs := Splits.bare hname hcolon
    rwa [hname] at hs
  | all =>
    refine parse_eq_ok_iff.mpr ⟨some (trim ['*']), ?_, hp ▸ .wildcard⟩
    have hs := splits_of_colon ['*'] hcolon
    rwa [hname] at hs
  | named names =>
    obtain ⟨hne, hnodup⟩ := hl names hp
    have hstr : ∀ l ∈ names.map ProfileName.str, ',' ∉ l ∧ trim l = l :=
      List.forall_mem_map.mpr fun name _ => ⟨fun hm => absurd (name.chars _ hm) (by decide),
        trim_eq_self name.visible⟩
    have hd : configuredDisplay (.named names) ≠ ['-'] := by
      obtain ⟨name, names, rfl⟩ := List.exists_cons_of_ne_nil hne
      obtain ⟨first, rest, hf, ha⟩ := name.start
      intro hc
      have hhead := head?_joinWith ", ".toList first rest (names.map ProfileName.str)
      rw [← hf, ← List.map_cons, ← configuredDisplay, hc] at hhead
      obtain rfl := Option.some.inj hhead
      exact absurd ha (by decide)
    rw [if_neg hd, parse_list_iff hcolon hp, configuredDisplay,
      pieces_joinWith (by simpa using hne) hstr]
    exact ⟨hname.symm, (Grouping.eraseDups_eq_self (hnodup.map profileName_str_injective)).symm⟩

/-- Lines that are parsed as targets with different names enable these. -/
theorem readLines_of_parse {ls : List Str}
    (h : List.Forall₂ (fun l target => Target.parse l = .ok target) ls targets)
    (hn : (targets.map Target.name).Nodup) : readLines ls = ⟨targets, []⟩ := by
  have hfold : ∀ {ls ts} (acc : List Target) (n : ℕ),
      List.Forall₂ (fun l target => Target.parse l = .ok target) ls ts →
      ((acc ++ ts).map Target.name).Nodup →
      (ls.zipIdx n).foldl parseEnabledLine ⟨acc, []⟩ = ⟨acc ++ ts, []⟩ := by
    intro ls ts acc n h hn
    induction h generalizing acc n with
    | nil => rw [List.append_nil]; rfl
    | @cons l target ls ts hp _ ih =>
      have hnew : target.name ∉ acc.map Target.name := fun hm => by
        rw [List.map_append, List.map_cons] at hn
        exact List.disjoint_of_nodup_append hn hm List.mem_cons_self
      have hs := isSignificant_of_parse hp
      rw [List.zipIdx_cons, List.foldl_cons]
      rcases parseEnabledLine_cases ⟨acc, []⟩ l n with
        ⟨hs', -⟩ | ⟨target', hp', -, he⟩ | ⟨-, hold, -⟩
      · rw [hs] at hs'; cases hs'
      · obtain rfl : target = target' := Except.ok.inj (hp.symm.trans hp')
        rw [List.append_cons acc target ts] at hn ⊢
        rw [he]
        exact ih _ _ hn
      · exact absurd (hold target hp) hnew
  exact hfold [] 0 h hn

/-- The enabled targets in the order of some names. -/
def inOrder (enabled : List Target) (names : List ExperimentName) : List Target :=
  names.filterMap fun name => enabled.find? (·.name = name)

theorem perm_inOrder {enabled : List Target} {names : List ExperimentName} (hn : names.Nodup)
    (he : (enabled.map Target.name).Nodup) (hm : ∀ target ∈ enabled, target.name ∈ names) :
    (inOrder enabled names).Perm enabled := by
  have hname : ∀ {name target}, target ∈ enabled.find? (·.name = name) → target.name = name :=
    fun h => by simpa using List.find?_some h
  have hnodup : (inOrder enabled names).Nodup :=
    hn.filterMap fun _ _ _ h h' => (hname h).symm.trans (hname h')
  refine (List.perm_ext_iff_of_nodup hnodup he.of_map).mpr fun target => ?_
  rw [inOrder, List.mem_filterMap]
  constructor
  · rintro ⟨name, -, h⟩
    exact List.mem_of_find?_eq_some h
  · intro h
    have hs : enabled.filter (·.name = target.name) = [target] := Grouping.filter_key_of_nodup he h
    exact ⟨target.name, hm target h, by rw [← List.head?_filter, hs]; rfl⟩

end Targets

section Listing

variable {paths : Paths} {dir : FilePath} {name : ExperimentName} {enabled : List Target}
  {names : List ExperimentName} {t : List (Event Sys)} {fs fs' : Fs} {row : Row} {rows : List Row}

/-- The row of an experiment, whatever compose declares. -/
structure Shown (enabled : List Target) (name : ExperimentName) (row : Row) : Prop where
  name_eq : row.name = name.str
  enabled_eq : row.enabled = if enabled.any (·.name = name) then yes else no
  configured_eq : row.configured = configuredCell enabled name
  available : IsCell row.available

theorem isCell_joinWith {ls : List Str} (hn : ls ≠ []) (hl : ∀ l ∈ ls, IsCell l) :
    IsCell (joinWith ", ".toList ls) := by
  induction ls with
  | nil => exact absurd rfl hn
  | cons l ls ih =>
    obtain ⟨hc, hl⟩ := List.forall_mem_cons.mp hl
    cases ls with
    | nil =>
      have hj : joinWith ", ".toList [l] = l := List.intercalate_singleton
      rwa [hj]
    | cons m ls =>
      have hj : joinWith ", ".toList (l :: m :: ls) =
          (l ++ ", ".toList) ++ joinWith ", ".toList (m :: ls) := by
        simp [joinWith, List.intercalate_cons_cons]
      have hr := ih (by simp) hl
      rw [hj]
      refine ⟨List.append_ne_nil_of_right_ne_nil _ hr.ne_nil,
        trimEnd_append_self hr.ne_nil hr.trimmed, ?_⟩
      rw [List.mem_append, List.mem_append, not_or, not_or]
      exact ⟨⟨hc.no_newline, by decide⟩, hr.no_newline⟩

theorem isCell_trim {l : Str} (hn : '\n' ∉ l) (h : trim l ≠ []) : IsCell (trim l) :=
  ⟨h, trimEnd_trimEnd _, fun hm => hn ((List.dropWhile_suffix _).subset
    ((List.rdropWhile_prefix _ _).subset hm))⟩

theorem isCell_availableCell (reply : Io Output) :
    IsCell (availableCell (declaredProfilesOf reply)) := by
  have hunknown : IsCell ['?'] := ⟨by decide, by decide, by decide⟩
  cases reply with
  | error err => exact hunknown
  | ok output =>
    rw [declaredProfilesOf]
    split
    · rw [availableCell]
      split
      · exact ⟨by decide, by decide, by decide⟩
      · next hn =>
        refine isCell_joinWith hn fun profile hp => ?_
        obtain ⟨hm, hne⟩ := List.mem_filter.mp (Sorting.mem_sortBy.mp hp)
        obtain ⟨l, hl, rfl⟩ := List.mem_map.mp hm
        exact isCell_trim (newline_not_mem_of_mem_lines hl) (by simpa using hne)
    · exact hunknown

theorem isCell_configuredDisplay {target : Target} (h : target.Listed) :
    IsCell (configuredDisplay target.profiles) := by
  cases hp : target.profiles with
  | none => exact ⟨by decide, by decide, by decide⟩
  | all => exact ⟨by decide, by decide, by decide⟩
  | named names =>
    have hne : names.map ProfileName.str ≠ [] := by simpa using (h names hp).1
    refine isCell_joinWith hne (List.forall_mem_map.mpr fun name _ => ?_)
    obtain ⟨first, rest, hs, -⟩ := name.start
    exact ⟨by rw [hs]; simp, trimEnd_eq_self name.visible, fun hm =>
      absurd (name.chars _ hm) (by decide)⟩

theorem shown_cells (he : (enabled.map Target.name).Nodup) (hl : ∀ target ∈ enabled, target.Listed)
    (h : Shown enabled name row) : ∀ c ∈ row.cells, IsCell c := by
  have hname : IsCell row.name := by
    rw [h.name_eq]
    exact ⟨name.ne_nil, trimEnd_eq_self name.visible, fun hm =>
      absurd (name.chars _ hm) (by decide)⟩
  have henabled : IsCell row.enabled := by
    rw [h.enabled_eq]
    split <;> exact ⟨by decide, by decide, by decide⟩
  have hconfigured : IsCell row.configured := by
    rw [h.configured_eq]
    by_cases hm : name ∈ enabled.map Target.name
    · obtain ⟨target, ht, rfl⟩ := List.mem_map.mp hm
      rw [configuredCell_of_mem he (fun hn => ((hl target ht) [] hn).1 rfl) ht]
      exact isCell_configuredDisplay (hl target ht)
    · have hfind : enabled.find? (·.name = name) = none := by
        rw [List.find?_eq_none]
        exact fun target ht hc => hm (List.mem_map.mpr ⟨target, ht, by simpa using hc⟩)
      rw [configuredCell, hfind]
      exact ⟨by decide, by decide, by decide⟩
  simp only [Row.cells, List.forall_mem_cons]
  exact ⟨hname, henabled, hconfigured, h.available, fun _ hc => absurd hc List.not_mem_nil⟩

/-- The enabled rows are parsed as the enabled targets. -/
theorem parse_rows (he : (enabled.map Target.name).Nodup) (hl : ∀ target ∈ enabled, target.Listed)
    (h : List.Forall₂ (Shown enabled) names rows) :
    List.Forall₂ (fun l target => Target.parse l = .ok target)
      ((rows.filter fun row => row.enabled = yes).map Row.spec) (inOrder enabled names) := by
  induction h with
  | nil => exact .nil
  | @cons name row names rows hs _ ih =>
    rw [List.filter_cons, inOrder, List.filterMap_cons]
    have hyes : row.enabled = yes ↔ name ∈ enabled.map Target.name := by
      rw [hs.enabled_eq]
      exact enabled_iff_mem
    by_cases hm : name ∈ enabled.map Target.name
    · rw [if_pos (by simpa using hyes.mpr hm), List.map_cons]
      obtain ⟨target, ht, rfl⟩ := List.mem_map.mp hm
      have hf : enabled.filter (·.name = target.name) = [target] :=
        Grouping.filter_key_of_nodup he ht
      rw [← List.head?_filter, hf]
      refine .cons (parse_spec (hl target ht) hs.name_eq ?_) ih
      rw [hs.configured_eq]
      exact configuredCell_of_mem he (fun hn => ((hl target ht) [] hn).1 rfl) ht
    · rw [if_neg (by simpa using hyes.not.mpr hm)]
      have hfind : enabled.find? (·.name = name) = none := by
        rw [List.find?_eq_none]
        exact fun target ht hc => hm (List.mem_map.mpr ⟨target, ht, by simpa using hc⟩)
      rw [hfind]
      exact ih

theorem listRow_silent (dir : FilePath) (enabled : List Target) (name : ExperimentName) :
    (listRow dir enabled name).Uses Silent := by
  refine Uses.bind (p := availableColumn dir name) ?_ fun _ => trivial
  refine ⟨trivial, fun b => ?_⟩
  cases b with
  | false => trivial
  | true => exact ⟨trivial, fun _ => trivial⟩

theorem returns_listRow (h : Returns (listRow dir enabled name) t row) :
    Shown enabled name row := by
  obtain ⟨available, t₁, t₂, rfl, h₁, h₂⟩ := returns_bind_iff.mp h
  obtain ⟨rfl, rfl⟩ := returns_ret_iff.mp h₂
  refine ⟨rfl, rfl, rfl, ?_⟩
  have hnone : IsCell noComposeFile := ⟨by decide, by decide, by decide⟩
  obtain ⟨isFile, t₃, rfl, h₃⟩ := returns_call_iff.mp h₁
  rw [ret_bind] at h₃
  cases isFile with
  | false =>
    obtain ⟨rfl, rfl⟩ := returns_ret_iff.mp h₃
    exact hnone
  | true =>
    obtain ⟨declared, t₄, t₅, rfl, h₄, h₅⟩ := returns_bind_iff.mp h₃
    obtain ⟨rfl, rfl⟩ := returns_ret_iff.mp h₅
    obtain ⟨reply, rfl, rfl⟩ := returns_declaredProfiles h₄
    exact isCell_availableCell reply

theorem returns_listRows
    (h : Returns (names.mapM (listRow dir enabled) : Prog Sys (List Row)) t rows) :
    List.Forall₂ (Shown enabled) names rows := by
  induction names generalizing t rows with
  | nil =>
    obtain ⟨rfl, rfl⟩ := returns_ret_iff.mp h
    exact .nil
  | cons name names ih =>
    rw [List.mapM_cons] at h
    obtain ⟨row, t₁, t₂, rfl, h₁, h₂⟩ := returns_bind_iff.mp h
    obtain ⟨rest, t₃, t₄, rfl, h₃, h₄⟩ := returns_bind_iff.mp h₂
    obtain ⟨rfl, rfl⟩ := returns_ret_iff.mp h₄
    exact .cons (returns_listRow h₁) (ih h₃)

theorem returns_printLines {ls : List Str} {u : Unit} (h : Returns (printLines ls) t u) :
    printed t = ls := by
  induction ls generalizing t with
  | nil =>
    obtain ⟨rfl, -⟩ := returns_ret_iff.mp h
    rfl
  | cons l ls ih =>
    obtain ⟨_, t', rfl, h'⟩ := returns_call_iff.mp h
    rw [← ih h']
    rfl

/-- What a listing that succeeds prints. There is a row for every name, and what the rows show
of the stacks depends on what compose declares. -/
theorem list_shows (hl : Returns (list paths).run t (.ok ())) (hr : Env.Runs Fs.env fs t fs') :
    ∃ existing names rows, Holds fs (paths.experimentsDir.join "enabled.conf".toList) existing ∧
      names.Pairwise (fun a b => a.str < b.str) ∧
      (∀ name, name ∈ names ↔ HasStack fs paths.experimentsDir name = true ∨
        name ∈ (enabledOf existing).map Target.name) ∧
      List.Forall₂ (Shown (enabledOf existing)) names rows ∧
      (DeclaresProfiles t →
        List.Forall₂ (RowOf fs paths.experimentsDir (enabledOf existing)) names rows) ∧
      printed t = if rows = [] then [] else tableLines rows := by
  obtain ⟨existing, t₁, t₂, rfl, h₁, h₂⟩ := returns_try_bind_ok_iff.mp hl
  obtain ⟨found, t₃, t₄, rfl, h₃, h₄⟩ := returns_try_bind_ok_iff.mp h₂
  obtain ⟨u, hr₁, hr₂⟩ := Env.runs_append_iff.mp hr
  obtain ⟨rfl, hexisting⟩ := readOptional_runs h₁ hr₁
  obtain ⟨v, hr₃, hr₄⟩ := Env.runs_append_iff.mp hr₂
  obtain ⟨rfl, hsorted, hfound⟩ := onDisk_runs h₃ hr₃
  have hnodup : found.Nodup := hsorted.imp fun hab he => (he ▸ hab).false
  have hmem : ∀ name, name ∈ listNames (enabledOf existing) found ↔
      HasStack v paths.experimentsDir name = true ∨ name ∈ (enabledOf existing).map Target.name :=
    fun name => by rw [mem_listNames, hfound]
  have hquiet₁ : printed t₁ = [] :=
    printed_eq_nil ((readOptional_uses _).mono fun _ => FileCall.silent) h₁
  have hquiet₃ : printed t₃ = [] :=
    printed_eq_nil ((onDisk_uses _).mono fun _ => ScanCall.silent) h₃
  rw [printed_append, printed_append, hquiet₁, hquiet₃, List.nil_append, List.nil_append]
  refine ⟨existing, listNames (enabledOf existing) found, ?_⟩
  by_cases hnames : listNames (enabledOf existing) found = []
  · rw [if_pos hnames] at h₄
    obtain ⟨rfl, -⟩ := returns_ret_iff.mp h₄
    refine ⟨[], hexisting, pairwise_listNames hnodup, hmem, ?_, fun _ => ?_, rfl⟩
    · rw [hnames]
      exact .nil
    · rw [hnames]
      exact .nil
  · rw [if_neg hnames] at h₄
    obtain ⟨rows, t₅, t₆, rfl, h₅, h₆⟩ := returns_lift_bind_iff.mp h₄
    obtain ⟨_, h₇, -⟩ := returns_lift_iff.mp h₆
    obtain ⟨w, hr₅, -⟩ := Env.runs_append_iff.mp hr₄
    have hrows := returns_listRows h₅
    have hne : rows ≠ [] := by
      rintro rfl
      exact hnames (List.forall₂_nil_right_iff.mp hrows)
    have hquiet₅ : printed t₅ = [] := printed_eq_nil (Uses.mapM_prog (listRow_silent _ _)) h₅
    refine ⟨rows, hexisting, pairwise_listNames hnodup, hmem, hrows, fun hd => ?_, ?_⟩
    · exact (listRows_runs h₅ hr₅ fun args output hm => hd args output (List.mem_append_right _
        (List.mem_append_right _ (List.mem_append_left _ hm)))).2.2
    · rw [printed_append, hquiet₅, returns_printLines h₇, if_neg hne, List.nil_append]

/-- The standard output of a trace. -/
def stdout (t : List (Event Sys)) : Str := joinLines (printed t)

theorem newline_not_mem_spec (h : ∀ c ∈ row.cells, IsCell c) : '\n' ∉ row.spec := by
  simp only [Row.cells, List.forall_mem_cons] at h
  rw [Row.spec]
  split
  · exact h.1.no_newline
  · simp [h.1.no_newline, h.2.2.1.no_newline]

/-- Rows that are parsed as targets with different names, written out, enable these. -/
theorem parseEnabled_enabledText {targets : List Target}
    (hc : ∀ row ∈ rows, ∀ c ∈ row.cells, IsCell c)
    (hp : List.Forall₂ (fun l target => Target.parse l = .ok target)
      ((rows.filter fun row => row.enabled = yes).map Row.spec) targets)
    (hn : (targets.map Target.name).Nodup) :
    parseEnabled (enabledText rows) = ⟨targets, []⟩ := by
  have hlines : lines (enabledText rows) =
      ((rows.filter fun row => row.enabled = yes).map Row.spec).map stripCr := by
    refine lines_joinLines (List.forall_mem_map.mpr fun row hm => ?_)
    exact newline_not_mem_spec (hc row (List.mem_of_mem_filter hm))
  have hread : parseEnabled (enabledText rows) = readLines (lines (enabledText rows)) := rfl
  rw [hread, hlines]
  refine readLines_of_parse (List.forall₂_map_left_iff.mpr (hp.imp fun l target h => ?_)) hn
  rw [← parse_trim, trim_stripCr, parse_trim, h]

theorem listed_enabledOf {existing : Option Str} :
    ∀ target ∈ enabledOf existing, target.Listed := by
  cases existing with
  | none => exact nofun
  | some text => exact fun target => listed_of_mem_parseEnabled

theorem nodup_enabledOf (existing : Option Str) :
    ((enabledOf existing).map Target.name).Nodup := by
  cases existing with
  | none => exact List.nodup_nil
  | some text => exact nodup_parseEnabled text

/-- The rows of a listing are read back from its output, where they have a line each. -/
theorem readTable_stdout {existing : Option Str}
    (hrows : List.Forall₂ (Shown (enabledOf existing)) names rows)
    (hprinted : printed t = if rows = [] then [] else tableLines rows) :
    (∀ row ∈ rows, ∀ c ∈ row.cells, IsCell c) ∧ readTable (stdout t) = rows ∧
      (printed t).length = if rows = [] then 0 else rows.length + 1 := by
  have hcells : ∀ row ∈ rows, ∀ c ∈ row.cells, IsCell c := by
    intro row hm
    obtain ⟨i, hi, rfl⟩ := List.getElem_of_mem hm
    have hs := (List.forall₂_iff_get.mp hrows).2 i (hrows.length_eq ▸ hi) hi
    exact shown_cells (nodup_enabledOf existing) listed_enabledOf hs
  rw [stdout, hprinted]
  by_cases hn : rows = []
  · rw [if_pos hn, if_pos hn, hn]
    exact ⟨by simp, rfl, rfl⟩
  · rw [if_neg hn, if_neg hn]
    exact ⟨hcells, readTable_tableLines hcells, by simp [tableLines]⟩

theorem shown_names (hrows : List.Forall₂ (Shown enabled) names rows) :
    rows.map Row.name = names.map ExperimentName.str := by
  rw [← List.forall₂_eq_eq_eq, List.forall₂_map_left_iff, List.forall₂_map_right_iff]
  exact hrows.flip.imp fun row name hs => hs.name_eq

/-- The output of a listing, read back, has its names in increasing order, and an `enabled.conf`
written from its enabled rows enables the same targets as the robot's own one, without a warning. -/
theorem list_reads_back (hl : Returns (list paths).run t (.ok ())) (hr : Env.Runs Fs.env fs t fs') :
    ∃ existing targets, Holds fs (paths.experimentsDir.join "enabled.conf".toList) existing ∧
      ((readTable (stdout t)).map Row.name).Pairwise (· < ·) ∧
      targets.Perm (enabledOf existing) ∧
      parseEnabled (enabledText (readTable (stdout t))) = ⟨targets, []⟩ := by
  obtain ⟨existing, names, rows, hexisting, hsorted, hmem, hrows, -, hprinted⟩ := list_shows hl hr
  obtain ⟨hcells, hread, -⟩ := readTable_stdout hrows hprinted
  have hnodup := nodup_enabledOf existing
  have hperm : (inOrder (enabledOf existing) names).Perm (enabledOf existing) :=
    perm_inOrder (hsorted.imp fun hab he => (he ▸ hab).false) hnodup fun target ht =>
      (hmem target.name).mpr (Or.inr (List.mem_map_of_mem ht))
  rw [hread]
  refine ⟨existing, inOrder (enabledOf existing) names, hexisting, ?_, hperm, ?_⟩
  · rw [shown_names hrows]
    exact List.pairwise_map.mpr hsorted
  · exact parseEnabled_enabledText hcells (parse_rows hnodup listed_enabledOf hrows)
      ((hperm.map Target.name).nodup_iff.mpr hnodup)

end Listing

section Example

/-- A robot that enables an experiment it does not have. -/
theorem exists_enabledOnly (text : Str) : ∃ fs : Fs,
    fs.node (rootPaths.experimentsDir.join "enabled.conf".toList) = some (.file (.text text)) ∧
      fs.node rootPaths.experimentsDir = some .dir ∧
      ∀ name, fs.node (rootPaths.experimentsDir.join name) ≠ none →
        name = "enabled.conf".toList := by
  obtain ⟨fs₁, h₁⟩ := Fs.exists_put [] "experiments".toList .dir Fs.empty.root_dir (by simp)
  have hd₁ : fs₁.node rootPaths.experimentsDir = some .dir := by
    rw [h₁]; exact Function.update_self ..
  have hn₁ : ∀ name, fs₁.node (rootPaths.experimentsDir.join name) = none := by
    intro name
    have hne : rootPaths.experimentsDir.join name ≠ FilePath.join [] "experiments".toList :=
      (Fs.join_ne rootPaths.experimentsDir name).symm
    rw [h₁, Function.update_of_ne hne]
    exact Fs.empty_join _ _
  obtain ⟨fs₂, h₂⟩ := Fs.exists_put rootPaths.experimentsDir "enabled.conf".toList
    (.file (.text text)) hd₁ (by rw [hn₁]; simp)
  refine ⟨fs₂, by rw [h₂]; exact Function.update_self .., ?_, fun name hname => ?_⟩
  · rw [h₂, Function.update_of_ne (Fs.join_ne _ _), hd₁]
  · by_contra hne
    rw [h₂, Function.update_of_ne (fun hc => hne (FilePath.join_inj.mp hc).2), hn₁] at hname
    exact hname rfl

def confName : ExperimentName := ⟨"enabled.conf".toList, by decide, by decide, by decide⟩

/-- A listing of a robot that enables two profiles of an experiment that it does not have. -/
def absentStack : List (Event Sys) :=
  [⟨.readToString (rootPaths.experimentsDir.join "enabled.conf".toList), .ok "slam:a,b\n".toList⟩,
    ⟨.readDir rootPaths.experimentsDir, .ok [.ok (some "enabled.conf".toList)]⟩,
    ⟨.isFile (composeFile rootPaths.experimentsDir confName), false⟩,
    ⟨.isFile (composeFile rootPaths.experimentsDir slam), false⟩,
    ⟨.println "NAME  ENABLED  CONFIGURED  AVAILABLE PROFILES".toList, ()⟩,
    ⟨.println "slam  yes      a, b        (no compose file)".toList, ()⟩]

theorem returns_absentStack : Returns (list rootPaths).run absentStack (.ok ()) := by
  refine returns_try_bind_iff.mpr (Or.inr ⟨some "slam:a,b\n".toList, [_], _, rfl, ?_, ?_⟩)
  · exact returns_call_iff.mpr ⟨_, _, rfl, .ret _⟩
  refine returns_try_bind_iff.mpr (Or.inr ⟨[], [_, _], _, rfl, ?_, ?_⟩)
  · have hnone : Sorting.sortBy ExperimentName.str [] = [] := List.mergeSort_nil
    rw [← hnone]
    exact returns_call_iff.mpr ⟨_, _, rfl, returns_call_iff.mpr ⟨_, _, rfl, .ret _⟩⟩
  have hnames : listNames (enabledOf (some "slam:a,b\n".toList)) [] = [slam] :=
    List.mergeSort_singleton slam
  rw [hnames, if_neg (by simp)]
  exact returns_call_iff.mpr ⟨_, _, rfl, returns_call_iff.mpr ⟨_, _, rfl,
    returns_call_iff.mpr ⟨_, _, rfl, .ret _⟩⟩⟩

theorem list_reads_back_absentStack : ∃ targets,
    ((readTable (stdout absentStack)).map Row.name).Pairwise (· < ·) ∧
      targets.Perm (parseEnabled "slam:a,b\n".toList).targets ∧
      parseEnabled (enabledText (readTable (stdout absentStack))) = ⟨targets, []⟩ := by
  obtain ⟨fs, hconf, hdir, hall⟩ := exists_enabledOnly "slam:a,b\n".toList
  have hfile : ∀ name : ExperimentName,
      false = fs.isFile (composeFile rootPaths.experimentsDir name) := by
    intro name
    by_contra hc
    have hd := (node_of_hasStack (Bool.of_not_eq_false (Ne.symm hc))).2
    have hname := hall name.str (by rw [hd]; simp)
    rw [hname, hconf] at hd
    cases hd
  have hlist : fs.ListsAs rootPaths.experimentsDir (.ok [.ok (some "enabled.conf".toList)]) := by
    refine ⟨hdir, by decide, ?_, fun _ name hname => ?_⟩
    · intro name hname
      obtain rfl := List.mem_singleton.mp hname
      rw [hconf]
      simp
    · rw [hall name hname]
      decide
  have hr : Env.Runs Fs.env fs absentStack fs :=
    .cons ⟨rfl, Fs.readsAs_ok_iff.mpr hconf⟩ (.cons ⟨rfl, hlist⟩ (.cons ⟨rfl, hfile confName⟩
      (.cons ⟨rfl, hfile slam⟩ (.cons rfl (.cons rfl (.nil _))))))
  obtain ⟨existing, targets, he, hsorted, hperm, hread⟩ := list_reads_back returns_absentStack hr
  obtain rfl : existing = some "slam:a,b\n".toList := holds_inj he hconf
  exact ⟨targets, hsorted, hperm, hread⟩

end Example

end RobotCtl.Experiments
