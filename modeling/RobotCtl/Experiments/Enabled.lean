import RobotCtl.Experiments.Grammar

/-! # Reading the enabled list

Every line of `enabled.conf` is blank, a comment, a target or a warning. Of the
targets for one experiment the first line counts; a line that is no target
shadows nothing, so the list of targets is that of the lines that parse.
-/

namespace RobotCtl.Experiments

open Text Grouping

/-- A line that is neither blank nor a comment. -/
def isSignificant (line : Str) : Bool := decide (trim line ≠ []) && (trim line).head? != some '#'

/-- The targets that the lines spell, one for each line that parses. -/
def parsedTargets (ls : List Str) : List Target :=
  ls.filterMap fun line => (Target.parse line).toOption

/-- The target of a line, unless an earlier line that parses has its name. -/
def acceptedTarget (ls : List Str) (entry : Str × ℕ) : Option Target :=
  (Target.parse entry.1).toOption.filter fun target =>
    target.name ∉ (parsedTargets (ls.take entry.2)).map Target.name

/-- The significant lines that give no target, with their indices. -/
def remainingLines (ls : List Str) : List (Str × ℕ) :=
  ls.zipIdx.filter fun entry => isSignificant entry.1 && (acceptedTarget ls entry).isNone

/-- A warning for the line of an index, by its number. -/
def WarnsAt (entry : Str × ℕ) (warning : Str) : Prop :=
  "line ".toList ++ decimal (entry.2 + 1) ++ ": '".toList <+: warning

/-- What a list of targets and warnings says about the lines. -/
structure AccountsFor (ls : List Str) (list : EnabledList) : Prop where
  targets : list.targets = ls.zipIdx.filterMap (acceptedTarget ls)
  distinct : (list.targets.map Target.name).Nodup
  warnings : List.Forall₂ WarnsAt (remainingLines ls) list.warnings
  increasing : ((remainingLines ls).map Prod.snd).Pairwise (· < ·)
  count : list.targets.length + list.warnings.length = ls.countP isSignificant

section Lines

variable {line : Str} {number : ℕ} {target : Target} {list : EnabledList}

theorem parse_trim (line : Str) : Target.parse (trim line) = Target.parse line := by
  simp only [Target.parse, trim_trim]

/-- A line that parses is neither blank nor a comment. -/
theorem isSignificant_of_parse (h : Target.parse line = .ok target) :
    isSignificant line = true := by
  obtain ⟨suffix, hs, -⟩ := parse_eq_ok_iff.mp h
  have hhash : '#' ∉ target.name.str := fun hm => absurd (target.name.chars _ hm) (by decide)
  obtain ⟨first, rest, hl, hf⟩ : ∃ first rest, trim line = first :: rest ∧ first ≠ '#' := by
    generalize hn : target.name.str = name at hs hhash
    cases hs with
    | bare hl _ =>
      rw [← hl, trim_trim] at hn hhash
      obtain ⟨first, rest, hl'⟩ := List.exists_cons_of_ne_nil (hn ▸ target.name.ne_nil)
      exact ⟨first, rest, hl', fun hc => hhash (by rw [hl', hc]; exact List.mem_cons_self)⟩
    | @suffixed name _ hl _ =>
      cases name with
      | nil => exact ⟨_, _, hl, by decide⟩
      | cons first rest =>
        refine ⟨first, _, hl, ?_⟩
        rintro rfl
        have hp : ['#'] <+: trim ('#' :: rest) := prefix_trim (by simp) (by decide) (by simp)
        exact hhash (hp.subset List.mem_cons_self)
  simp [isSignificant, hl, hf]

/-- A line is skipped, or it adds a target of a new name or a warning. -/
theorem parseEnabledLine_cases (list : EnabledList) (line : Str) (number : ℕ) :
    (isSignificant line = false ∧ parseEnabledLine list (line, number) = list) ∨
    (∃ target, Target.parse line = .ok target ∧ target.name ∉ list.targets.map Target.name ∧
      parseEnabledLine list (line, number) = { list with targets := list.targets ++ [target] }) ∨
    (isSignificant line = true ∧
      (∀ target, Target.parse line = .ok target → target.name ∈ list.targets.map Target.name) ∧
      ∃ warning, WarnsAt (line, number) warning ∧
        parseEnabledLine list (line, number) =
          { list with warnings := list.warnings ++ [warning] }) := by
  have hany : ∀ target : Target, (list.targets.any fun other => other.name = target.name) = true ↔
      target.name ∈ list.targets.map Target.name := by
    intro target
    simp [List.any_eq_true, List.mem_map]
  simp only [parseEnabledLine, parse_trim]
  split_ifs with hskip
  · refine Or.inl ⟨?_, rfl⟩
    rcases hskip with h | h <;> simp [isSignificant, h]
  · have hs : isSignificant line = true := by
      obtain ⟨hne, hh⟩ := not_or.mp hskip
      simp [isSignificant, hne, hh]
    split
    · next err hp =>
      refine Or.inr (Or.inr ⟨hs, fun target ht => ?_, _, ?_, rfl⟩)
      · rw [hp] at ht; cases ht
      · exact ⟨trim line ++ ("': ".toList ++ err.message), by simp⟩
    · next target hp =>
      split_ifs with hlisted
      · refine Or.inr (Or.inr ⟨hs, fun target' ht => ?_, _, ?_, rfl⟩)
        · rw [hp] at ht
          obtain rfl := Except.ok.inj ht
          exact (hany target).mp hlisted
        · exact ⟨target.name.str ++ "' is listed more than once".toList, by simp⟩
      · exact Or.inr (Or.inl ⟨target, hp, fun hm => hlisted ((hany target).mpr hm), rfl⟩)

end Lines

section Reading

variable {ls ms : List Str} {line : Str} {entry : Str × ℕ} {list : EnabledList}

/-- What reading the lines of `enabled.conf` gives. -/
def readLines (ls : List Str) : EnabledList := ls.zipIdx.foldl parseEnabledLine ⟨[], []⟩

theorem zipIdx_concat (ls : List Str) (line : Str) :
    (ls ++ [line]).zipIdx = ls.zipIdx ++ [(line, ls.length)] := by
  rw [List.zipIdx_append, List.zipIdx_singleton, Nat.zero_add]

theorem readLines_concat (ls : List Str) (line : Str) :
    readLines (ls ++ [line]) = parseEnabledLine (readLines ls) (line, ls.length) := by
  rw [readLines, zipIdx_concat, List.foldl_concat, readLines]

theorem parsedTargets_append (ls ms : List Str) :
    parsedTargets (ls ++ ms) = parsedTargets ls ++ parsedTargets ms := List.filterMap_append

theorem parsedTargets_cons_of_ok {target : Target} (h : Target.parse line = .ok target) :
    parsedTargets (line :: ls) = target :: parsedTargets ls := by
  simp [parsedTargets, h, Except.toOption]

theorem parsedTargets_cons_of_not_ok (h : ∀ target, Target.parse line ≠ .ok target) :
    parsedTargets (line :: ls) = parsedTargets ls := by
  cases hp : Target.parse line with
  | ok target => exact absurd hp (h target)
  | error err => simp [parsedTargets, hp, Except.toOption]

/-- The targets are the first ones of each name among those that the lines spell. -/
theorem targets_readLines (ls : List Str) :
    (readLines ls).targets = mergeAll Target.name (fun first _ => first) (parsedTargets ls) := by
  induction ls using List.reverseRecOn with
  | nil => rfl
  | append_singleton ls line ih =>
    have hnames : (readLines ls).targets.map Target.name =
        ((parsedTargets ls).map Target.name).eraseDups := by
      rw [ih, map_key_mergeAll fun _ _ => rfl]
    rw [readLines_concat, parsedTargets_append]
    rcases parseEnabledLine_cases (readLines ls) line ls.length with
      ⟨hs, he⟩ | ⟨target, hp, hn, he⟩ | ⟨-, hold, warning, -, he⟩
    · have hp : ∀ target, Target.parse line ≠ .ok target := by
        intro target ht
        rw [isSignificant_of_parse ht] at hs
        cases hs
      rw [he, ih, parsedTargets_cons_of_not_ok hp]
      exact congrArg _ (List.append_nil _).symm
    · rw [hnames, List.mem_eraseDups] at hn
      rw [he, parsedTargets_cons_of_ok hp]
      refine Eq.trans ?_ (mergeAll_first_concat _ _).symm
      rw [if_neg hn, ih]
    · rw [he]
      cases hp : Target.parse line with
      | error err =>
        rw [parsedTargets_cons_of_not_ok (by simp [hp]), ih]
        exact congrArg _ (List.append_nil _).symm
      | ok target =>
        have hm := hold target hp
        rw [hnames, List.mem_eraseDups] at hm
        rw [parsedTargets_cons_of_ok hp]
        refine Eq.trans ?_ (mergeAll_first_concat _ _).symm
        rw [if_pos hm, ih]

theorem mem_names_readLines {name : ExperimentName} :
    name ∈ (readLines ls).targets.map Target.name ↔
      name ∈ (parsedTargets ls).map Target.name := by
  rw [targets_readLines, map_key_mergeAll fun _ _ => rfl, List.mem_eraseDups]

/-- Later lines do not matter for what a line gives. -/
theorem acceptedTarget_append (h : entry.2 ≤ ls.length) :
    acceptedTarget (ls ++ ms) entry = acceptedTarget ls entry := by
  rw [acceptedTarget, List.take_append_of_le_length h, acceptedTarget]

theorem acceptedTarget_last (ls : List Str) (line : Str) :
    acceptedTarget (ls ++ [line]) (line, ls.length) = (Target.parse line).toOption.filter
      fun target => target.name ∉ (readLines ls).targets.map Target.name := by
  simp only [acceptedTarget, List.take_left', mem_names_readLines]

theorem index_le_of_mem_zipIdx (h : entry ∈ ls.zipIdx) : entry.2 ≤ ls.length :=
  (List.mem_zipIdx' h).1.le

theorem filterMap_acceptedTarget_concat (ls : List Str) (line : Str) :
    (ls ++ [line]).zipIdx.filterMap (acceptedTarget (ls ++ [line])) =
      ls.zipIdx.filterMap (acceptedTarget ls) ++
        (acceptedTarget (ls ++ [line]) (line, ls.length)).toList := by
  rw [zipIdx_concat, List.filterMap_append]
  congr 1
  exact List.filterMap_congr fun entry h => acceptedTarget_append (index_le_of_mem_zipIdx h)

theorem remainingLines_concat (ls : List Str) (line : Str) : remainingLines (ls ++ [line]) =
    remainingLines ls ++ [(line, ls.length)].filter fun entry =>
      isSignificant entry.1 && (acceptedTarget (ls ++ [line]) entry).isNone := by
  rw [remainingLines, zipIdx_concat, List.filter_append]
  congr 1
  apply List.filter_congr
  intro entry h
  rw [acceptedTarget_append (index_le_of_mem_zipIdx h)]

theorem pairwise_remainingLines (ls : List Str) :
    ((remainingLines ls).map Prod.snd).Pairwise (· < ·) := by
  have hall : (ls.zipIdx.map Prod.snd).Pairwise (· < ·) := by
    rw [List.zipIdx_map_snd]
    exact List.pairwise_lt_range'
  exact hall.sublist (List.filter_sublist.map _)

/-- What one more line adds, by what it is. -/
theorem readLines_cases (ls : List Str) (line : Str) :
    (isSignificant line = false ∧ acceptedTarget (ls ++ [line]) (line, ls.length) = none ∧
      readLines (ls ++ [line]) = readLines ls) ∨
    (isSignificant line = true ∧ ∃ target,
      acceptedTarget (ls ++ [line]) (line, ls.length) = some target ∧
      readLines (ls ++ [line]) =
        { readLines ls with targets := (readLines ls).targets ++ [target] }) ∨
    (isSignificant line = true ∧ acceptedTarget (ls ++ [line]) (line, ls.length) = none ∧
      ∃ warning, WarnsAt (line, ls.length) warning ∧ readLines (ls ++ [line]) =
        { readLines ls with warnings := (readLines ls).warnings ++ [warning] }) := by
  rw [acceptedTarget_last, readLines_concat]
  rcases parseEnabledLine_cases (readLines ls) line ls.length with
    ⟨hs, he⟩ | ⟨target, hp, hn, he⟩ | ⟨hs, hold, warning, hw, he⟩
  · refine Or.inl ⟨hs, ?_, he⟩
    cases hp : Target.parse line with
    | error err => rfl
    | ok target =>
      rw [isSignificant_of_parse hp] at hs
      cases hs
  · refine Or.inr (Or.inl ⟨isSignificant_of_parse hp, target, ?_, he⟩)
    rw [hp]
    exact Option.filter_eq_some_iff.mpr ⟨rfl, decide_eq_true hn⟩
  · refine Or.inr (Or.inr ⟨hs, ?_, warning, hw, he⟩)
    cases hp : Target.parse line with
    | error err => rfl
    | ok target =>
      simpa [Except.toOption] using hold target hp

/-- One more line keeps the account. -/
theorem AccountsFor.concat (h : AccountsFor ls (readLines ls)) (line : Str) :
    AccountsFor (ls ++ [line]) (readLines (ls ++ [line])) := by
  have hdistinct : ((readLines (ls ++ [line])).targets.map Target.name).Nodup := by
    rw [targets_readLines]
    exact nodup_mergeAll (fun _ _ => rfl) _
  have htargets := filterMap_acceptedTarget_concat ls line
  have hremaining := remainingLines_concat ls line
  have hcount : (ls ++ [line]).countP isSignificant =
      ls.countP isSignificant + if isSignificant line then 1 else 0 := by
    rw [List.countP_append, List.countP_singleton]
  have hwarnings := h.warnings
  rcases readLines_cases ls line with
    ⟨hs, ha, he⟩ | ⟨hs, target, ha, he⟩ | ⟨hs, ha, warning, hw, he⟩
  · rw [ha, Option.toList_none, List.append_nil] at htargets
    rw [List.filter_singleton, hs, ha] at hremaining
    rw [hs] at hcount
    refine ⟨?_, hdistinct, ?_, pairwise_remainingLines _, ?_⟩
    · rw [he, htargets, h.targets]
    · rw [he, hremaining]
      simpa using hwarnings
    · rw [he, hcount, h.count]
      rfl
  · rw [ha] at htargets
    rw [List.filter_singleton, hs, ha] at hremaining
    rw [hs] at hcount
    refine ⟨?_, hdistinct, ?_, pairwise_remainingLines _, ?_⟩
    · rw [he, htargets, h.targets]
      rfl
    · rw [he, hremaining]
      simpa using hwarnings
    · rw [he, hcount, ← h.count]
      simp
      omega
  · rw [ha, Option.toList_none, List.append_nil] at htargets
    rw [List.filter_singleton, hs, ha] at hremaining
    rw [hs] at hcount
    refine ⟨?_, hdistinct, ?_, pairwise_remainingLines _, ?_⟩
    · rw [he, htargets, h.targets]
    · rw [he, hremaining]
      exact List.rel_append hwarnings (.cons hw .nil)
    · rw [he, hcount, ← h.count]
      simp
      omega

theorem accountsFor_readLines (ls : List Str) : AccountsFor ls (readLines ls) := by
  induction ls using List.reverseRecOn with
  | nil => exact ⟨rfl, List.nodup_nil, .nil, List.Pairwise.nil, rfl⟩
  | append_singleton ls line ih => exact ih.concat line

/-- A line that does not parse gives and shadows no target. -/
theorem targets_readLines_insert (h : ∀ target, Target.parse line ≠ .ok target) :
    (readLines (ls ++ line :: ms)).targets = (readLines (ls ++ ms)).targets := by
  rw [targets_readLines, targets_readLines, parsedTargets_append, parsedTargets_append,
    parsedTargets_cons_of_not_ok h]

end Reading

section Targets

variable {text : Str} {target : Target}

/-- An enabled experiment is listed once. -/
theorem nodup_parseEnabled (text : Str) : ((parseEnabled text).targets.map Target.name).Nodup :=
  (accountsFor_readLines (lines text)).distinct

theorem exists_line_of_mem_parseEnabled (h : target ∈ (parseEnabled text).targets) :
    ∃ line ∈ lines text, Target.parse line = .ok target := by
  have ht := (accountsFor_readLines (lines text)).targets
  obtain ⟨⟨line, number⟩, hl, ha⟩ := List.mem_filterMap.mp (ht ▸ h)
  obtain ⟨hn, he⟩ := List.mem_zipIdx' hl
  refine ⟨line, he ▸ List.getElem_mem hn, ?_⟩
  obtain ⟨hp, -⟩ := Option.filter_eq_some_iff.mp ha
  dsimp only at hp
  cases hl : Target.parse line with
  | error err => rw [hl] at hp; cases hp
  | ok target' =>
    rw [hl] at hp
    exact congrArg _ (Option.some.inj hp)

/-- Comment lines enable nothing. -/
theorem parseEnabled_comments (h : ∀ l ∈ lines text, (trim l).head? = some '#') :
    (parseEnabled text).targets = [] := by
  refine List.eq_nil_iff_forall_not_mem.mpr fun target ht => ?_
  obtain ⟨line, hl, hp⟩ := exists_line_of_mem_parseEnabled ht
  have hs := isSignificant_of_parse hp
  simp [isSignificant, h line hl] at hs

end Targets

/-- Reading `enabled.conf` accounts for every line once, and a line that does not parse can be
inserted or removed anywhere without a change of the targets. -/
theorem parseEnabled_accounts (text : Str) :
    AccountsFor (lines text) (parseEnabled text) ∧
      ∀ (text' line : Str) (before after : List Str), lines text = before ++ line :: after →
        lines text' = before ++ after → (∀ target, Target.parse line ≠ .ok target) →
        (parseEnabled text').targets = (parseEnabled text).targets := by
  refine ⟨accountsFor_readLines _, fun text' line before after h h' hline => ?_⟩
  have he : ∀ text, parseEnabled text = readLines (lines text) := fun _ => rfl
  rw [he, he, h, h', targets_readLines_insert hline]

/-- A bad line shadows nothing, and the number of a warning counts every line. -/
example : ((parseEnabled "#\n\nd:!\nd:a\n".toList).targets.map Target.display,
    (parseEnabled "#\n\nd:!\nd:a\n".toList).warnings.map (·.take 7)) =
      (["d (profiles: a)".toList], ["line 3:".toList]) := by decide

end RobotCtl.Experiments
