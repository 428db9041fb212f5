import RobotCtl.Conf.Store
import RobotCtl.Experiments.Enabled
import RobotCtl.Experiments.Merge
import RobotCtl.Experiments.Runs

/-! # What a selection finds

Selecting named targets looks for their compose files and changes nothing.
Selecting the enabled ones can create `enabled.conf`, and the sweep lists the
experiments directory: none of them adds or removes a stack.
-/

namespace RobotCtl.Experiments

open Text Conf Prog

variable {pid : ℕ} {paths : Paths} {dir : FilePath} {want : Bool} {targets selected : List Target}
  {fallback : Fallback} {t : List (Event Sys)} {fs fs' : Fs}

/-- A stack of this name can be brought up. -/
def HasStack (fs : Fs) (dir : FilePath) (name : ExperimentName) : Bool :=
  fs.isFile ((dir.join name.str).join "docker-compose.yml".toList)

theorem hasStack_eq (fs : Fs) (dir : FilePath) (name : ExperimentName) :
    HasStack fs dir name = fs.isFile (composeFile dir name) := rfl

/-- The same stacks can be brought up. -/
def SameStacks (dir : FilePath) (fs fs' : Fs) : Prop :=
  ∀ name, HasStack fs' dir name = HasStack fs dir name

theorem SameStacks.refl (dir : FilePath) (fs : Fs) : SameStacks dir fs fs := fun _ => rfl

/-- A stack is in a directory of its name, in the experiments directory. -/
theorem node_of_hasStack {name : ExperimentName} (h : HasStack fs dir name = true) :
    fs.node dir = some .dir ∧ fs.node (dir.join name.str) = some .dir := by
  have hn : fs.node (composeFile dir name) ≠ none := by
    intro hc
    simp [hasStack_eq, Fs.isFile, hc] at h
  have hd := fs.parent_dir _ _ hn
  exact ⟨fs.parent_dir dir name.str (by simp [hd]), hd⟩

/-- Docker was not found to be missing. -/
def DockerFound (t : List (Event Sys)) : Prop :=
  ∀ e, (⟨.status "docker".toList ["--version".toList], .error e⟩ : Event Sys) ∉ t

/-- Every command begins with a call of docker, and selects its targets if that succeeds. -/
theorem returns_prepare {r : Except Error (FilePath × List Target)}
    (h : Returns (prepare pid paths targets fallback).run t r) :
    (∃ e err, t = [⟨.status docker ["--version".toList], .error e⟩] ∧ r = .error err) ∨
    ∃ x t', t = ⟨.status docker ["--version".toList], .ok x⟩ :: t' ∧
      Returns (select pid paths targets fallback).run t' r := by
  have hcall : ∀ {t₁ r₁}, Returns requireDocker.run t₁ r₁ → ∃ x : Io ExitStatus,
      t₁ = [⟨.status docker ["--version".toList], x⟩] ∧ r₁.isOk = x.isOk := by
    intro t₁ r₁ h₁
    obtain ⟨r₂, h₂, rfl⟩ := returns_try_map_iff.mp h₁
    obtain ⟨x, hx, rfl⟩ := returns_orFail_iff.mp h₂
    exact ⟨x, returns_perform_iff.mp hx, by cases x <;> rfl⟩
  rcases returns_try_bind_iff.mp h with ⟨err, hd, rfl⟩ | ⟨_, t₁, t₂, rfl, hd, hs⟩
  · obtain ⟨e | x, rfl, hx⟩ := hcall hd
    · exact Or.inl ⟨e, err, rfl, rfl⟩
    · cases hx
  · obtain ⟨e | x, rfl, hx⟩ := hcall hd
    · cases hx
    · exact Or.inr ⟨x, t₂, rfl, hs⟩

theorem prepare_runs {r : Except Error (FilePath × List Target)} (hd : DockerFound t)
    (h : Returns (prepare pid paths targets fallback).run t r) (hr : Env.Runs Fs.env fs t fs') :
    ∃ t', Returns (select pid paths targets fallback).run t' r ∧ Env.Runs Fs.env fs t' fs' := by
  rcases returns_prepare h with ⟨e, err, rfl, -⟩ | ⟨x, t', rfl, hs⟩
  · exact absurd (List.mem_singleton_self _) (hd e)
  · obtain ⟨u, hu, hr'⟩ := Env.runs_cons_iff.mp hr
    obtain rfl : u = fs := hu
    exact ⟨t', hs, hr'⟩

theorem prepare_ok_runs {x : FilePath × List Target}
    (h : Returns (prepare pid paths targets fallback).run t (.ok x))
    (hr : Env.Runs Fs.env fs t fs') :
    ∃ t', Returns (select pid paths targets fallback).run t' (.ok x) ∧
      Env.Runs Fs.env fs t' fs' := by
  rcases returns_prepare h with ⟨_, _, -, he⟩ | ⟨_, t', rfl, hs⟩
  · cases he
  · obtain ⟨u, hu, hr'⟩ := Env.runs_cons_iff.mp hr
    obtain rfl : u = fs := hu
    exact ⟨t', hs, hr'⟩

section Named

theorem returns_select_named {r : Except Error (FilePath × List Target)} (hne : targets ≠ [])
    (h : Returns (select pid paths targets fallback).run t r) :
    ∃ missing,
      Returns (filterFiles paths.experimentsDir false (mergeDuplicates targets)) t missing ∧
      r = if missing = [] then .ok (paths.experimentsDir, mergeDuplicates targets)
        else .error (missingError paths.experimentsDir missing) := by
  unfold select at h
  rw [if_pos hne] at h
  obtain ⟨missing, t₁, t₂, rfl, h₁, h₂⟩ := returns_lift_bind_iff.mp h
  by_cases hm : missing = []
  · rw [if_neg (not_not.mpr hm)] at h₂
    obtain ⟨rfl, rfl⟩ := returns_ret_iff.mp h₂
    exact ⟨missing, by rwa [List.append_nil], (if_pos hm).symm⟩
  · rw [if_pos hm] at h₂
    obtain ⟨rfl, rfl⟩ := returns_ret_iff.mp h₂
    exact ⟨missing, by rwa [List.append_nil], (if_neg hm).symm⟩

theorem filterFiles_runs (h : Returns (filterFiles dir want targets) t selected)
    (hr : Env.Runs Fs.env fs t fs') :
    fs' = fs ∧ selected = targets.filter fun target => HasStack fs dir target.name = want := by
  induction targets generalizing t selected with
  | nil =>
    obtain ⟨rfl, rfl⟩ := returns_ret_iff.mp h
    exact ⟨Env.runs_nil_iff.mp hr, rfl⟩
  | cons target targets ih =>
    obtain ⟨b, t₁, rfl, h₁⟩ := returns_call_iff.mp h
    rw [ret_bind] at h₁
    obtain ⟨rest, t₂, t₃, rfl, h₂, h₃⟩ := returns_bind_iff.mp h₁
    obtain ⟨rfl, rfl⟩ := returns_ret_iff.mp h₃
    obtain ⟨u, ⟨hu, hb⟩, hr'⟩ := Env.runs_cons_iff.mp hr
    subst hu
    rw [List.append_nil] at hr'
    obtain ⟨rfl, hl⟩ := ih h₂ hr'
    have hb : b = HasStack fs' dir target.name := hb
    refine ⟨rfl, ?_⟩
    by_cases hw : HasStack fs' dir target.name = want <;> simp [hb, hl, hw]

/-- Selecting named targets changes nothing. It succeeds with the merged targets exactly if all of
them have a stack, and otherwise reports those that have none. -/
theorem select_named_runs {r : Except Error (FilePath × List Target)} (hne : targets ≠ [])
    (h : Returns (select pid paths targets fallback).run t r) (hr : Env.Runs Fs.env fs t fs') :
    fs' = fs ∧ ∃ missing, missing.map Target.name = ((targets.map Target.name).eraseDups.filter
        fun name => !HasStack fs paths.experimentsDir name) ∧
      r = if missing = [] then .ok (paths.experimentsDir, mergeDuplicates targets)
        else .error (missingError paths.experimentsDir missing) := by
  obtain ⟨missing, hf, rfl⟩ := returns_select_named hne h
  obtain ⟨rfl, hm⟩ := filterFiles_runs hf hr
  refine ⟨rfl, missing, ?_, rfl⟩
  rw [hm, ← mergeDuplicates_names, List.filter_map]
  simp only [Function.comp_def, Bool.decide_eq_false]

end Named

section Enabled

theorem returns_select_enabled {r : Except Error (FilePath × List Target)}
    (h : Returns (select pid paths [] .enabled).run t r) :
    ∃ r', Returns (enabledTargets pid paths.experimentsDir).run t r' ∧
      r = r'.map (paths.experimentsDir, ·) := by
  unfold select at h
  rw [if_neg (not_not.mpr rfl)] at h
  exact returns_try_map_iff.mp h

theorem returns_enabledTargets_ok (h : Returns (enabledTargets pid dir).run t (.ok selected)) :
    ∃ t₁ t₂ t₃ text, t = t₁ ++ (t₂ ++ t₃) ∧
      Returns (ensureFile pid (dir.join "enabled.conf".toList) enabledConfTemplate).run t₁
        (.ok ()) ∧
      Returns (readOptional (dir.join "enabled.conf".toList)).run t₂ (.ok text) ∧
      Returns (filterFiles dir true (parseEnabled (text.getD [])).targets) t₃ selected := by
  obtain ⟨_, t₁, t₂, rfl, h₁, h₂⟩ := returns_try_bind_ok_iff.mp h
  obtain ⟨text, t₃, t₄, rfl, h₃, h₄⟩ := returns_try_bind_ok_iff.mp h₂
  obtain ⟨_, h₅, he⟩ := returns_lift_iff.mp h₄
  cases he
  exact ⟨t₁, t₃, t₄, text, rfl, h₁, h₃, h₅⟩

variable {path q : FilePath} {template : Str} {r : Except Error Unit}

/-- Ensuring that a file exists leaves every node alone that is not above it. -/
theorem node_ensureFile (h : Returns (ensureFile pid path template).run t r)
    (hr : Env.Runs Fs.env fs t fs') (hq : ¬ q <+: path) (ht : q ≠ tmpPath pid path) :
    fs'.node q = fs.node q := by
  obtain ⟨b, t₁, t₂, rfl, h₁, h₂⟩ := returns_lift_bind_iff.mp h
  obtain rfl := returns_perform_iff.mp h₁
  obtain ⟨u, ⟨hu, -⟩, hr'⟩ := Env.runs_cons_iff.mp hr
  subst hu
  cases b with
  | true =>
    obtain ⟨rfl, -⟩ := returns_ret_iff.mp h₂
    rw [Env.runs_nil_iff.mp hr']
  | false =>
    obtain ⟨x, t₃, t₄, rfl, h₃, h₄⟩ := returns_bind_iff.mp h₂
    obtain ⟨rfl, -⟩ := returns_ret_iff.mp h₄
    rw [List.append_nil] at hr'
    have hops := (writeRun_of_returns h₃).ops
    exact Fs.node_eq_of_runs hr' fun e he => (hops e he).quiet_of_not_isPrefix hq ht

theorem sameStacks_ensureFile {file : Str}
    (h : Returns (ensureFile pid (dir.join file) template).run t r)
    (hr : Env.Runs Fs.env fs t fs') : SameStacks dir fs fs' := by
  intro name
  have hq : fs'.node (composeFile dir name) = fs.node (composeFile dir name) := by
    refine node_ensureFile h hr (fun hp => ?_) (fun ht => ?_)
    · simpa [composeFile, FilePath.join] using hp.length_le
    · rw [tmpPath, FilePath.withExtension_join] at ht
      simpa [composeFile, FilePath.join] using congrArg List.length ht
  simp only [hasStack_eq, Fs.isFile, hq]

/-- Selecting the enabled targets neither adds nor removes a stack. It finds targets whose stacks
can be brought up. -/
theorem enabledTargets_runs (h : Returns (enabledTargets pid dir).run t (.ok selected))
    (hr : Env.Runs Fs.env fs t fs') :
    SameStacks dir fs fs' ∧ ∀ target ∈ selected, HasStack fs dir target.name = true := by
  obtain ⟨t₁, t₂, t₃, text, rfl, h₁, h₂, h₃⟩ := returns_enabledTargets_ok h
  obtain ⟨u, hr₁, hr₂⟩ := Env.runs_append_iff.mp hr
  obtain ⟨v, hr₃, hr₄⟩ := Env.runs_append_iff.mp hr₂
  obtain ⟨rfl, -⟩ := readOptional_runs h₂ hr₃
  obtain ⟨rfl, rfl⟩ := filterFiles_runs h₃ hr₄
  have hs := sameStacks_ensureFile h₁ hr₁
  refine ⟨hs, fun target ht => ?_⟩
  rw [← hs]
  simpa using (List.mem_filter.mp ht).2

end Enabled

section OnDisk

/-- The name of an entry of a listing, if it names a stack. -/
def stackOf (fs : Fs) (dir : FilePath) (entry : Str) : Option ExperimentName :=
  (ExperimentName.new entry).toOption.filter (HasStack fs dir)

theorem stackOf_eq_some_iff {entry : Str} {name : ExperimentName} :
    stackOf fs dir entry = some name ↔ name.str = entry ∧ HasStack fs dir name = true := by
  rw [stackOf, Option.filter_eq_some_iff]
  refine and_congr_left fun _ => ?_
  rw [← ExperimentName.new_eq_ok_iff]
  cases ExperimentName.new entry <;> simp [Except.toOption]

theorem str_of_mem_stackOf {entry str : Str}
    (h : str ∈ (stackOf fs dir entry).map ExperimentName.str) : entry = str := by
  obtain ⟨name, hs, rfl⟩ := Option.map_eq_some_iff.mp h
  exact (stackOf_eq_some_iff.mp hs).1.symm

theorem onDiskEntry_runs {names names' : List ExperimentName} {entry : Io (Option Str)}
    (h : Returns (onDiskEntry dir names entry).run t (.ok names'))
    (hr : Env.Runs Fs.env fs t fs') :
    fs' = fs ∧ (∀ e, entry ≠ .error e) ∧
      names' = names ++ (Fs.entryNames [entry]).filterMap (stackOf fs dir) := by
  rcases entry with e | _ | entry
  · obtain ⟨-, he⟩ := returns_ret_iff.mp h
    cases he
  · obtain ⟨rfl, hn⟩ := returns_ret_iff.mp h
    cases hn
    exact ⟨Env.runs_nil_iff.mp hr, by simp, by simp [Fs.entryNames, Except.toOption]⟩
  · have hn : Fs.entryNames [.ok (some entry)] = [entry] := rfl
    rw [hn]
    simp only [onDiskEntry] at h
    cases hx : ExperimentName.new entry with
    | error source =>
      rw [hx] at h
      obtain ⟨rfl, hn⟩ := returns_ret_iff.mp h
      cases hn
      exact ⟨Env.runs_nil_iff.mp hr, by simp, by simp [stackOf, hx, Except.toOption]⟩
    | ok name =>
      rw [hx] at h
      obtain ⟨b, t₁, t₂, rfl, h₁, h₂⟩ := returns_lift_bind_iff.mp h
      obtain rfl := returns_perform_iff.mp h₁
      obtain ⟨u, ⟨hu, hb⟩, hr'⟩ := Env.runs_cons_iff.mp hr
      subst hu
      have hs : HasStack u dir name = b := hb.symm
      cases b with
      | true =>
        obtain ⟨rfl, hn⟩ := returns_ret_iff.mp h₂
        cases hn
        have hf := stackOf_eq_some_iff.mpr ⟨ExperimentName.new_eq_ok_iff.mp hx, hs⟩
        exact ⟨Env.runs_nil_iff.mp hr', by simp, by simp [hf]⟩
      | false =>
        obtain ⟨rfl, hn⟩ := returns_ret_iff.mp h₂
        cases hn
        exact ⟨Env.runs_nil_iff.mp hr', by simp, by simp [stackOf, hx, Except.toOption, hs]⟩

theorem onDiskEntries_runs {entries : List (Io (Option Str))} {names names' : List ExperimentName}
    (h : Returns (entries.foldlM (onDiskEntry dir) names).run t (.ok names'))
    (hr : Env.Runs Fs.env fs t fs') :
    fs' = fs ∧ (∀ e, .error e ∉ entries) ∧
      names' = names ++ (Fs.entryNames entries).filterMap (stackOf fs dir) := by
  induction entries generalizing names t fs with
  | nil =>
    obtain ⟨rfl, hn⟩ := returns_ret_iff.mp h
    cases hn
    exact ⟨Env.runs_nil_iff.mp hr, by simp, by simp [Fs.entryNames]⟩
  | cons entry entries ih =>
    rw [List.foldlM_cons] at h
    obtain ⟨names₁, t₁, t₂, rfl, h₁, h₂⟩ := returns_try_bind_ok_iff.mp h
    obtain ⟨u, hr₁, hr₂⟩ := Env.runs_append_iff.mp hr
    obtain ⟨rfl, he, rfl⟩ := onDiskEntry_runs h₁ hr₁
    obtain ⟨rfl, hes, rfl⟩ := ih h₂ hr₂
    refine ⟨rfl, fun e => ?_, ?_⟩
    · simpa using ⟨(he e).symm, hes e⟩
    · have hs : Fs.entryNames (entry :: entries) =
          Fs.entryNames [entry] ++ Fs.entryNames entries := List.filterMap_append (l := [entry])
      rw [hs, List.filterMap_append, List.append_assoc]

/-- The sweep finds every stack once, in the order of their names. -/
theorem onDisk_runs {names : List ExperimentName}
    (h : Returns (onDisk dir).run t (.ok names)) (hr : Env.Runs Fs.env fs t fs') :
    fs' = fs ∧ names.Pairwise (fun a b => a.str < b.str) ∧
      ∀ name, name ∈ names ↔ HasStack fs dir name = true := by
  obtain ⟨x, t₁, t₂, rfl, h₁, h₂⟩ := returns_lift_bind_iff.mp h
  obtain rfl := returns_perform_iff.mp h₁
  obtain ⟨u, ⟨hu, hl⟩, hr'⟩ := Env.runs_cons_iff.mp hr
  subst hu
  rcases x with e | entries
  · simp only at h₂
    split at h₂
    · next he =>
      obtain ⟨rfl, hn⟩ := returns_ret_iff.mp h₂
      cases hn
      refine ⟨Env.runs_nil_iff.mp hr', List.Pairwise.nil, fun name => iff_of_false (by simp) ?_⟩
      intro hs
      exact hl (by rw [(node_of_hasStack hs).1]; simp) he
    · obtain ⟨-, hn⟩ := returns_ret_iff.mp h₂
      cases hn
  · obtain ⟨r, h₃, hn⟩ := returns_try_map_iff.mp h₂
    cases r with
    | error e => cases hn
    | ok found =>
      cases hn
      obtain ⟨rfl, he, rfl⟩ := onDiskEntries_runs h₃ hr'
      obtain ⟨-, hnodup, -, hall⟩ := hl
      rw [List.nil_append]
      refine ⟨rfl, Sorting.pairwise_sortBy ?_, fun name => ?_⟩
      · rw [List.map_filterMap]
        refine hnodup.filterMap fun a b name ha hb => ?_
        rw [str_of_mem_stackOf ha, str_of_mem_stackOf hb]
      · rw [Sorting.mem_sortBy, List.mem_filterMap]
        constructor
        · rintro ⟨entry, -, h⟩
          exact (stackOf_eq_some_iff.mp h).2
        · intro hs
          refine ⟨name.str, hall he _ ?_, stackOf_eq_some_iff.mpr ⟨rfl, hs⟩⟩
          rw [(node_of_hasStack hs).2]
          simp

theorem returns_select_onDisk {r : Except Error (FilePath × List Target)}
    (h : Returns (select pid paths [] .everythingOnDisk).run t r) :
    ∃ r', Returns (onDisk paths.experimentsDir).run t r' ∧
      r = r'.map fun names => (paths.experimentsDir, names.map (⟨·, .none⟩)) := by
  unfold select at h
  rw [if_neg (not_not.mpr rfl)] at h
  exact returns_try_map_iff.mp h

end OnDisk

/-- Every selection is from the experiments directory. -/
theorem dir_of_prepare
    (h : Returns (prepare pid paths targets fallback).run t (.ok (dir, selected))) :
    dir = paths.experimentsDir := by
  rcases returns_prepare h with ⟨_, _, -, hr⟩ | ⟨_, _, -, hs⟩
  · cases hr
  by_cases hne : targets = []
  · subst hne
    cases fallback with
    | enabled =>
      obtain ⟨r', -, hr⟩ := returns_select_enabled hs
      cases r' <;> cases hr
      rfl
    | everythingOnDisk =>
      obtain ⟨r', -, hr⟩ := returns_select_onDisk hs
      cases r' <;> cases hr
      rfl
  · obtain ⟨missing, -, hr⟩ := returns_select_named hne hs
    split at hr <;> cases hr
    rfl

end RobotCtl.Experiments
