import RobotCtl.Experiments.Start

/-! # Named experiments

A command that names experiments is refused if any of them has no compose
file, before it asks compose for anything and without a change to any file.
Otherwise it acts on each of them once, in the order in which they are first
named.
-/

namespace RobotCtl.Experiments

open Text Conf Prog

/-- The commands that act on targets. -/
inductive Command where
  | start (options : StartOptions)
  | stop
  | status

namespace Command

def run (pid : ℕ) (paths : Paths) (targets : List Target) : Command → Fallible Unit
  | .start options => Experiments.start pid paths targets options
  | .stop => Experiments.stop pid paths targets
  | .status => Experiments.status pid paths targets

end Command

variable {pid : ℕ} {paths : Paths} {targets selected : List Target} {fallback : Fallback}
  {options : StartOptions} {command : Command} {t : List (Event Sys)} {fs fs' : Fs} {err : Error}
  {r : Except Error Unit}

/-- The named experiments without a compose file, in the order in which they are first named. -/
def missingNames (fs : Fs) (dir : FilePath) (targets : List Target) : List ExperimentName :=
  (targets.map Target.name).eraseDups.filter fun name => !HasStack fs dir name

/-- What a command says of named experiments without a compose file: each on a line of its own. -/
def refusal (dir : FilePath) (missing : List ExperimentName) : Error :=
  ["no compose file for ".toList ++ decimal missing.length ++
    " of the named experiments (nothing was done):\n".toList ++
    joinWith ['\n'] (missing.map fun name => "  ".toList ++ name.str ++ ": ".toList ++
      ((dir.join name.str).join "docker-compose.yml".toList).display ++ " does not exist".toList)]

/-- The run was refused because of the missing experiments, and has done nothing. -/
def Refused (paths : Paths) (targets : List Target) (fs fs' : Fs) (t : List (Event Sys))
    (r : Except Error Unit) : Prop :=
  r = .error (refusal paths.experimentsDir (missingNames fs paths.experimentsDir targets)) ∧
    composeCalls t = [] ∧ fs' = fs

theorem missingNames_eq_nil_iff {dir : FilePath} :
    missingNames fs dir targets = [] ↔ ∀ target ∈ targets, HasStack fs dir target.name = true := by
  simp [missingNames]

theorem missingError_eq (dir : FilePath) (missing : List Target) :
    missingError dir missing = refusal dir (missing.map Target.name) := by
  rw [missingError, refusal, List.length_map, List.map_map]
  rfl

/-- A selection of named targets is refused, or finds all of them. -/
theorem prepare_named_runs {r : Except Error (FilePath × List Target)} (hne : targets ≠ [])
    (hd : DockerFound t) (h : Returns (prepare pid paths targets fallback).run t r)
    (hr : Env.Runs Fs.env fs t fs') :
    fs' = fs ∧ ∃ missing, missing.map Target.name = missingNames fs paths.experimentsDir targets ∧
      r = if missing = [] then .ok (paths.experimentsDir, mergeDuplicates targets)
        else .error (missingError paths.experimentsDir missing) := by
  obtain ⟨t', hs, hr'⟩ := prepare_runs hd h hr
  exact select_named_runs hne hs hr'

theorem refused_of_prepare (hne : targets ≠ []) (hd : DockerFound t)
    (h : Returns (prepare pid paths targets fallback).run t (.error err))
    (hr : Env.Runs Fs.env fs t fs') :
    missingNames fs paths.experimentsDir targets ≠ [] ∧
      Refused paths targets fs fs' t (.error err) := by
  obtain ⟨rfl, missing, hm, he⟩ := prepare_named_runs hne hd h hr
  split at he
  · cases he
  · next hn =>
    cases he
    refine ⟨fun hc => hn ?_, ?_, composeCalls_eq_nil (prepare_quiet _ _ _ _) h, rfl⟩
    · rw [hc] at hm
      exact List.map_eq_nil_iff.mp hm
    · rw [missingError_eq, hm]

theorem selected_of_prepare {dir : FilePath} (hne : targets ≠ []) (hd : DockerFound t)
    (h : Returns (prepare pid paths targets fallback).run t (.ok (dir, selected)))
    (hr : Env.Runs Fs.env fs t fs') :
    missingNames fs paths.experimentsDir targets = [] ∧ dir = paths.experimentsDir ∧
      selected = mergeDuplicates targets := by
  obtain ⟨-, missing, hm, he⟩ := prepare_named_runs hne hd h hr
  split at he
  · next hn =>
    cases he
    rw [hn] at hm
    exact ⟨hm.symm, rfl, rfl⟩
  · cases he

theorem DockerFound.left {t₁ t₂ : List (Event Sys)} (h : DockerFound (t₁ ++ t₂)) : DockerFound t₁ :=
  fun e he => h e (List.mem_append_left _ he)

section Example

/-- A robot with one experiment and one file, and nothing beside them. -/
theorem exists_withStack (name : ExperimentName) {file : Str} (hne : file ≠ name.str)
    (c : Content) : ∃ fs : Fs, HasStack fs rootPaths.experimentsDir name = true ∧
    fs.node (rootPaths.experimentsDir.join file) = some (.file c) ∧
    ∀ entry, fs.node (rootPaths.experimentsDir.join entry) ≠ none ↔
      entry = name.str ∨ entry = file := by
  let dir := rootPaths.experimentsDir
  obtain ⟨fs₁, hd₁, hn₁⟩ := Fs.exists_dir dir
  obtain ⟨fs₂, h₂⟩ := Fs.exists_put dir file (.file c) hd₁
    (by rw [hn₁]; exact (Option.some_ne_none _).symm)
  have hd₂ : fs₂.node dir = some .dir := by rw [h₂, Function.update_of_ne (Fs.join_ne _ _), hd₁]
  have hn₂ : ∀ entry, entry ≠ file → fs₂.node (dir.join entry) = none := by
    intro entry hentry
    rw [h₂, Function.update_of_ne fun he => hentry (FilePath.join_inj.mp he).2, hn₁]
  obtain ⟨fs₃, h₃⟩ := Fs.exists_put dir name.str .dir hd₂
    (by rw [hn₂ _ hne.symm]; exact (Option.some_ne_none _).symm)
  have hd₃ : fs₃.node (dir.join name.str) = some .dir := by rw [h₃]; exact Function.update_self ..
  have hn₃ : fs₃.node (composeFile dir name) = none := by
    by_contra hc
    have hparent := fs₂.parent_dir (dir.join name.str) "docker-compose.yml".toList
    rw [h₃, composeFile, Function.update_of_ne (Fs.join_ne _ _).symm] at hc
    rw [hn₂ _ hne.symm] at hparent
    cases hparent hc
  obtain ⟨fs₄, h₄⟩ := Fs.exists_put (dir.join name.str) "docker-compose.yml".toList
    (.file (.text [])) hd₃ (fun hc => by rw [composeFile] at hn₃; rw [hn₃] at hc; cases hc)
  have hlen : ∀ entry, dir.join entry ≠ (dir.join name.str).join "docker-compose.yml".toList := by
    intro entry he
    simpa [FilePath.join] using congrArg List.length he
  refine ⟨fs₄, ?_, ?_, fun entry => ?_⟩
  · have hc : fs₄.node (composeFile dir name) = some (.file (.text [])) := by
      rw [h₄]; exact Function.update_self ..
    simp [hasStack_eq, Fs.isFile, dir, hc]
  · have hjoin : dir.join file ≠ dir.join name.str := fun he => hne (FilePath.join_inj.mp he).2
    rw [h₄, Function.update_of_ne (hlen _), h₃, Function.update_of_ne hjoin, h₂]
    exact Function.update_self ..
  · rw [h₄, Function.update_of_ne (hlen _), h₃]
    by_cases hs : entry = name.str
    · subst hs
      exact iff_of_true (by rw [Function.update_self]; exact Option.some_ne_none _) (Or.inl rfl)
    · rw [Function.update_of_ne fun he => hs (FilePath.join_inj.mp he).2]
      by_cases hc : entry = file
      · subst hc
        exact iff_of_true (by rw [h₂, Function.update_self]; exact Option.some_ne_none _)
          (Or.inr rfl)
      · exact iff_of_false (not_not.mpr (hn₂ _ hc)) (not_or.mpr ⟨hs, hc⟩)

/-- A robot with one experiment and a settings file, and nothing beside them. -/
theorem exists_withSlam (c : Content) : ∃ fs : Fs,
    HasStack fs rootPaths.experimentsDir slam = true ∧
    fs.node (rootPaths.experimentsDir.join "experiments.conf".toList) = some (.file c) ∧
    ∀ entry, fs.node (rootPaths.experimentsDir.join entry) ≠ none ↔
      entry = slam.str ∨ entry = "experiments.conf".toList :=
  exists_withStack slam (by decide) c

end Example

end RobotCtl.Experiments
