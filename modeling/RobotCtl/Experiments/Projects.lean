import Mathlib.Logic.Relation
import RobotCtl.Experiments.Arguments

/-! # Compose projects

No command names a compose project, so compose names it after the directory of
the experiment, in a smaller alphabet. Names that differ only in what it leaves
out share a project, and acting on one of them touches the containers of the
other.
-/

namespace RobotCtl.Experiments

open Text Conf Prog

/-- The characters of a project name. -/
def isProjectChar (c : Char) : Bool := isLower c || isDigit c || c == '_' || c == '-'

/-- The characters that a project name does not start with. -/
def isFrontChar (c : Char) : Bool := c == '_' || c == '-'

/-- The project name that is made of a text. -/
def projectName (s : Str) : Str := ((toLower s).filter isProjectChar).dropWhile isFrontChar

/-- The last component of a displayed path. -/
def baseName (path : Str) : Str := path.rtakeWhile (· ≠ '/')

/-- Compose with these flags names a project after the project directory. -/
def NamesByDirectory (project : List Str → Str) : Prop :=
  ∀ args directory, (∀ flag ∈ (readFlags args.tail).1,
      flag.1 ≠ "-p".toList ∧ flag.1 ≠ "--project-name".toList) →
    (readFlags args.tail).1.lookup "--project-directory".toList = some directory →
    project args = projectName (baseName directory)

/-- The projects that starts and stops address for an experiment. -/
inductive Addresses (project : List Str → Str) (paths : Paths) (name : ExperimentName) :
    Str → Prop
  | intro {pid : ℕ} {command : Command} {targets : List Target} {fs fs' : Fs}
      {t : List (Event Sys)} {e : Event Sys} {args : List Str} (hcommand : command ≠ .status)
      (h : Partial (command.run pid paths targets).run t) (hr : Env.Runs Fs.env fs t fs')
      (he : e ∈ t) (ha : dockerArgs e.1 = some args) (hf : IsFor paths.experimentsDir name args) :
      Addresses project paths name (project args)

/-- Starts and stops address different projects for two experiments. -/
def ProjectsDiffer (project : List Str → Str) (paths : Paths) (name name' : ExperimentName) :
    Prop :=
  ∀ p p', Addresses project paths name p → Addresses project paths name' p' → p ≠ p'

/-- A change to a name that its project does not show: the case of a letter, a dot, or a character
at its front that no project name starts with. -/
inductive Edit : Str → Str → Prop
  | case (s r : Str) (c : Char) : Edit (s ++ c :: r) (s ++ (toLower [c] ++ r))
  | dot (s r : Str) : Edit (s ++ '.' :: r) (s ++ r)
  | front (c : Char) (r : Str) : isFrontChar c = true → Edit (c :: r) r

/-- Edits lead from the one name to the other. -/
def Confusable (s r : Str) : Prop := Relation.EqvGen Edit s r

variable {project : List Str → Str} {paths : Paths} {dir : FilePath} {name name' : ExperimentName}
  {profiles : Profiles} {verb args : List Str} {invocation : Invocation} {p s r : Str}

section Edits

open Relation

theorem projectName_edit (h : Edit s r) : projectName s = projectName r := by
  cases h with
  | case s r c =>
    have hc : toLower (c :: r) = toLower (toLower [c] ++ r) := by
      rw [toLower_append, toLower_toLower]
      rfl
    rw [projectName, projectName, toLower_append, toLower_append, hc]
  | dot s r =>
    have hdot : toLower ('.' :: r) = '.' :: toLower r := rfl
    rw [projectName, projectName, toLower_append, toLower_append, hdot, List.filter_append,
      List.filter_append, List.filter_cons_of_neg (by decide)]
  | front c r hc =>
    have hcases : c = '_' ∨ c = '-' := by simpa [isFrontChar] using hc
    rcases hcases with rfl | rfl <;> rfl

theorem projectName_eq_of_confusable (h : Confusable s r) : projectName s = projectName r := by
  induction h with
  | rel s r h => exact projectName_edit h
  | refl s => rfl
  | symm s r _ ih => exact ih.symm
  | trans s r q _ _ ih ih' => exact ih.trans ih'

theorem eqvGen_toLower (p s : Str) : EqvGen Edit (p ++ s) (p ++ toLower s) := by
  induction s generalizing p with
  | nil => exact .refl _
  | cons c s ih =>
    have h := ih (p ++ toLower [c])
    rw [List.append_assoc, List.append_assoc, ← toLower_append] at h
    exact .trans _ _ _ (.rel _ _ (.case p s c)) h

theorem eqvGen_filter (p s : Str) (h : ∀ c ∈ s, isProjectChar c = true ∨ c = '.') :
    EqvGen Edit (p ++ s) (p ++ s.filter isProjectChar) := by
  induction s generalizing p with
  | nil => exact .refl _
  | cons c s ih =>
    obtain ⟨hc, hs⟩ := List.forall_mem_cons.mp h
    by_cases hp : isProjectChar c = true
    · rw [List.filter_cons_of_pos hp]
      simpa using ih (p ++ [c]) hs
    · obtain rfl := hc.resolve_left hp
      rw [List.filter_cons_of_neg hp]
      exact .trans _ _ _ (.rel _ _ (.dot p s)) (ih p hs)

theorem eqvGen_dropWhile (s : Str) : EqvGen Edit s (s.dropWhile isFrontChar) := by
  induction s with
  | nil => exact .refl _
  | cons c s ih =>
    by_cases hc : isFrontChar c = true
    · rw [List.dropWhile_cons_of_pos hc]
      exact .trans _ _ _ (.rel _ _ (.front c s hc)) ih
    · rw [List.dropWhile_cons_of_neg hc]
      exact .refl _

/-- In lower case, only the dots of a name are no characters of a project name. -/
theorem isProjectChar_or_dot (name : ExperimentName) :
    ∀ c ∈ toLower name.str, isProjectChar c = true ∨ c = '.' := by
  intro c hc
  have hup := not_isUpper_of_mem_toLower hc
  obtain ⟨d, hd, rfl⟩ := List.mem_map.mp hc
  by_cases hu : isUpper d = true
  · rw [if_pos hu]
    simp [isProjectChar, isLower_lower hu]
  · rw [if_neg hu]
    have hn := name.chars d hd
    simp only [isNameChar, isAlphanumeric, Bool.or_eq_true, beq_iff_eq] at hn
    simp only [isProjectChar, Bool.or_eq_true, beq_iff_eq]
    tauto

/-- Edits lead from a name to its project. -/
theorem confusable_projectName (name : ExperimentName) :
    Confusable name.str (projectName name.str) := by
  have hlower := eqvGen_toLower [] name.str
  have hfilter := eqvGen_filter [] (toLower name.str) (isProjectChar_or_dot name)
  exact (hlower.trans _ _ _ hfilter).trans _ _ _ (eqvGen_dropWhile _)

theorem confusable_iff :
    Confusable name.str name'.str ↔ projectName name.str = projectName name'.str := by
  constructor
  · exact projectName_eq_of_confusable
  · intro h
    have h' := confusable_projectName name
    rw [h] at h'
    exact h'.trans _ _ _ ((confusable_projectName name').symm _ _)

end Edits

section Addressed

theorem baseName_display_join (h : '/' ∉ s) : baseName (dir.join s).display = s := by
  have hs : ∀ c ∈ s.reverse, decide (c ≠ '/') = true := fun c hc => by
    simpa using fun he : c = '/' => h (he ▸ List.mem_reverse.mp hc)
  rw [display_join, baseName, List.rtakeWhile, List.reverse_append, List.reverse_cons,
    List.append_assoc, List.takeWhile_append_of_pos hs]
  simp

/-- Whatever is asked of compose for an experiment, its project is named after the experiment. -/
theorem project_composeArgs (hp : NamesByDirectory project) (hv : verb ∈ invocation.verbs) :
    project (composeArgs dir name profiles verb) = projectName name.str := by
  obtain ⟨request, hw, hname, hargs⟩ := exists_request dir name profiles hv
  have hflags := congrArg Prod.fst (readFlags_args dir hw)
  rw [hargs, hp (request.args dir) (request.directory dir)]
  · rw [Request.directory, hname, baseName_display_join name.isComponent.no_separator.1]
  · rw [hflags]
    simp only [Request.flags, List.forall_mem_cons, List.forall_mem_map]
    exact ⟨by decide, by decide, fun _ _ => by decide⟩
  · rw [hflags, Request.flags, List.lookup_cons, List.lookup_cons]
    rfl

theorem eq_of_addresses (hp : NamesByDirectory project) (h : Addresses project paths name p) :
    p = projectName name.str := by
  obtain ⟨-, h, -, he, ha, hf⟩ := h
  rename_i pid command targets _ _ _ _ args
  have hc : args.head? = some "compose".toList := by
    obtain ⟨rest, rfl⟩ := hf
    rfl
  have hrun : Partial ((Invocation.act command targets).run pid paths).run _ := h
  obtain ⟨name', profiles, verb, hv, rfl⟩ := asks_of_partial hrun _ he args ha hc
  obtain rfl := isFor_composeArgs_iff.mp hf
  exact project_composeArgs hp hv

/-- There can be a stack of any name. -/
theorem exists_stack (dir : FilePath) (name : ExperimentName) :
    ∃ fs : Fs, HasStack fs dir name = true := by
  obtain ⟨fs, hd, hn⟩ := Fs.exists_dir (dir.join name.str)
  obtain ⟨fs', h'⟩ := Fs.exists_put (dir.join name.str) "docker-compose.yml".toList
    (.file (.text [])) hd (by rw [hn]; simp)
  refine ⟨fs', ?_⟩
  rw [hasStack_eq, Fs.isFile, h', composeFile, Function.update_self]

/-- Stopping an experiment addresses a project. -/
theorem addresses_stop (project : List Str → Str) (paths : Paths) (name : ExperimentName) :
    Addresses project paths name (project (everythingArgs paths.experimentsDir name)) := by
  obtain ⟨fs, hs⟩ := exists_stack paths.experimentsDir name
  let t : List (Event Sys) := [⟨.status docker ["--version".toList], exited true⟩,
    ⟨.isFile (composeFile paths.experimentsDir name), true⟩,
    ⟨.status docker (everythingArgs paths.experimentsDir name), exited true⟩]
  have hret : Returns (stop 1 paths [⟨name, .none⟩]).run t (.ok ()) := by
    refine returns_call_iff.mpr ⟨_, _, rfl, ?_⟩
    refine returns_call_iff.mpr ⟨_, _, rfl, ?_⟩
    exact returns_call_iff.mpr ⟨_, _, rfl, .ret _⟩
  have hstop : Partial (Command.stop.run 1 paths [⟨name, .none⟩]).run t := hret.cut
  have hr : Env.Runs Fs.env fs t fs := .cons rfl (.cons ⟨rfl, hs.symm⟩ (.cons rfl (.nil _)))
  exact .intro (by simp) hstop hr
    (e := ⟨.status docker (everythingArgs paths.experimentsDir name), exited true⟩) (by simp [t])
    rfl (isFor_args_iff.mpr rfl)

end Addressed

/-- Starts and stops address different projects for two experiments exactly if edits do not lead
from the name of the one to that of the other. -/
theorem projectsDiffer_iff (hp : NamesByDirectory project) (paths : Paths)
    (name name' : ExperimentName) :
    ProjectsDiffer project paths name name' ↔ ¬ Confusable name.str name'.str := by
  rw [confusable_iff]
  constructor
  · intro h hc
    have haddr := addresses_stop project paths
    apply h _ _ (haddr name) (haddr name')
    rw [eq_of_addresses hp (haddr name), eq_of_addresses hp (haddr name'), hc]
  · intro h p p' ha ha' he
    rw [eq_of_addresses hp ha, eq_of_addresses hp ha'] at he
    exact h he

section Example

/-- The name that compose gives to a project. -/
def directoryProject (args : List Str) : Str :=
  projectName (baseName (((readFlags args.tail).1.lookup "--project-directory".toList).getD []))

theorem namesByDirectory_directoryProject : NamesByDirectory directoryProject := by
  intro args directory _ h
  rw [directoryProject, h]
  rfl

theorem projectsDiffer_mapping : ProjectsDiffer directoryProject rootPaths slam mapping := by
  apply (projectsDiffer_iff namesByDirectory_directoryProject rootPaths slam mapping).mpr
  rw [confusable_iff]
  decide

/-- A name in another case. -/
def slamUpper : ExperimentName := ⟨"Slam".toList, by decide, by decide, by decide⟩

/-- The case of a letter tells two experiments apart, but not their projects. -/
theorem not_projectsDiffer : ¬ ∀ (paths : Paths) (name name' : ExperimentName), name ≠ name' →
    ProjectsDiffer directoryProject paths name name' := by
  intro h
  have haddr := addresses_stop directoryProject rootPaths
  have heq : ∀ name : ExperimentName,
      directoryProject (everythingArgs rootPaths.experimentsDir name) = projectName name.str :=
    fun name => eq_of_addresses namesByDirectory_directoryProject (haddr name)
  apply h rootPaths slam slamUpper (by decide) _ _ (haddr slam) (haddr slamUpper)
  rw [heq, heq]
  decide

end Example

end RobotCtl.Experiments
