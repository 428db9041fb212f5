import RobotCtl.Experiments.Listing

/-! # Arguments of compose

Names of experiments and profiles come from `enabled.conf`, from the command
line and from directories, and all of them end up among the arguments of
compose. None of them leaves the experiments directory there, and none is read
as an option.
-/

namespace RobotCtl.Experiments

open Text Conf Prog

/-- The commands that ask compose for something. -/
inductive Invocation where
  | act (command : Command) (targets : List Target)
  | list

namespace Invocation

def run (pid : ℕ) (paths : Paths) : Invocation → Fallible Unit
  | act command targets => command.run pid paths targets
  | list => Experiments.list paths

/-- The verbs of its compose commands, each with its options. -/
def verbs : Invocation → List (List Str)
  | act (.start _) _ =>
    [["pull".toList, "--quiet".toList], ["up".toList, "-d".toList, "--remove-orphans".toList]]
  | act .stop _ => [["down".toList], ["down".toList, "--remove-orphans".toList]]
  | act .status _ => [["ps".toList]]
  | list => [["config".toList, "--profiles".toList]]

end Invocation

/-- One component of a path that is neither relative nor hidden. -/
structure IsComponent (name : Str) : Prop where
  ne_nil : name ≠ []
  not_relative : name ≠ ['.'] ∧ name ≠ ['.', '.']
  not_hidden : name.head? ≠ some '.'
  no_separator : '/' ∉ name ∧ Char.ofNat 92 ∉ name

namespace Request

/-- The flags of compose among the arguments, with their values. -/
def flags (dir : FilePath) (request : Request) : List (Str × Str) :=
  ("-f".toList, request.file dir) :: ("--project-directory".toList, request.directory dir) ::
    request.profiles.map fun profile => ("--profile".toList, profile)

structure WellFormed (verbs : List (List Str)) (request : Request) : Prop where
  name : IsComponent request.name
  profiles : ∀ profile ∈ request.profiles, profile = ['*'] ∨
    ∃ first rest, profile = first :: rest ∧ isAlphanumeric first = true
  verb : request.verb ∈ verbs

end Request

/-- Read flags with a value each, up to the first argument that is not a flag. -/
def readFlags : List Str → List (Str × Str) × List Str
  | flag :: value :: rest =>
    if flag.head? = some '-' then
      let (flags, verb) := readFlags rest
      ((flag, value) :: flags, verb)
    else ([], flag :: value :: rest)
  | rest => ([], rest)

/-- The arguments with which a call runs docker. -/
def dockerArgs : SysOp → Option (List Str)
  | .status program args | .output program args | .spawn program args =>
    if program = "docker".toList then some args else none
  | _ => none

variable {pid : ℕ} {paths : Paths} {dir : FilePath} {invocation : Invocation}
  {verb args : List Str} {verbs : List (List Str)} {request other : Request} {o : SysOp}
  {t : List (Event Sys)} {e : Event Sys}

theorem pullVerb_mem (options : StartOptions) (targets : List Target) :
    pullVerb ∈ (Invocation.act (.start options) targets).verbs := List.mem_cons_self

theorem upVerb_mem (options : StartOptions) (targets : List Target) :
    upVerb ∈ (Invocation.act (.start options) targets).verbs :=
  List.mem_cons_of_mem _ List.mem_cons_self

section Read

theorem display_join (dir : FilePath) (name : Str) :
    (dir.join name).display = dir.flatMap ('/' :: ·) ++ '/' :: name := by
  simp [FilePath.display, FilePath.join]

theorem display_join_inj {a b : Str} (h : (dir.join a).display = (dir.join b).display) :
    a = b := by
  rw [display_join, display_join, List.append_cancel_left_eq] at h
  exact List.tail_eq_of_cons_eq h

theorem head?_display (path : FilePath) : path.display.head? = some '/' := by
  cases path with
  | nil => rfl
  | cons name path => rfl

/-- The value of a flag is not taken for a flag. -/
theorem head?_value (h : request.WellFormed verbs) :
    ∀ flag ∈ request.flags dir, flag.2.head? ≠ some '-' := by
  have hpath : ∀ path : FilePath, path.display.head? ≠ some '-' := fun path => by
    rw [head?_display]
    decide
  have hprofile : ∀ profile ∈ request.profiles, profile.head? ≠ some '-' := by
    intro profile hm hc
    rcases h.profiles profile hm with rfl | ⟨first, rest, rfl, hf⟩
    · exact absurd hc (by decide)
    · obtain rfl : first = '-' := Option.some.inj hc
      exact absurd hf (by decide)
  simp only [Request.flags, List.forall_mem_cons, List.forall_mem_map]
  exact ⟨hpath _, hpath _, hprofile⟩

theorem readFlags_verb (invocation : Invocation) :
    ∀ verb ∈ invocation.verbs, readFlags verb = ([], verb) := by
  match invocation with
  | .act (.start _) _ =>
    show ∀ verb ∈ [pullVerb, upVerb], readFlags verb = ([], verb)
    decide
  | .act .stop _ =>
    show ∀ verb ∈ [["down".toList], ["down".toList, "--remove-orphans".toList]],
      readFlags verb = ([], verb)
    decide
  | .act .status _ =>
    show ∀ verb ∈ [["ps".toList]], readFlags verb = ([], verb)
    decide
  | .list =>
    show ∀ verb ∈ [configVerb], readFlags verb = ([], verb)
    decide

theorem readFlags_profiles (profiles : List Str) (h : readFlags verb = ([], verb)) :
    readFlags (profiles.flatMap (fun profile => ["--profile".toList, profile]) ++ verb) =
      (profiles.map fun profile => ("--profile".toList, profile), verb) := by
  induction profiles with
  | nil => exact h
  | cons profile profiles ih =>
    simp only [List.flatMap_cons, List.cons_append, List.nil_append]
    rw [readFlags, if_pos (by decide), ih]
    rfl

/-- Reading the flags gives them and the verb back. -/
theorem readFlags_args (dir : FilePath) (h : request.WellFormed invocation.verbs) :
    readFlags (request.args dir).tail = (request.flags dir, request.verb) := by
  have hv := readFlags_profiles request.profiles (readFlags_verb invocation _ h.verb)
  simp only [Request.args, List.cons_append, List.nil_append, List.tail_cons]
  rw [readFlags, if_pos (by decide), readFlags, if_pos (by decide), hv]
  rfl

theorem flags_inj (h : request.flags dir = other.flags dir) :
    request.name = other.name ∧ request.profiles = other.profiles := by
  have hpair : Function.Injective fun profile : Str => ("--profile".toList, profile) :=
    fun _ _ he => (Prod.mk.inj he).2
  obtain ⟨-, h⟩ := List.cons.inj h
  obtain ⟨hd, hp⟩ := List.cons.inj h
  exact ⟨display_join_inj (Prod.mk.inj hd).2, List.map_injective_iff.mpr hpair hp⟩

/-- No two requests have the same arguments. -/
theorem args_inj {invocation' : Invocation} (h : request.WellFormed invocation.verbs)
    (h' : other.WellFormed invocation'.verbs) (he : request.args dir = other.args dir) :
    request = other := by
  have hr := readFlags_args dir h
  rw [he, readFlags_args dir h'] at hr
  obtain ⟨hflags, hverb⟩ := Prod.mk.inj hr
  obtain ⟨hname, hprofiles⟩ := flags_inj hflags
  exact Request.ext hname.symm hprofiles.symm hverb.symm

end Read

section Uses

/-- The call asks compose for one of the verbs on one experiment, or does not run compose. -/
def Asks (dir : FilePath) (verbs : List (List Str)) (o : SysOp) : Prop :=
  ∀ args, dockerArgs o = some args → args.head? = some "compose".toList →
    ∃ name profiles, ∃ verb ∈ verbs, args = composeArgs dir name profiles verb

theorem SetupCall.asks (h : SetupCall o) : Asks dir verbs o := by
  intro args ha hc
  cases o with
  | status program args' =>
    obtain ⟨rfl, rfl⟩ := h
    obtain rfl : ["--version".toList] = args := Option.some.inj ha
    exact absurd hc (by decide)
  | output | spawn => exact h.elim
  | _ => cases ha

theorem asks_status (name : ExperimentName) (profiles : Profiles) (h : verb ∈ verbs) :
    Asks dir verbs (.status docker (composeArgs dir name profiles verb)) := by
  intro args ha _
  obtain rfl : composeArgs dir name profiles verb = args := Option.some.inj ha
  exact ⟨name, profiles, verb, h, rfl⟩

theorem asks_output (name : ExperimentName) (profiles : Profiles) (h : verb ∈ verbs) :
    Asks dir verbs (.output docker (composeArgs dir name profiles verb)) := by
  intro args ha _
  obtain rfl : composeArgs dir name profiles verb = args := Option.some.inj ha
  exact ⟨name, profiles, verb, h, rfl⟩

theorem compose_asks (name : ExperimentName) (profiles : Profiles) (h : verb ∈ verbs) :
    (compose dir name profiles verb).run.Uses (Asks dir verbs) :=
  ⟨asks_status name profiles h, fun _ => trivial⟩

theorem startOne_asks (dir : FilePath) (ignore : Bool) (failed : List Str) (target : Target) :
    (startOne dir ignore failed target).Uses (Asks dir [pullVerb, upVerb]) := by
  refine (compose_asks _ _ (by simp)).bind fun pulled => ?_
  split
  · trivial
  · refine (compose_asks _ _ (by simp)).bind fun started => ?_
    split
    · trivial
    · trivial

theorem stopOne_asks (dir : FilePath) (failed : List Str) (target : Target) :
    (stopOne dir failed target).Uses (Asks dir (Invocation.act .stop []).verbs) := by
  have hv : (stopPlan target.profiles).2 ∈ (Invocation.act .stop []).verbs := by
    cases target.profiles <;> simp [stopPlan, Invocation.verbs]
  refine (compose_asks _ _ hv).bind fun stopped => ?_
  split
  · trivial
  · trivial

theorem statusOne_asks (dir : FilePath) (target : Target) :
    (statusOne dir target).Uses (Asks dir [["ps".toList]]) :=
  ⟨fun _ ha => (by cases ha), fun _ => (compose_asks _ _ (by simp)).bind fun _ => trivial⟩

theorem listRow_asks (dir : FilePath) (enabled : List Target) (name : ExperimentName) :
    (listRow dir enabled name).Uses (Asks dir [configVerb]) := by
  have hcolumn : (availableColumn dir name).Uses (Asks dir [configVerb]) := by
    refine ⟨fun _ ha => (by cases ha), fun isFile => ?_⟩
    cases isFile with
    | false => trivial
    | true => exact ⟨asks_output name .none (by simp), fun _ => trivial⟩
  exact hcolumn.bind fun _ => trivial

theorem printLines_asks (ls : List Str) : (printLines ls).Uses (Asks dir verbs) := by
  induction ls with
  | nil => trivial
  | cons l ls ih => exact ⟨fun _ ha => (by cases ha), fun _ => ih⟩

/-- Every command asks compose for its own verbs only. -/
theorem asks_of_partial (h : Partial (invocation.run pid paths).run t) :
    ∀ e ∈ t, Asks paths.experimentsDir invocation.verbs e.1 := by
  have hprepare : ∀ targets fallback verbs,
      (prepare pid paths targets fallback).run.Uses (Asks paths.experimentsDir verbs) :=
    fun targets fallback verbs => (prepare_setup _ _ _ _).mono fun _ => SetupCall.asks
  match invocation with
  | .act (.start options) targets =>
    have h : Partial (start pid paths targets options).run t := h
    rw [start_eq] at h
    refine Uses.cut_try_bind (hprepare _ _ _) ?_ h
    rintro _ ⟨dir, selected⟩ hp
    obtain rfl := dir_of_prepare hp
    have hsettings : (startSettings pid paths options).run.Uses
        (Asks paths.experimentsDir [pullVerb, upVerb]) :=
      (startSettings_setup pid paths options).mono fun _ => SetupCall.asks
    exact hsettings.try_bind fun ignore => Uses.lift_bind
      (Uses.foldlM_prog (startOne_asks paths.experimentsDir ignore)) fun _ => trivial
  | .act .stop targets =>
    have h : Partial (stop pid paths targets).run t := h
    rw [stop_eq] at h
    refine Uses.cut_try_bind (hprepare _ _ _) ?_ h
    rintro _ ⟨dir, selected⟩ hp
    obtain rfl := dir_of_prepare hp
    exact Uses.lift_bind (Uses.foldlM_prog (stopOne_asks paths.experimentsDir)) fun _ => trivial
  | .act .status targets =>
    have h : Partial (status pid paths targets).run t := h
    rw [status_eq] at h
    refine Uses.cut_try_bind (hprepare _ _ _) ?_ h
    rintro _ ⟨dir, selected⟩ hp
    obtain rfl := dir_of_prepare hp
    exact (Uses.foldlM_prog fun _ => statusOne_asks paths.experimentsDir).bind fun _ => trivial
  | .list =>
    refine Uses.cut ?_ h
    refine ((readOptional_setup _).mono fun _ => SetupCall.asks).try_bind fun existing => ?_
    refine ((onDisk_setup _).mono fun _ => SetupCall.asks).try_bind fun found => ?_
    by_cases hnames : listNames (enabledOf existing) found = []
    · rw [if_pos hnames]
      trivial
    · rw [if_neg hnames]
      exact Uses.lift_bind (Uses.mapM_prog (listRow_asks _ _)) fun rows =>
        (printLines_asks _).bind fun _ => trivial

end Uses

theorem ExperimentName.isComponent (name : ExperimentName) : IsComponent name.str := by
  have hsep : ∀ c, isNameChar c = false → c ∉ name.str := fun c hf hm => by
    rw [name.chars c hm] at hf
    cases hf
  constructor
  · exact name.ne_nil
  · constructor
    · exact fun h => name.head_ne (by rw [h]; rfl)
    · exact fun h => name.head_ne (by rw [h]; rfl)
  · exact name.head_ne
  · exact ⟨hsep _ (by decide), hsep _ (by decide)⟩

/-- What the values of the profile flags look like. -/
theorem requested_start (profiles : Profiles) : ∀ value ∈ profiles.requested,
    value = allProfiles ∨ ∃ first rest, value = first :: rest ∧ isAlphanumeric first = true := by
  cases profiles with
  | none => simp [Profiles.requested]
  | all => simp [Profiles.requested, allProfiles]
  | named names =>
    intro value hm
    obtain ⟨name, -, rfl⟩ := List.mem_map.mp hm
    exact Or.inr name.start

/-- The request that is made for an experiment. -/
theorem exists_request (dir : FilePath) (name : ExperimentName) (profiles : Profiles)
    (hv : verb ∈ invocation.verbs) : ∃ request : Request, request.WellFormed invocation.verbs ∧
      request.name = name.str ∧ composeArgs dir name profiles verb = request.args dir :=
  ⟨⟨name.str, profiles.requested, verb⟩, ⟨name.isComponent, requested_start profiles, hv⟩, rfl,
    composeArgs_eq dir name profiles verb⟩

/-- Whatever the files say and whatever is named, the arguments of compose are those of exactly one
request: for one directory below the experiments directory, with names of profiles and a verb of
the command. Reading the flags finds these and their values, and no value starts like a flag. -/
theorem request_of_args (h : Partial (invocation.run pid paths).run t) (he : e ∈ t)
    (ha : dockerArgs e.1 = some args) (hc : args.head? = some "compose".toList) :
    ∃ request : Request, request.WellFormed invocation.verbs ∧
      args = request.args paths.experimentsDir ∧
      readFlags args.tail = (request.flags paths.experimentsDir, request.verb) ∧
      (∀ flag ∈ request.flags paths.experimentsDir, flag.2.head? ≠ some '-') ∧
      ∀ (other : Request) (invocation' : Invocation), other.WellFormed invocation'.verbs →
        args = other.args paths.experimentsDir → other = request := by
  obtain ⟨name, profiles, verb, hverb, rfl⟩ := asks_of_partial h e he args ha hc
  obtain ⟨request, hw, -, hargs⟩ := exists_request paths.experimentsDir name profiles hverb
  rw [hargs]
  exact ⟨request, hw, rfl, readFlags_args _ hw, head?_value hw, fun other invocation' ho heq =>
    (args_inj hw ho heq).symm⟩

/-- A start of one experiment. -/
theorem request_of_slamTrace : ∃ request : Request,
    composeArgs rootPaths.experimentsDir slam .none pullVerb =
      request.args rootPaths.experimentsDir ∧ request.verb ∈ [pullVerb, upVerb] := by
  have h : Partial ((Invocation.act (.start ⟨none⟩) [⟨slam, .none⟩]).run 1 rootPaths).run
      slamTrace := returns_slamTrace.cut
  obtain ⟨request, hw, hargs, -⟩ := request_of_args h (e := ⟨.status docker
    (composeArgs rootPaths.experimentsDir slam .none pullVerb), exited false⟩)
    (by simp [slamTrace]) rfl rfl
  exact ⟨request, hargs, hw.verb⟩

end RobotCtl.Experiments
