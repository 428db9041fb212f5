import RobotCtl.Experiments.Named

/-! # Stopping experiments

A stop tears down everything of an experiment unless it is narrowed to some
profiles. Merging the mentions of an experiment loses a mention without
profiles beside a narrowed one. Without targets, the sweep finds everything that
a start could have brought up.
-/

namespace RobotCtl.Experiments

open Text Conf Prog

variable {pid pid' : ℕ} {paths : Paths} {dir : FilePath} {name : ExperimentName}
  {targets selected swept : List Target} {m target : Target} {fallback : Fallback}
  {t : List (Event Sys)} {fs fs' : Fs} {r : Except Error Unit}

section Scope

/-- The arguments that tear down everything of an experiment. -/
def everythingArgs (dir : FilePath) (name : ExperimentName) : List Str := name.everything.args dir

/-- The arguments that tear down some profiles of an experiment. -/
def narrowedArgs (dir : FilePath) (name : ExperimentName) (names : List ProfileName) : List Str :=
  (name.narrowed names).args dir

/-- The arguments are for the compose file of the experiment. -/
def IsFor (dir : FilePath) (name : ExperimentName) (args : List Str) : Prop :=
  ["compose".toList, "-f".toList,
    ((dir.join name.str).join "docker-compose.yml".toList).display] <+: args

instance (dir : FilePath) (name : ExperimentName) (args : List Str) :
    Decidable (IsFor dir name args) :=
  inferInstanceAs (Decidable (_ <+: _))

/-- The arguments tear down what the target asks for: everything, or the profiles it names. -/
def Includes (dir : FilePath) (target : Target) (args : List Str) : Prop :=
  match target.profiles with
  | .named names => args = everythingArgs dir target.name ∨
      ∃ names', args = narrowedArgs dir target.name names' ∧ ∀ n ∈ names, n ∈ names'
  | _ => args = everythingArgs dir target.name

/-- For every target there is one command, and it includes what the target asks for. -/
def StopsAll (paths : Paths) (targets : List Target) (t : List (Event Sys)) : Prop :=
  ∀ target ∈ targets, ∃ args reply,
    (composeCalls t).filter (IsFor paths.experimentsDir target.name ·.1) = [(args, reply)] ∧
    Includes paths.experimentsDir target args

/-- An experiment mentioned without profiles is mentioned with all of them too, or never
narrowed. -/
def NotNarrowed (targets : List Target) : Prop :=
  ∀ target ∈ targets, target.profiles = .none →
    (∃ other ∈ targets, other.name = target.name ∧ other.profiles = .all) ∨
    ∀ other ∈ targets, other.name = target.name → ∀ names, other.profiles ≠ .named names

/-- The compose files of different experiments are displayed differently. -/
theorem composeFile_display_inj {name' : ExperimentName}
    (h : (composeFile dir name).display = (composeFile dir name').display) : name = name' := by
  simp only [composeFile, FilePath.display, FilePath.join, List.append_assoc,
    List.append_eq_nil_iff, List.cons_ne_nil, and_false, if_false, List.flatMap_append,
    List.flatMap_cons, List.append_cancel_left_eq, List.cons_append, List.nil_append,
    List.cons.injEq, true_and, List.flatMap_nil, List.append_nil,
    List.append_cancel_right_eq] at h
  exact ExperimentName.ext h

theorem isFor_args_iff {name' : ExperimentName} {profiles verb : List Str} :
    IsFor dir name (Request.args dir ⟨name'.str, profiles, verb⟩) ↔ name = name' := by
  constructor
  · rintro ⟨rest, h⟩
    simp only [Request.args, List.cons_append, List.cons.injEq, true_and] at h
    exact composeFile_display_inj h.1
  · rintro rfl
    exact ⟨_, rfl⟩

theorem isFor_composeArgs_iff {name' : ExperimentName} {profiles : Profiles} {verb : List Str} :
    IsFor dir name (composeArgs dir name' profiles verb) ↔ name = name' := by
  rw [composeArgs_eq, isFor_args_iff]

theorem isFor_stopArgs_iff : IsFor dir name (stopArgs dir m) ↔ name = m.name := by
  rw [stopArgs, Target.stopRequest_eq, isFor_args_iff]

theorem everythingArgs_eq (dir : FilePath) (name : ExperimentName) : everythingArgs dir name =
    composeArgs dir name .all ["down".toList, "--remove-orphans".toList] :=
  (composeArgs_eq dir name .all _).symm

theorem stopArgs_of_named {names : List ProfileName} (h : m.profiles = .named names) :
    stopArgs dir m = narrowedArgs dir m.name names := by
  rw [stopArgs, Target.stopRequest, h, narrowedArgs]

theorem stopArgs_of_not_named (h : ∀ names, m.profiles ≠ .named names) :
    stopArgs dir m = everythingArgs dir m.name := by
  rw [stopArgs, Target.stopRequest, everythingArgs]
  cases hp : m.profiles with
  | named names => exact absurd hp (h names)
  | _ => rfl

theorem narrowedArgs_ne_everythingArgs (names : List ProfileName) :
    narrowedArgs dir name names ≠ everythingArgs dir name := by
  intro h
  have hl := congrArg List.getLast? h
  simp only [narrowedArgs, everythingArgs, ExperimentName.narrowed, ExperimentName.everything,
    Request.args, List.getLast?_append] at hl
  have hv : "down".toList = "--remove-orphans".toList := Option.some.inj hl
  exact absurd hv (by decide)

/-- The command for a merged target includes what a mention asks for, unless the mention has no
profiles and another one narrows the target. -/
theorem includes_stopArgs_iff (ht : target ∈ targets) (hm : m ∈ mergeDuplicates targets)
    (hn : m.name = target.name) : Includes dir target (stopArgs dir m) ↔
      (target.profiles = .none →
        (∃ other ∈ targets, other.name = target.name ∧ other.profiles = .all) ∨
        ∀ other ∈ targets, other.name = target.name → ∀ names, other.profiles ≠ .named names) := by
  have hall := mergeDuplicates_all_iff hm
  have hnone := mergeDuplicates_none_iff hm
  rw [hn] at hall hnone
  unfold Includes
  cases hp : target.profiles with
  | all =>
    have hma : m.profiles = .all := hall.mpr ⟨target, ht, rfl, hp⟩
    have hargs : stopArgs dir m = everythingArgs dir m.name :=
      stopArgs_of_not_named fun names => by rw [hma]; nofun
    exact iff_of_true (hn ▸ hargs) nofun
  | named names =>
    refine iff_of_true ?_ nofun
    by_cases hma : ∀ names', m.profiles ≠ .named names'
    · exact Or.inl (by rw [stopArgs_of_not_named hma, hn])
    · simp only [not_forall, not_not] at hma
      obtain ⟨names', hma⟩ := hma
      refine Or.inr ⟨names', by rw [stopArgs_of_named hma, hn], fun n hmem => ?_⟩
      have hin : n ∈ m.profiles.names := (mem_names_mergeDuplicates hm (by rw [hma]; nofun)).mpr
        ⟨target, ht, hn.symm, by rw [hp]; exact hmem⟩
      rw [hma] at hin
      exact hin
  | none =>
    simp only [true_imp_iff]
    constructor
    · intro h
      by_cases hma : m.profiles = .none
      · refine Or.inr fun other ho hon names hc => ?_
        rw [hnone.mp hma other ho hon] at hc
        cases hc
      · cases hmp : m.profiles with
        | none => exact absurd hmp hma
        | all => exact Or.inl (hall.mp hmp)
        | named names =>
          rw [stopArgs_of_named hmp, hn] at h
          exact absurd h (narrowedArgs_ne_everythingArgs names)
    · intro h
      rw [stopArgs_of_not_named, hn]
      intro names hmp
      rcases h with ho | ho
      · rw [hall.mpr ho] at hmp
        cases hmp
      · have hma : ∀ other ∈ targets, other.name = target.name → other.profiles = .none := by
          intro other hmem hon
          cases hop : other.profiles with
          | none => rfl
          | all => rw [hall.mpr ⟨other, hmem, hon, hop⟩] at hmp; cases hmp
          | named names' => exact absurd hop (ho other hmem hon names')
        rw [hnone.mpr hma] at hmp
        cases hmp

/-- A stop of merged targets has one command for each of their names. -/
theorem filter_isFor_composeCalls {outcomes : List Outcome} {w : Outcome}
    (hn : (outcomes.map (·.1.name)).Nodup) (hw : w ∈ outcomes)
    (hc : composeCalls t = outcomes.map fun w => (stopArgs dir w.1, w.2)) :
    (composeCalls t).filter (IsFor dir w.1.name ·.1) = [(stopArgs dir w.1, w.2)] := by
  have hf := Grouping.filter_key_of_nodup hn hw
  have hp : ((fun call : List Str × Io ExitStatus => decide (IsFor dir w.1.name call.1)) ∘
      fun w : Outcome => (stopArgs dir w.1, w.2)) = fun v => decide (v.1.name = w.1.name) := by
    funext v
    simp only [Function.comp_apply, isFor_stopArgs_iff, eq_comm]
  rw [hc, List.filter_map, hp, hf, List.map_singleton]

/-- A stop of experiments that are all there tears down what each of its targets asks for exactly
if no mention without profiles stands beside narrowed ones only. -/
theorem stopsAll_iff (hne : targets ≠ []) (hd : DockerFound t)
    (hfiles : ∀ target ∈ targets, HasStack fs paths.experimentsDir target.name = true)
    (h : Returns (stop pid paths targets).run t r) (hr : Env.Runs Fs.env fs t fs') :
    StopsAll paths targets t ↔ NotNarrowed targets := by
  have hnone := missingNames_eq_nil_iff.mpr hfiles
  rcases returns_stop h with ⟨err, hp, rfl⟩ |
    ⟨dir, selected, t₁, t₂, outcomes, rfl, hp, hs, hc, -⟩
  · exact absurd hnone (refused_of_prepare hne hd hp hr).1
  obtain ⟨u, hr₁, -⟩ := Env.runs_append_iff.mp hr
  obtain ⟨-, rfl, rfl⟩ := selected_of_prepare hne hd.left hp hr₁
  have hn : (outcomes.map (·.1.name)).Nodup := by
    have hnames := mergeDuplicates_nodup targets
    rwa [← hs, List.map_map] at hnames
  refine forall₂_congr fun target ht => ?_
  obtain ⟨m, hm, hmn⟩ := exists_mem_mergeDuplicates ht
  obtain ⟨w, hw, rfl⟩ : ∃ w ∈ outcomes, w.1 = m := by
    rw [← hs] at hm
    exact List.mem_map.mp hm
  have hinc : Includes paths.experimentsDir target (stopArgs paths.experimentsDir w.1) ↔ _ :=
    includes_stopArgs_iff ht hm hmn
  rw [← hinc, ← hmn, filter_isFor_composeCalls hn hw hc]
  constructor
  · rintro ⟨args, reply, he, hi⟩
    cases he
    exact hi
  · exact fun hi => ⟨_, _, rfl, hi⟩

def debug : ProfileName := ⟨"debug".toList, ⟨'d', "ebug".toList, rfl, by decide⟩, by decide⟩

/-- A stop of one experiment. -/
def stopTrace (request : Request) : List (Event Sys) :=
  [⟨.status docker ["--version".toList], exited true⟩,
    ⟨.isFile (composeFile rootPaths.experimentsDir slam), true⟩,
    ⟨.status docker (request.args rootPaths.experimentsDir), exited true⟩]

theorem runs_stopTrace (request : Request) (h : HasStack fs rootPaths.experimentsDir slam = true) :
    Env.Runs Fs.env fs (stopTrace request) fs :=
  .cons rfl (.cons ⟨rfl, h.symm⟩ (.cons rfl (.nil _)))

theorem dockerFound_stopTrace (request : Request) : DockerFound (stopTrace request) := by
  simp [DockerFound, stopTrace, exited, Request.args]

/-- Of mentions that are all narrowed the command has all profiles, and of others it has
everything. -/
theorem stopsAll_gpu :
    StopsAll rootPaths [⟨slam, .named [gpu]⟩, ⟨slam, .named [debug]⟩]
      (stopTrace (slam.narrowed [gpu, debug])) ∧
    StopsAll rootPaths [⟨slam, .none⟩, ⟨slam, .named [gpu]⟩, ⟨slam, .all⟩]
      (stopTrace slam.everything) := by
  obtain ⟨fs, hs, -, -⟩ := exists_withSlam (.text [])
  constructor
  · have hret : Returns (stop 1 rootPaths [⟨slam, .named [gpu]⟩, ⟨slam, .named [debug]⟩]).run
        (stopTrace (slam.narrowed [gpu, debug])) (.ok ()) := by
      refine returns_call_iff.mpr ⟨_, _, rfl, ?_⟩
      refine returns_call_iff.mpr ⟨_, _, rfl, ?_⟩
      exact returns_call_iff.mpr ⟨_, _, rfl, .ret _⟩
    refine (stopsAll_iff (by simp) (dockerFound_stopTrace _) (by simpa using hs) hret
      (runs_stopTrace _ hs)).mpr ?_
    simp [NotNarrowed]
  · have hret : Returns (stop 1 rootPaths [⟨slam, .none⟩, ⟨slam, .named [gpu]⟩, ⟨slam, .all⟩]).run
        (stopTrace slam.everything) (.ok ()) := by
      refine returns_call_iff.mpr ⟨_, _, rfl, ?_⟩
      refine returns_call_iff.mpr ⟨_, _, rfl, ?_⟩
      exact returns_call_iff.mpr ⟨_, _, rfl, .ret _⟩
    refine (stopsAll_iff (by simp) (dockerFound_stopTrace _) (by simpa using hs) hret
      (runs_stopTrace _ hs)).mpr ?_
    simp [NotNarrowed]

/-- A stop of everything of an experiment beside a narrowed one is narrowed. -/
theorem not_stopsAll : ¬ ∀ (pid : ℕ) (paths : Paths) (specs : List Str) (targets : List Target)
    (fs fs' : Fs) (t : List (Event Sys)) (r : Except Error Unit), targets ≠ [] →
    specs.map Target.parse = targets.map .ok → DockerFound t →
    (∀ target ∈ targets, HasStack fs paths.experimentsDir target.name = true) →
    Returns (stop pid paths targets).run t r → Env.Runs Fs.env fs t fs' →
    StopsAll paths targets t := by
  intro h
  obtain ⟨fs, hs, -, -⟩ := exists_withSlam (.text [])
  have hret : Returns (stop 1 rootPaths [⟨slam, .none⟩, ⟨slam, .named [gpu]⟩]).run
      (stopTrace (slam.narrowed [gpu])) (.ok ()) := by
    refine returns_call_iff.mpr ⟨_, _, rfl, ?_⟩
    refine returns_call_iff.mpr ⟨_, _, rfl, ?_⟩
    exact returns_call_iff.mpr ⟨_, _, rfl, .ret _⟩
  have hparse : ["slam".toList, "slam:gpu".toList].map Target.parse =
      [⟨slam, .none⟩, ⟨slam, .named [gpu]⟩].map .ok := by rfl
  obtain ⟨args, reply, hf, hi⟩ := h 1 rootPaths _ _ fs fs _ _ (by simp) hparse
    (dockerFound_stopTrace _) (by simpa using hs) hret (runs_stopTrace _ hs) ⟨slam, .none⟩ (by simp)
  have hmem : (args, reply) ∈ composeCalls (stopTrace (slam.narrowed [gpu])) :=
    (List.mem_filter.mp (hf ▸ List.mem_singleton_self _)).1
  obtain ⟨rfl, -⟩ := Prod.mk.inj (List.mem_singleton.mp hmem)
  exact narrowedArgs_ne_everythingArgs [gpu] hi

end Scope

end RobotCtl.Experiments
