import RobotCtl.Experiments.Requests

/-! # Runs of the experiment commands

A command asks compose for nothing before its targets are selected, and then
once or twice for each of them. What a run asks compose for, and the replies it
gets, are read off its trace.
-/

namespace RobotCtl.Experiments

open Text Conf Prog

/-- The call is not a compose command. -/
def Quiet : SysOp → Prop
  | .status program args => ¬ (program = "docker".toList ∧ args.head? = some "compose".toList)
  | _ => True

/-- The arguments of a compose command, and the reply to it. -/
def composeCall : Event Sys → Option (List Str × Io ExitStatus)
  | ⟨.status program args, reply⟩ =>
    if program = "docker".toList ∧ args.head? = some "compose".toList then some (args, reply)
    else none
  | _ => none

/-- The compose commands of a trace, in order. -/
def composeCalls (t : List (Event Sys)) : List (List Str × Io ExitStatus) :=
  t.filterMap composeCall

/-- The compose command was run and exited well. -/
def Succeeded : Io ExitStatus → Bool
  | .ok status => status.success
  | .error _ => false

variable {pid : ℕ} {paths : Paths} {dir : FilePath} {name : ExperimentName} {profiles : Profiles}
  {verb : List Str} {targets selected : List Target} {t : List (Event Sys)}

@[simp] theorem composeCalls_append (t t' : List (Event Sys)) :
    composeCalls (t ++ t') = composeCalls t ++ composeCalls t' := List.filterMap_append

theorem composeCalls_flatMap {ω : Type} (events : ω → List (Event Sys)) (ws : List ω) :
    composeCalls (ws.flatMap events) = ws.flatMap fun w => composeCalls (events w) :=
  List.filterMap_flatMap

theorem composeCalls_eq_nil {α : Type} {p : Prog Sys α} {a : α} (hp : p.Uses Quiet)
    (h : Returns p t a) : composeCalls t = [] := by
  refine List.filterMap_eq_nil_iff.mpr fun e he => ?_
  have hq := hp.returns h e he
  obtain ⟨o, reply⟩ := e
  cases o with
  | status program args => exact if_neg hq
  | _ => rfl

theorem isOk_composeResult (verb : List Str) (reply : Io ExitStatus) :
    (composeResult verb reply).isOk = Succeeded reply := by
  cases reply with
  | error e => rfl
  | ok status => cases h : status.success <;> simp [composeResult, Succeeded, h] <;> rfl

theorem returns_compose_iff {r : Except Error Unit} :
    Returns (compose dir name profiles verb).run t r ↔
      ∃ reply,
        t = [⟨.status docker (Request.args dir ⟨name.str, profiles.requested, verb⟩), reply⟩] ∧
        r = composeResult verb reply := by
  simp only [compose, ExceptT.run_mk, Sys.status, call_bind, ret_bind, returns_call_iff,
    returns_ret_iff]
  constructor
  · rintro ⟨x, _, ht, rfl, hr⟩; exact ⟨x, ht, hr⟩
  · rintro ⟨x, ht, hr⟩; exact ⟨x, [], ht, rfl, hr⟩

section Setup

/-- The call runs no program, or asks docker for its version. -/
def SetupCall : SysOp → Prop
  | .status program args => program = docker ∧ args = ["--version".toList]
  | .output _ _ | .spawn _ _ => False
  | _ => True

/-- The call looks at directories and tests for files. -/
def ScanCall : SysOp → Prop
  | .readDir _ | .isFile _ => True
  | _ => False

theorem SetupCall.quiet {o : SysOp} (h : SetupCall o) : Quiet o := by
  cases o with
  | status program args =>
    obtain ⟨rfl, rfl⟩ := h
    rintro ⟨-, hc⟩
    exact absurd hc (by decide)
  | _ => trivial

theorem FileCall.setup {o : SysOp} (h : FileCall o) : SetupCall o := by
  cases o <;> trivial

theorem ScanCall.setup {o : SysOp} (h : ScanCall o) : SetupCall o := by
  cases o <;> trivial

theorem readOptional_setup (path : FilePath) : (readOptional path).run.Uses SetupCall :=
  (readOptional_uses path).mono fun _ => FileCall.setup

theorem ensureFile_setup (pid : ℕ) (path : FilePath) (template : Str) :
    (ensureFile pid path template).run.Uses SetupCall := by
  refine ⟨trivial, fun b => ?_⟩
  cases b
  · have hw := writeAtomically_uses pid path template
    exact (hw.mono fun _ => FileCall.setup).bind fun _ => trivial
  · trivial

theorem filterFiles_setup (dir : FilePath) (want : Bool) (targets : List Target) :
    (filterFiles dir want targets).Uses SetupCall := by
  induction targets with
  | nil => trivial
  | cons target targets ih => exact ⟨trivial, fun _ => ih.bind fun _ => trivial⟩

theorem enabledTargets_setup (pid : ℕ) (dir : FilePath) :
    (enabledTargets pid dir).run.Uses SetupCall :=
  (ensureFile_setup _ _ _).try_bind fun _ => (readOptional_setup _).try_bind fun _ =>
    (filterFiles_setup _ _ _).bind fun _ => trivial

theorem onDiskEntry_uses (dir : FilePath) (names : List ExperimentName) (entry : Io (Option Str)) :
    (onDiskEntry dir names entry).run.Uses ScanCall := by
  unfold onDiskEntry
  split
  · trivial
  · trivial
  · split
    · trivial
    · exact ⟨trivial, fun b => by cases b <;> trivial⟩

theorem onDisk_uses (dir : FilePath) : (onDisk dir).run.Uses ScanCall := by
  apply Uses.lift_bind (p := Sys.readDir dir) ⟨trivial, fun _ => trivial⟩
  rintro (e | entries)
  · simp only
    split
    · trivial
    · trivial
  · exact Uses.try_bind (Uses.foldlM (onDiskEntry_uses dir)) fun _ => trivial

theorem onDisk_setup (dir : FilePath) : (onDisk dir).run.Uses SetupCall :=
  (onDisk_uses dir).mono fun _ => ScanCall.setup

theorem select_setup (pid : ℕ) (paths : Paths) (targets : List Target) (fallback : Fallback) :
    (select pid paths targets fallback).run.Uses SetupCall := by
  unfold select
  split
  · refine (filterFiles_setup _ _ _).lift_bind fun missing => ?_
    split
    · trivial
    · trivial
  · cases fallback
    · exact (enabledTargets_setup _ _).try_bind fun _ => trivial
    · exact (onDisk_setup _).try_bind fun _ => trivial

theorem requireDocker_setup : requireDocker.run.Uses SetupCall := by
  apply Uses.try_bind (uses_orFail (p := Sys.status docker ["--version".toList]) ⟨?_, ?_⟩)
  · exact fun _ => trivial
  · exact ⟨rfl, rfl⟩
  · exact fun _ => trivial

end Setup

/-- What every command does first: find docker, and select its targets. -/
def prepare (pid : ℕ) (paths : Paths) (targets : List Target) (fallback : Fallback) :
    Fallible (FilePath × List Target) := do
  requireDocker
  select pid paths targets fallback

/-- What `start` makes of its options and the settings file. -/
def startSettings (pid : ℕ) (paths : Paths) (options : StartOptions) : Fallible Bool := do
  let settingsPath := paths.experimentsDir.join "experiments.conf".toList
  ensureFile pid settingsPath settingsTemplate
  match options.ignorePullFailures with
  | some overrideValue => pure overrideValue
  | none => ignorePullFailures settingsPath

theorem prepare_setup (pid : ℕ) (paths : Paths) (targets : List Target) (fallback : Fallback) :
    (prepare pid paths targets fallback).run.Uses SetupCall :=
  requireDocker_setup.try_bind fun _ => select_setup _ _ _ _

theorem startSettings_setup (pid : ℕ) (paths : Paths) (options : StartOptions) :
    (startSettings pid paths options).run.Uses SetupCall := by
  refine (ensureFile_setup _ _ _).try_bind fun _ => ?_
  split
  · trivial
  · exact (readOptional_setup _).try_bind fun _ => trivial

theorem prepare_quiet (pid : ℕ) (paths : Paths) (targets : List Target) (fallback : Fallback) :
    (prepare pid paths targets fallback).run.Uses Quiet :=
  (prepare_setup _ _ _ _).mono fun _ => SetupCall.quiet

theorem startSettings_quiet (pid : ℕ) (paths : Paths) (options : StartOptions) :
    (startSettings pid paths options).run.Uses Quiet :=
  (startSettings_setup _ _ _).mono fun _ => SetupCall.quiet

theorem start_eq (pid : ℕ) (paths : Paths) (targets : List Target) (options : StartOptions) :
    start pid paths targets options = (do
      let (dir, targets) ← prepare pid paths targets .enabled
      let ignore ← startSettings pid paths options
      let failed ← (targets.foldlM (startOne dir ignore) [] : Prog Sys (List Str))
      liftExcept (report failed targets.length "start".toList)) := by
  simp only [start, prepare, startSettings, bind_assoc]
  cases options.ignorePullFailures <;> rfl

theorem stop_eq (pid : ℕ) (paths : Paths) (targets : List Target) :
    stop pid paths targets = (do
      let (dir, targets) ← prepare pid paths targets .everythingOnDisk
      let failed ← (targets.foldlM (stopOne dir) [] : Prog Sys (List Str))
      liftExcept (report failed targets.length "stop".toList)) := by
  simp only [stop, prepare, bind_assoc]

theorem status_eq (pid : ℕ) (paths : Paths) (targets : List Target) :
    status pid paths targets = (do
      let (dir, targets) ← prepare pid paths targets .enabled
      (targets.foldlM (fun _ target => statusOne dir target) () : Prog Sys Unit)) := by
  simp only [status, prepare, bind_assoc]

/-- Collecting failures round by round keeps their order. -/
theorem foldl_failed {ω : Type} (ok : ω → Bool) (label : ω → Str) (ws : List ω)
    (failed : List Str) :
    ws.foldl (fun failed w => if ok w then failed else failed ++ [label w]) failed =
      failed ++ (ws.filter fun w => !ok w).map label := by
  induction ws generalizing failed with
  | nil => simp
  | cons w ws ih => cases h : ok w <;> simp [h, ih]

theorem report_eq_error_iff {failed : List Str} {total : ℕ} {verb : Str} :
    (∃ err, report failed total verb = .error err) ↔ failed ≠ [] := by
  unfold report
  split
  · next h => exact iff_of_false (by simp) (not_not.mpr h)
  · next h => exact iff_of_true ⟨_, rfl⟩ h

/-- One command for a target, with the reply to it. -/
abbrev Outcome := Target × Io ExitStatus

/-- What `stop` asks compose for. -/
def stopArgs (dir : FilePath) (target : Target) : List Str := target.stopRequest.args dir

theorem returns_stopOne {failed failed' : List Str} {target : Target}
    (h : Returns (stopOne dir failed target) t failed') :
    ∃ w : Outcome, w.1 = target ∧ True ∧ t = [⟨.status docker (stopArgs dir w.1), w.2⟩] ∧
      failed' = if Succeeded w.2 then failed else failed ++ [w.1.name.str] := by
  obtain ⟨r, t₁, t₂, rfl, h₁, h₂⟩ := returns_bind_iff.mp h
  obtain ⟨reply, rfl, rfl⟩ := returns_compose_iff.mp h₁
  refine ⟨(target, reply), rfl, trivial, ?_⟩
  rw [stopArgs, Target.stopRequest_eq]
  rw [isOk_composeResult] at h₂
  split at h₂
  · next hs =>
    obtain ⟨rfl, rfl⟩ := returns_ret_iff.mp h₂
    exact ⟨rfl, (if_pos hs).symm⟩
  · next hs =>
    obtain ⟨rfl, rfl⟩ := returns_ret_iff.mp h₂
    exact ⟨rfl, (if_neg hs).symm⟩

/-- A run of `stop` that gets past its selection asks compose once for every selected target. -/
theorem returns_stop {r : Except Error Unit} (h : Returns (stop pid paths targets).run t r) :
    (∃ err, Returns (prepare pid paths targets .everythingOnDisk).run t (.error err) ∧
      r = .error err) ∨
    ∃ (dir : FilePath) (selected : List Target) (t₁ t₂ : List (Event Sys))
      (outcomes : List Outcome),
      t = t₁ ++ t₂ ∧
      Returns (prepare pid paths targets .everythingOnDisk).run t₁ (.ok (dir, selected)) ∧
      outcomes.map Prod.fst = selected ∧
      composeCalls t = outcomes.map (fun w => (stopArgs dir w.1, w.2)) ∧
      r = report ((outcomes.filter fun w => !Succeeded w.2).map (·.1.name.str)) selected.length
        "stop".toList := by
  rw [stop_eq] at h
  rcases returns_try_bind_iff.mp h with ⟨err, he, rfl⟩ | ⟨⟨dir, selected⟩, t₁, t₂, rfl, h₁, h₂⟩
  · exact Or.inl ⟨err, he, rfl⟩
  obtain ⟨failed, t₃, t₄, rfl, h₃, h₄⟩ := returns_lift_bind_iff.mp h₂
  obtain ⟨rfl, rfl⟩ := returns_ret_iff.mp h₄
  obtain ⟨outcomes, hs, -, rfl, rfl⟩ :=
    exists_records (f := stopOne dir) (fun _ _ _ _ => returns_stopOne) h₃
  refine Or.inr ⟨dir, selected, t₁, _, outcomes, rfl, h₁, hs, ?_, ?_⟩
  · rw [List.append_nil, composeCalls_append, composeCalls_eq_nil (prepare_quiet _ _ _ _) h₁,
      List.nil_append, composeCalls_flatMap, List.map_eq_flatMap]
    rfl
  · rw [foldl_failed, List.nil_append]

end RobotCtl.Experiments
