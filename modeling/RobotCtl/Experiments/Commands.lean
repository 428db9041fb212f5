import Mathlib.Data.Char
import RobotCtl.Conf.File
import RobotCtl.Config
import RobotCtl.Experiments.Target
import RobotCtl.Library.Sorting

/-! # Experiment commands

Starting, stopping and reporting on compose stacks. A command first asks for
docker and selects its targets, then runs compose for every one of them; a
failure of one target is reported at the end.
-/

namespace RobotCtl.Experiments

open Text Conf

def enabledConfTemplate : Str :=
  joinLines ([
    "# One experiment per line = enabled. Lines starting with # and blank",
    "# lines are ignored. Each name must have a matching directory:",
    "#   <experiments-dir>/<name>/docker-compose.yml",
    "#",
    "# A name may name the docker compose profiles to activate for it, as a",
    "# comma-separated list after a colon:",
    "#   my-experiment:gpu,debug",
    "#   my-experiment:*        every profile the compose file declares",
    "#",
    "# Those apply when `robotctl experiments start` runs with no arguments, as",
    "# it does at boot. Naming an experiment on the command line *replaces* them",
    "# for that run: `robotctl experiments start my-experiment` activates no",
    "# profiles at all, and `... my-experiment:gpu` activates only gpu.",
    "#",
    "# Example:",
    "# my-experiment"].map String.toList)

/-- Written when `experiments.conf` does not exist. -/
def settingsTemplate : Str :=
  joinLines ([
    "# Settings for `robotctl experiments`, in shell-style KEY=value form.",
    "#",
    "# IGNORE_PULL_FAILURES: what to do when `docker compose pull` fails for an",
    "# experiment. The default, false, refuses to start that stack -- `compose up`",
    "# would otherwise silently run whatever stale image is already on this robot,",
    "# so results would be attributed to code that never ran here.",
    "#",
    "# Set this to true on robots that operate on RF-isolated networks, where the",
    "# registry is unreachable by design and images are side-loaded over ssh. There",
    "# the local image is the correct one and a failed pull means nothing.",
    "#",
    "# `robotctl experiments start --ignore-pull-failures[=true|false]` overrides",
    "# this for a single run.",
    "IGNORE_PULL_FAILURES=false"].map String.toList)

def ignorePullFailuresKey : Str := "IGNORE_PULL_FAILURES".toList

def docker : Str := "docker".toList

def composeFile (dir : FilePath) (name : ExperimentName) : FilePath :=
  (dir.join name.str).join "docker-compose.yml".toList

/-- The full argument list for one experiment. The profile flags precede the verb. -/
def composeArgs (dir : FilePath) (name : ExperimentName) (profiles : Profiles) (verb : List Str) :
    List Str :=
  ["compose".toList, "-f".toList, (composeFile dir name).display, "--project-directory".toList,
    (dir.join name.str).display] ++ profiles.args ++ verb

/-- What a compose command's exit says. -/
def composeResult (verb : List Str) : Io ExitStatus → Except Error Unit
  | .ok status => if status.success then .ok () else
      .error ["`docker compose ".toList ++ joinWith [' '] verb ++ "` exited with ".toList ++
        status.text]
  | .error err =>
      .error ["running `docker compose ".toList ++ joinWith [' '] verb ++ ['`'], err.text]

/-- Runs compose for one experiment. -/
def compose (dir : FilePath) (name : ExperimentName) (profiles : Profiles) (verb : List Str) :
    Fallible Unit :=
  ExceptT.mk ((Sys.status docker (composeArgs dir name profiles verb)).bind fun x =>
    .ret (composeResult verb x))

def requireDocker : Fallible Unit := do
  let _ ← orFail (Sys.status docker ["--version".toList]) fun err =>
    ["required command not found: docker".toList, err.text]

/-- Creates a file from its template if it does not exist yet. -/
def ensureFile (pid : ℕ) (path : FilePath) (template : Str) : Fallible Unit := do
  if ← Sys.isFile path then pure ()
  else withContext ("creating ".toList ++ path.display) (writeAtomically pid path template)

/-- What the settings file says about failed pulls; a failed pull is fatal by default. -/
def ignorePullFailuresOf (existing : Option Str) : Bool :=
  match existing with
  | none => false
  | some text =>
    match parseValue text ignorePullFailuresKey with
    | none => false
    | some raw => (parseBool raw).getD false

def ignorePullFailures (settingsPath : FilePath) : Fallible Bool := do
  let existing ← readOptional settingsPath
  pure (ignorePullFailuresOf existing)

/-- What to act on when the command line named nothing. -/
inductive Fallback where
  | enabled
  | everythingOnDisk
  deriving DecidableEq, Repr

/-- The targets whose compose file is a file, or those whose is not. -/
def filterFiles (dir : FilePath) (want : Bool) : List Target → Prog Sys (List Target)
  | [] => .ret []
  | target :: targets => (Sys.isFile (composeFile dir target.name)).bind fun isFile =>
      (filterFiles dir want targets).bind fun rest =>
        .ret (if isFile = want then target :: rest else rest)

/-- Reads `enabled.conf`, creating it if needed, and drops the entries with no compose file. -/
def enabledTargets (pid : ℕ) (dir : FilePath) : Fallible (List Target) := do
  let confPath := dir.join "enabled.conf".toList
  ensureFile pid confPath enabledConfTemplate
  let text := (← readOptional confPath).getD []
  filterFiles dir true (parseEnabled text).targets

def readingError (dir : FilePath) (err : IoError) : Error :=
  ["reading ".toList ++ dir.display, err.text]

/-- One round of listing a directory: valid names that have a compose file count. -/
def onDiskEntry (dir : FilePath) (names : List ExperimentName) (entry : Io (Option Str)) :
    Fallible (List ExperimentName) :=
  match entry with
  | .error err => throw (readingError dir err)
  | .ok none => pure names
  | .ok (some name) =>
    match ExperimentName.new name with
    | .error _ => pure names
    | .ok name => do
      if ← Sys.isFile (composeFile dir name) then pure (names ++ [name]) else pure names

/-- Every experiment directory that has a compose file, in name order. -/
def onDisk (dir : FilePath) : Fallible (List ExperimentName) := do
  match ← Sys.readDir dir with
  | .error err => if err.kind = .notFound then pure [] else throw (readingError dir err)
  | .ok entries => do
    let names ← entries.foldlM (onDiskEntry dir) []
    pure (Sorting.sortBy ExperimentName.str names)

/-- The error for named experiments without a compose file. -/
def missingError (dir : FilePath) (missing : List Target) : Error :=
  let row (target : Target) := "  ".toList ++ target.name.str ++ ": ".toList ++
    (composeFile dir target.name).display ++ " does not exist".toList
  ["no compose file for ".toList ++ decimal missing.length ++
    " of the named experiments (nothing was done):\n".toList ++ joinWith ['\n'] (missing.map row)]

/-- Turns what the command line asked for into the exact list to act on. -/
def select (pid : ℕ) (paths : Paths) (targets : List Target) (fallback : Fallback) :
    Fallible (FilePath × List Target) := do
  let dir := paths.experimentsDir
  if targets ≠ [] then
    let targets := mergeDuplicates targets
    let missing ← filterFiles dir false targets
    if missing ≠ [] then throw (missingError dir missing)
    pure (dir, targets)
  else match fallback with
    | .enabled => do pure (dir, ← enabledTargets pid dir)
    | .everythingOnDisk => do pure (dir, (← onDisk dir).map fun name => ⟨name, .none⟩)

/-- Fails the command if anything failed, having already attempted everything else. -/
def report (failed : List Str) (total : ℕ) (verb : Str) : Except Error Unit :=
  if failed = [] then .ok ()
  else .error ["failed to ".toList ++ verb ++ [' '] ++ decimal failed.length ++ " of ".toList ++
    decimal total ++ " experiments: ".toList ++ joinWith ", ".toList failed]

/-- A one-run override of `IGNORE_PULL_FAILURES`. -/
structure StartOptions where
  ignorePullFailures : Option Bool

def pullVerb : List Str := ["pull".toList, "--quiet".toList]

def upVerb : List Str := ["up".toList, "-d".toList, "--remove-orphans".toList]

/-- Pull and start one experiment, adding it to the failures if either goes wrong. -/
def startOne (dir : FilePath) (ignorePullFailures : Bool) (failed : List Str) (target : Target) :
    Prog Sys (List Str) := do
  let pulled ← (compose dir target.name target.profiles pullVerb).run
  if !pulled.isOk && !ignorePullFailures then pure (failed ++ [target.name.str])
  else
    let started ← (compose dir target.name target.profiles upVerb).run
    if started.isOk then pure failed else pure (failed ++ [target.name.str])

/-- Pulls images and brings the selected stacks up. -/
def start (pid : ℕ) (paths : Paths) (targets : List Target) (options : StartOptions) :
    Fallible Unit := do
  requireDocker
  let (dir, targets) ← select pid paths targets .enabled
  let settingsPath := paths.experimentsDir.join "experiments.conf".toList
  ensureFile pid settingsPath settingsTemplate
  let ignore ← match options.ignorePullFailures with
    | some overrideValue => pure overrideValue
    | none => ignorePullFailures settingsPath
  let failed ← (targets.foldlM (startOne dir ignore) [] : Prog Sys (List Str))
  liftExcept (report failed targets.length "start".toList)

/-- Unless narrowed to named profiles, a stop activates every profile and removes orphans. -/
def stopPlan : Profiles → Profiles × List Str
  | .named names => (.named names, ["down".toList])
  | _ => (.all, ["down".toList, "--remove-orphans".toList])

def stopOne (dir : FilePath) (failed : List Str) (target : Target) : Prog Sys (List Str) := do
  let (profiles, verb) := stopPlan target.profiles
  let stopped ← (compose dir target.name profiles verb).run
  if stopped.isOk then pure failed else pure (failed ++ [target.name.str])

/-- Brings the selected stacks down. -/
def stop (pid : ℕ) (paths : Paths) (targets : List Target) : Fallible Unit := do
  requireDocker
  let (dir, targets) ← select pid paths targets .everythingOnDisk
  let failed ← (targets.foldlM (stopOne dir) [] : Prog Sys (List Str))
  liftExcept (report failed targets.length "stop".toList)

def statusOne (dir : FilePath) (target : Target) : Prog Sys Unit := do
  Sys.println ("== ".toList ++ target.display ++ " ==".toList)
  let _ ← (compose dir target.name target.profiles ["ps".toList]).run

/-- Lists the containers of the selected stacks. A stack that cannot be queried is no failure. -/
def status (pid : ℕ) (paths : Paths) (targets : List Target) : Fallible Unit := do
  requireDocker
  let (dir, targets) ← select pid paths targets .enabled
  (targets.foldlM (fun _ target => statusOne dir target) () : Prog Sys Unit)

end RobotCtl.Experiments
