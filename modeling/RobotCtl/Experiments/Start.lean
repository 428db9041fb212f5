import RobotCtl.Experiments.Selection

/-! # Starting experiments

A start attempts every selected target, whatever happens to the others: it
pulls once, and brings the stack up unless the pull failed and that counts. It
fails with the names of the attempts that failed.
-/

namespace RobotCtl.Experiments

open Text Conf Prog

/-- What became of one target: the reply to its pull, and to its start if there was one. -/
structure Attempt where
  target : Target
  pull : Io ExitStatus
  up : Option (Io ExitStatus)

namespace Attempt

def pullArgs (dir : FilePath) (a : Attempt) : List Str :=
  (a.target.request ["pull".toList, "--quiet".toList]).args dir

def upArgs (dir : FilePath) (a : Attempt) : List Str :=
  (a.target.request ["up".toList, "-d".toList, "--remove-orphans".toList]).args dir

/-- The compose commands of an attempt. -/
def calls (dir : FilePath) (a : Attempt) : List (List Str × Io ExitStatus) :=
  (a.pullArgs dir, a.pull) :: a.up.toList.map (a.upArgs dir, ·)

def events (dir : FilePath) (a : Attempt) : List (Event Sys) :=
  ⟨.status docker (a.pullArgs dir), a.pull⟩ ::
    a.up.toList.map fun reply => ⟨.status docker (a.upArgs dir), reply⟩

end Attempt

variable {pid : ℕ} {paths : Paths} {dir : FilePath} {targets : List Target} {options : StartOptions}
  {ignore : Bool} {t : List (Event Sys)}

section Example

def slam : ExperimentName := ⟨"slam".toList, by decide, by decide, by decide⟩

def exited (success : Bool) : Io ExitStatus := .ok ⟨success, []⟩

/-- A start of one experiment, on a robot that ignores failed pulls, whose pull fails. -/
def slamTrace : List (Event Sys) :=
  [⟨.status docker ["--version".toList], exited true⟩,
    ⟨.isFile (composeFile rootPaths.experimentsDir slam), true⟩,
    ⟨.isFile (rootPaths.experimentsDir.join "experiments.conf".toList), true⟩,
    ⟨.readToString (rootPaths.experimentsDir.join "experiments.conf".toList),
      .ok "IGNORE_PULL_FAILURES=Yes\n".toList⟩,
    ⟨.status docker (composeArgs rootPaths.experimentsDir slam .none pullVerb), exited false⟩,
    ⟨.status docker (composeArgs rootPaths.experimentsDir slam .none upVerb), exited true⟩]

theorem returns_slamTrace :
    Returns (start 1 rootPaths [⟨slam, .none⟩] ⟨none⟩).run slamTrace (.ok ()) := by
  refine returns_call_iff.mpr ⟨_, _, rfl, ?_⟩
  refine returns_call_iff.mpr ⟨_, _, rfl, ?_⟩
  refine returns_call_iff.mpr ⟨_, _, rfl, ?_⟩
  refine returns_call_iff.mpr ⟨_, _, rfl, ?_⟩
  refine returns_call_iff.mpr ⟨_, _, rfl, ?_⟩
  refine returns_call_iff.mpr ⟨_, _, rfl, ?_⟩
  exact .ret _

def mapping : ExperimentName := ⟨"mapping".toList, by decide, by decide, by decide⟩

def gpu : ProfileName := ⟨"gpu".toList, ⟨'g', "pu".toList, rfl, by decide⟩, by decide⟩

end Example

end RobotCtl.Experiments
