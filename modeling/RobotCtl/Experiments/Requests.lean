import RobotCtl.Experiments.Commands

/-! # Requests to compose

What compose is asked for, and the arguments that ask for it, written out. All
commands build their arguments in one place, and these are the arguments of a
request.
-/

namespace RobotCtl.Experiments

open Text

/-- What compose is asked for. -/
@[ext] structure Request where
  name : Str
  profiles : List Str
  verb : List Str

namespace Request

def file (dir : FilePath) (request : Request) : Str :=
  ((dir.join request.name).join "docker-compose.yml".toList).display

def directory (dir : FilePath) (request : Request) : Str := (dir.join request.name).display

def args (dir : FilePath) (request : Request) : List Str :=
  ["compose".toList, "-f".toList, request.file dir, "--project-directory".toList,
    request.directory dir] ++
  request.profiles.flatMap (fun profile => ["--profile".toList, profile]) ++ request.verb

end Request

/-- How the profiles are named to compose. -/
def Profiles.requested : Profiles → List Str
  | .none => []
  | .all => ["*".toList]
  | .named names => names.map ProfileName.str

/-- A verb for a target, with the profiles of the target. -/
def Target.request (target : Target) (verb : List Str) : Request :=
  ⟨target.name.str, target.profiles.requested, verb⟩

namespace ExperimentName

/-- Everything of an experiment is to go down. -/
def everything (name : ExperimentName) : Request :=
  ⟨name.str, ["*".toList], ["down".toList, "--remove-orphans".toList]⟩

/-- Some profiles of an experiment are to go down. -/
def narrowed (name : ExperimentName) (names : List ProfileName) : Request :=
  ⟨name.str, names.map ProfileName.str, ["down".toList]⟩

end ExperimentName

/-- What a stop asks for. -/
def Target.stopRequest (target : Target) : Request :=
  match target.profiles with
  | .named names => target.name.narrowed names
  | _ => target.name.everything

theorem composeArgs_eq (dir : FilePath) (name : ExperimentName) (profiles : Profiles)
    (verb : List Str) :
    composeArgs dir name profiles verb = Request.args dir ⟨name.str, profiles.requested, verb⟩ := by
  cases profiles <;> rfl

theorem Target.stopRequest_eq (target : Target) : target.stopRequest =
    ⟨target.name.str, (stopPlan target.profiles).1.requested, (stopPlan target.profiles).2⟩ := by
  unfold Target.stopRequest
  cases target.profiles <;> rfl

end RobotCtl.Experiments
