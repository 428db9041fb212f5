import RobotCtl.Conf.File
import RobotCtl.Config

/-! # Robot identity

The identity is stored in `robot.conf`, and its host name is derived into the
hostname and hosts files and the running host name. A value that is missing or
invalid reads as the configured default.
-/

namespace RobotCtl.Identity

open Text Conf

def robotIdKey : Str := "ROBOT_ID".toList

def rosDomainIdKey : Str := "ROS_DOMAIN_ID".toList

/-- The contents of `robot.conf`, resolved against the defaults. -/
@[ext] structure RobotConfig where
  robotId : RobotId
  rosDomainId : RosDomainId

/-- What the text of `robot.conf`, or its absence, means. -/
def resolve (paths : Paths) : Option Str → RobotConfig
  | none => ⟨paths.defaultRobotId, paths.defaultRosDomainId⟩
  | some text =>
    let robotId := match parseValue text robotIdKey with
      | none => paths.defaultRobotId
      | some raw => (RobotId.new raw).toOption.getD paths.defaultRobotId
    let rosDomainId := match parseValue text rosDomainIdKey with
      | none => paths.defaultRosDomainId
      | some raw => (RosDomainId.fromStr raw).toOption.getD paths.defaultRosDomainId
    ⟨robotId, rosDomainId⟩

def load (paths : Paths) : Fallible RobotConfig := do
  let text ← readOptional paths.robotConf
  pure (resolve paths text)

/-- Sets one key of a file and preserves every other line. -/
def setKey (pid : ℕ) (path : FilePath) (key value : Str) : Fallible Unit := do
  let existing ← readOptional path
  writeAtomically pid path (upsertKey existing key value)

def renderHostnameFile (robotId : RobotId) : Str := robotId.str ++ ['\n']

/-- The address must be followed by whitespace. -/
def isHostsEntry (line : Str) : Bool :=
  match stripPrefix "127.0.1.1".toList line with
  | some rest => rest.head? == some ' ' || rest.head? == some '\t'
  | none => false

def renderHostsFile (existing : Option Str) (robotId : RobotId) : Str :=
  let entry := "127.0.1.1".toList ++ '\t' :: robotId.str
  match existing with
  | none => "127.0.0.1\tlocalhost\n".toList ++ entry ++ ['\n']
  | some existing => replaceLines isHostsEntry entry existing

def applyFiles (pid : ℕ) (paths : Paths) (config : RobotConfig) : Fallible Bool := do
  let hostnameChanged ←
    writeIfChanged pid paths.hostnamePath (renderHostnameFile config.robotId)
  let existing ← readOptional paths.hostsPath
  let _ ← writeIfChanged pid paths.hostsPath (renderHostsFile existing config.robotId)
  pure hostnameChanged

/-- The programs that set the running host name, in the order in which they are tried. -/
def hostnameAttempts (robotId : RobotId) : List (Str × List Str) :=
  [("hostnamectl".toList, ["--transient".toList, "set-hostname".toList, robotId.str]),
    ("hostname".toList, [robotId.str])]

/-- Run programs until one succeeds. -/
def tryPrograms : List (Str × List Str) → Prog Sys Unit
  | [] => .ret ()
  | (program, args) :: rest => (Sys.status program args).bind fun
    | .ok status => if status.success then .ret () else tryPrograms rest
    | .error _ => tryPrograms rest

def applyRuntimeHostname (robotId : RobotId) : Prog Sys Unit :=
  tryPrograms (hostnameAttempts robotId)

def systemctl : Str := "systemctl".toList

def tryRestartArgs (unit : Str) : List Str := ["--no-block".toList, "try-restart".toList, unit]

def tryRestartAsync (unit : Str) : Prog Sys Unit :=
  if unit = [] then .ret ()
  else (Sys.status systemctl (tryRestartArgs unit)).bind fun _ => .ret ()

/-- Derives every host name artifact, and nudges the mDNS unit if the hostname file changed. -/
def apply (pid : ℕ) (paths : Paths) (config : RobotConfig) : Fallible Unit := do
  let renamed ← applyFiles pid paths config
  applyRuntimeHostname config.robotId
  if renamed then tryRestartAsync paths.mdnsUnit

def setRobotId (pid : ℕ) (paths : Paths) (robotId : RobotId) : Fallible Unit := do
  setKey pid paths.robotConf robotIdKey robotId.str
  apply pid paths (← load paths)

def setRosDomainId (pid : ℕ) (paths : Paths) (rosDomainId : RosDomainId) : Fallible Unit :=
  setKey pid paths.robotConf rosDomainIdKey rosDomainId.toStr

end RobotCtl.Identity
