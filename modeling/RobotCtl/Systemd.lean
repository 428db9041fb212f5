import RobotCtl.Identity.Robot

/-! # Units of systemd

What robotctl asks systemd for, besides the nudge of the mDNS unit.
-/

namespace RobotCtl.Systemd

open Text

/-- What systemd says of a unit. -/
def isActive (unit : Str) : Prog Sys Str :=
  (Sys.output Identity.systemctl ["is-active".toList, unit]).bind fun
    | .ok result =>
      let state := trim result.stdout
      .ret (if state = [] then "unknown".toList else state)
    | .error _ => .ret "unknown".toList

def stopArgs (unit : Str) : List Str := ["stop".toList, unit]

def stop (unit : Str) : Fallible Unit :=
  ExceptT.mk ((Sys.status Identity.systemctl (stopArgs unit)).bind fun
    | .ok status => .ret (if status.success then .ok () else
        .error ["`systemctl stop ".toList ++ unit ++ "` exited with ".toList ++ status.text])
    | .error err => .ret (.error ["could not run `systemctl` (is this a systemd system?)".toList,
        err.text]))

end RobotCtl.Systemd
