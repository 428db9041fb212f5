import RobotCtl.Conf.File

/-! # Owned child processes

A daemon is stopped by a signal, and killed if it does not exit in time. The
state hook is a child too, and cannot hold the supervisor up for long.
-/

namespace RobotCtl.Wifi

open Text Sys

/-- How long a daemon gets to exit before it is killed. -/
def Daemon.termGrace : ℕ := secs 5

def Daemon.termPoll : ℕ := millis 100

structure Daemon where
  name : Str
  pid : ℕ
  deriving DecidableEq

namespace Daemon

def spawn (name program : Str) (args : List Str) : Fallible Daemon :=
  ExceptT.mk ((Sys.spawn program args).bind fun
    | .ok pid => .ret (.ok ⟨name, pid⟩)
    | .error err => .ret (.error ["could not start ".toList ++ name ++ " (is `".toList ++ program ++
        "` installed?)".toList, err.text]))

theorem returns_spawn_ok {name program : Str} {args : List Str} {t : List (Event Sys)} {d : Daemon}
    (h : Prog.Returns (spawn name program args).run t (.ok d)) :
    ∃ pid, t = [⟨.spawn program args, .ok pid⟩] := by
  obtain ⟨x, t', rfl, h₁⟩ := Prog.returns_call_iff.mp h
  cases x with
  | error err =>
    obtain ⟨-, hr⟩ := Prog.returns_ret_iff.mp h₁
    cases hr
  | ok pid =>
    obtain ⟨rfl, -⟩ := Prog.returns_ret_iff.mp h₁
    exact ⟨pid, rfl⟩

/-- A daemon that cannot be checked counts as dead. -/
def isRunning (daemon : Daemon) : Prog Sys Bool :=
  (tryWait daemon.pid).bind fun
    | .ok none => .ret true
    | _ => .ret false

def hasExited : Io (Option ExitStatus) → Bool
  | .ok (some _) => true
  | _ => false

/-- One round of waiting for a daemon: it has exited, or the deadline has passed, or neither. -/
def awaitExit (daemon : Daemon) (deadline : ℕ) (_ : Unit) : Prog Sys (Unit ⊕ Bool) :=
  now.bind fun time =>
    if time < deadline then
      (tryWait daemon.pid).bind fun r =>
        if hasExited r then .ret (.inr true) else (sleep termPoll).bind fun _ => .ret (.inl ())
    else .ret (.inr false)

/-- A daemon that is still alive at the deadline is killed. -/
def exitOrKill (daemon : Daemon) (deadline : ℕ) : Prog Sys Unit :=
  .loop (awaitExit daemon deadline) () fun
    | true => .ret ()
    | false => (kill daemon.pid .kill).bind fun _ => (wait daemon.pid).bind fun _ => .ret ()

/-- Ask the daemon to exit, and kill it if it is still alive after the grace period. -/
def stop (daemon : Daemon) : Prog Sys Unit :=
  (tryWait daemon.pid).bind fun r =>
    if hasExited r then .ret ()
    else (kill daemon.pid .term).bind fun _ => now.bind fun time =>
      exitOrKill daemon (time + termGrace)

end Daemon

namespace Hook

/-- How long a hook may run before it is terminated. -/
def runLimit : ℕ := secs 5

def termGrace : ℕ := secs 2

def poll : ℕ := millis 10

inductive Wait where
  | exited (status : ExitStatus)
  | running
  | unwaitable (err : IoError)

/-- One round of waiting for a child. -/
def waitRound (pid deadline : ℕ) (_ : Unit) : Prog Sys (Unit ⊕ Wait) :=
  (tryWait pid).bind fun
    | .ok (some status) => .ret (.inr (.exited status))
    | .error err => .ret (.inr (.unwaitable err))
    | .ok none => now.bind fun time =>
      if deadline ≤ time then .ret (.inr .running)
      else (sleep poll).bind fun _ => .ret (.inl ())

def waitUntil (pid deadline : ℕ) : Prog Sys Wait := .loop (waitRound pid deadline) () .ret

/-- Ask the child to exit, and kill it if it is still alive after the grace period. -/
def terminate (pid grace : ℕ) : Prog Sys Unit :=
  (kill pid .term).bind fun _ => now.bind fun time =>
    (waitUntil pid (time + grace)).bind fun
      | .running => (kill pid .kill).bind fun _ => (wait pid).bind fun _ => .ret ()
      | _ => .ret ()

def notifyWithin (hook state : Str) (limit grace : ℕ) : Prog Sys Unit :=
  if hook = [] then .ret ()
  else (Sys.spawn hook [state]).bind fun
    | .error _ => .ret ()
    | .ok pid => now.bind fun time => (waitUntil pid (time + limit)).bind fun
      | .running => terminate pid grace
      | _ => .ret ()

/-- Runs the hook with the state as its only argument, if one is configured. -/
def notify (hook state : Str) : Prog Sys Unit := notifyWithin hook state runLimit termGrace

end Hook

end RobotCtl.Wifi
