import RobotCtl.Identity.Robot
import RobotCtl.Wifi.Ap
import RobotCtl.Wifi.Client

/-! # The supervisor

A state machine between the client network and the fallback access point. The
supervisor owns a client session, an access point session, or neither.
-/

namespace RobotCtl.Wifi

open Text

inductive State where
  | tryClient
  | clientUp
  | fallbackAp
  deriving DecidableEq, Repr

namespace State

/-- The name of the state for the hook. -/
def hookName : State → Str
  | tryClient => "try-client".toList
  | clientUp => "client-up".toList
  | fallbackAp => "fallback-ap".toList

def debug : State → Str
  | tryClient => "TryClient".toList
  | clientUp => "ClientUp".toList
  | fallbackAp => "FallbackAp".toList

end State

/-- What a step of the supervisor ended with. -/
inductive StepEvent where
  | clientConnected
  | clientFailed
  | clientConfigMissing
  | linkLost
  | apRetryDue
  | apDied
  | apHeld
  deriving DecidableEq, Repr

def nextState (_ : State) : StepEvent → State
  | .clientConnected => .clientUp
  | .clientFailed | .clientConfigMissing => .fallbackAp
  | .linkLost => .tryClient
  | .apRetryDue => .tryClient
  | .apDied | .apHeld => .fallbackAp

/-- What the supervisor owns. -/
structure Supervisor where
  client : Option ClientSession
  ap : Option ApSession

namespace Supervisor

variable (pid : ℕ) (paths : Paths) (tuning : SuperviseTuning)

def init : Supervisor := ⟨none, none⟩

/-- The session is dropped before the interface is flushed. -/
def stopClient (s : Supervisor) : Prog Sys Supervisor :=
  match s.client with
  | some session => do
    session.drop
    teardown paths.wifiInterface
    pure { s with client := none }
  | none => pure s

/-- An assignment drops the old session. -/
def stopAp (s : Supervisor) : Prog Sys Supervisor :=
  match s.ap with
  | some session => do
    session.drop
    pure { s with ap := none }
  | none => pure s

/-- An assignment drops the old session. -/
def setClient (s : Supervisor) (session : ClientSession) : Prog Sys Supervisor :=
  match s.client with
  | some old => do
    old.drop
    pure { s with client := some session }
  | none => pure { s with client := some session }

def tryAttempts : List ℕ → Supervisor → Prog Sys (Supervisor × StepEvent)
  | [], s => pure (s, .clientFailed)
  | attempt :: rest, s => do
    match ← connect paths tuning with
    | .ok session =>
      let s ← s.setClient session
      pure (s, .clientConnected)
    | .error (.noConfig _) => pure (s, .clientConfigMissing)
    | .error (.failed _) =>
      let s ← s.stopClient paths
      if attempt < tuning.clientAttempts then
        Sys.sleep (secs tuning.retrySec)
      tryAttempts rest s

/-- Attempts to connect, once the access point is down. -/
def tryClient (s : Supervisor) : Prog Sys (Supervisor × StepEvent) := do
  let s ← s.stopAp
  tryAttempts paths tuning (List.range' 1 tuning.clientAttempts) s

def watchRound (s : Supervisor) : Prog Sys (Supervisor ⊕ Supervisor × StepEvent) := do
  Sys.sleep (secs tuning.linkPollSec)
  match ← ipv4Address paths.wifiInterface with
  | some _ => pure (.inl s)
  | none =>
    let s ← s.stopClient paths
    pure (.inr (s, .linkLost))

/-- Watches an established connection until it has no address. -/
def watchClient (s : Supervisor) : Prog Sys (Supervisor × StepEvent) :=
  .loop (watchRound paths tuning) s .ret

/-- An access point that is not there is started, under the identity of the moment. -/
def raiseAp (s : Supervisor) : Fallible Supervisor :=
  match s.ap with
  | some _ => pure s
  | none => do
    let identity ← Identity.load paths
    let config ← loadApConfig paths identity.robotId
    let session ← Ap.start pid paths.wifiRunDir config
    pure { s with ap := some session }

/-- The health check fails; without a session there is none. -/
def apDied (s : Supervisor) : Prog Sys Bool :=
  match s.ap with
  | some session => do
    let healthy ← session.isHealthy
    pure (!healthy)
  | none => pure false

def serveRound (started : ℕ) (s : Supervisor) :
    Prog Sys (Supervisor ⊕ Supervisor × StepEvent) := do
  Sys.sleep (secs tuning.linkPollSec)
  if ← s.apDied then
    let s ← s.stopAp
    pure (.inr (s, .apDied))
  else
    let time ← Sys.now
    if time - started < secs tuning.apRetrySec then pure (.inl s)
    -- Without a `client.conf` there is nothing to interrupt the access point for.
    else if ← Sys.isFile paths.wifiClientConf then pure (.inr (s, .apRetryDue))
    else pure (.inr (s, .apHeld))

/-- Serves the access point until it is time to retry the client, or it died. -/
def serveAp (s : Supervisor) : Prog Sys (Supervisor × Except Error StepEvent) := do
  let s ← s.stopClient paths
  match ← (s.raiseAp pid paths).run with
  | .error err => pure (s, .error err)
  | .ok s =>
    let started ← Sys.now
    .loop (serveRound paths tuning started) s fun x => .ret (x.1, .ok x.2)

def step (s : Supervisor) : State → Prog Sys (Supervisor × Except Error StepEvent)
  | .tryClient => do
    let x ← s.tryClient paths tuning
    pure (x.1, .ok x.2)
  | .clientUp => do
    let x ← s.watchClient paths tuning
    pure (x.1, .ok x.2)
  | .fallbackAp => s.serveAp pid paths tuning

/-- Dropping the supervisor drops its sessions, in order. -/
def drop (s : Supervisor) : Prog Sys Unit := do
  match s.client with
  | some session => session.drop
  | none => pure ()
  match s.ap with
  | some session => session.drop
  | none => pure ()

end Supervisor

/-- An abstract socket is not supported. -/
def systemdNotifySocket : Option Str → Option Str
  | some [] => none
  | some (c :: socket) => if c = '@' then none else some (c :: socket)
  | none => none

def readyMessage (state : State) : Str :=
  "READY=1\nSTATUS=WiFi settled: ".toList ++ state.debug ++ ['\n']

/-- Tells systemd that the unit is ready, if it asked for that. -/
def notifyReady (state : State) : Prog Sys Unit := do
  match systemdNotifySocket (← Sys.envVar "NOTIFY_SOCKET".toList) with
  | some socket =>
    let _ ← Sys.sendTo socket (readyMessage state)
    pure ()
  | none => pure ()

/-- The head of the supervisor's loop. -/
structure Head where
  supervisor : Supervisor
  state : State
  announcedReady : Bool

namespace Head

def init : Head := ⟨.init, .tryClient, false⟩

end Head

section Run

variable (pid : ℕ) (paths : Paths) (tuning : SuperviseTuning)

/-- The hook hears of every change of the state. -/
def notifyChange (state next : State) : Prog Sys Unit :=
  if next = state then pure () else Hook.notify paths.wifiStateHook next.hookName

/-- systemd hears of the first settled state. -/
def announceReady (announced : Bool) (next : State) : Prog Sys Bool :=
  if !announced && (next == .clientUp || next == .fallbackAp) then do
    notifyReady next
    pure true
  else pure announced

/-- One iteration of the supervisor's loop; only an error leaves it. -/
def iterate (head : Head) : Prog Sys (Head ⊕ Supervisor × Error) := do
  let (s, r) ← head.supervisor.step pid paths tuning head.state
  match r with
  | .error err => pure (.inr (s, err))
  | .ok event =>
    let next := nextState head.state event
    notifyChange paths head.state next
    let announcedReady ← announceReady head.announcedReady next
    pure (.inl ⟨s, next, announcedReady⟩)

/-- The loop from one of its heads. -/
def superviseLoop (head : Head) : Prog Sys (Supervisor × Error) :=
  .loop (iterate pid paths tuning) head .ret

/-- What comes before the loop. -/
def opening : Fallible Unit := do
  requireInterface paths.wifiInterface
  liftM (Hook.notify paths.wifiStateHook State.tryClient.hookName)

/-- Runs the supervisor, which returns only on an error. -/
def supervise : Fallible Unit := do
  opening paths
  let (s, err) ← liftM (superviseLoop pid paths tuning .init)
  liftM s.drop
  throw err

/-- A run of the supervisor gets to a head of its loop. -/
def Reaches (t : List (Event Sys)) (head : Head) : Prop :=
  ∃ t₁ t₂, t = t₁ ++ t₂ ∧ Prog.Returns (opening paths).run t₁ (.ok ()) ∧
    Prog.Iterates (iterate pid paths tuning) .init t₂ head

end Run

end RobotCtl.Wifi
