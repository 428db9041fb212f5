import RobotCtl.Config
import RobotCtl.Wifi.Daemon
import RobotCtl.Wifi.Net

/-! # Client mode

A client attempt brings the interface up as a station and waits for a lease. A
supplicant that got no address is stopped before the attempt fails.
-/

namespace RobotCtl.Wifi

open Text

/-- The timeout of one DHCP attempt, in seconds. -/
def dhcpAttemptTimeoutSec : ℕ := 5

/-- Why a client attempt did not result in a connection. -/
inductive ClientFailure where
  | noConfig (path : FilePath)
  | failed (err : Error)

/-- A live client connection. -/
structure ClientSession where
  supplicant : Daemon
  address : Str

/-- Dropping the session stops its supplicant. -/
def ClientSession.drop (session : ClientSession) : Prog Sys Unit := session.supplicant.stop

def wpaSupplicant : Str := "wpa_supplicant".toList

def supplicantArgs (interface : Str) (config : FilePath) : List Str :=
  ["-i".toList, interface, "-c".toList, config.display]

/-- As many attempts as fit in the connect timeout, and at least one. -/
def dhcpAttempts (tuning : SuperviseTuning) : ℕ :=
  max ((tuning.connectTimeoutSec + (dhcpAttemptTimeoutSec - 1)) / dhcpAttemptTimeoutSec) 1

def dhcpArgs (interface : Str) (attempts : ℕ) : List Str :=
  ["-i".toList, interface, "-n".toList, "-q".toList, "-T".toList, decimal dhcpAttemptTimeoutSec,
    "-t".toList, decimal attempts]

/-- The interface as a station, before the supplicant gets to it. -/
def prepareStation (interface : Str) : Fallible Unit := do
  requireInterface interface
  flushAddresses interface
  linkUp interface

/-- Without an address in the end the supplicant is stopped. -/
def awaitLease (tuning : SuperviseTuning) (interface : Str) (supplicant : Daemon) :
    Fallible ClientSession := do
  -- A lease that was not obtained shows in the address.
  let _ ← liftM (run "udhcpc".toList (dhcpArgs interface (dhcpAttempts tuning))).run
  match ← ipv4Address interface with
  | some address => pure ⟨supplicant, address⟩
  | none =>
    liftM supplicant.stop
    throw ["associated but got no IPv4 address on ".toList ++ interface]

def connectInner (tuning : SuperviseTuning) (interface : Str) (config : FilePath) :
    Fallible ClientSession := do
  prepareStation interface
  let supplicant ← Daemon.spawn wpaSupplicant wpaSupplicant (supplicantArgs interface config)
  awaitLease tuning interface supplicant

/-- A missing `client.conf` is not a failure to retry. -/
def connect (paths : Paths) (tuning : SuperviseTuning) :
    Prog Sys (Except ClientFailure ClientSession) := do
  if ← Sys.isFile paths.wifiClientConf then
    let r ← (connectInner tuning paths.wifiInterface paths.wifiClientConf).run
    pure (r.mapError .failed)
  else pure (.error (.noConfig paths.wifiClientConf))

def teardown (interface : Str) : Prog Sys Unit := runBestEffort ip (flushArgs interface)

end RobotCtl.Wifi
