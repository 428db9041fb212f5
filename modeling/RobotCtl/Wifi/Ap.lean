import RobotCtl.Wifi.ConfigGen
import RobotCtl.Wifi.Daemon
import RobotCtl.Wifi.Net

/-! # The fallback access point

hostapd runs the radio and dnsmasq serves DHCP. A session owns both. Where it
is dropped, a mark with the two process ids stands in the trace.
-/

namespace RobotCtl.Wifi

open Text Conf

/-- A running fallback access point. -/
structure ApSession where
  hostapd : Daemon
  dnsmasq : Daemon
  interface : Str
  deriving DecidableEq

namespace ApSession

/-- Both daemons are still alive. Both are checked. -/
def isHealthy (session : ApSession) : Prog Sys Bool := do
  let hostapd ← session.hostapd.isRunning
  let dnsmasq ← session.dnsmasq.isRunning
  pure (hostapd && dnsmasq)

/-- The label of the mark at the start of a drop. -/
def dropped : Str := "dropped".toList

/-- Stop both daemons and flush the address. The daemons are then dropped as fields, in order. -/
def drop (session : ApSession) : Prog Sys Unit := do
  Sys.mark dropped [session.hostapd.pid, session.dnsmasq.pid]
  session.hostapd.stop
  session.dnsmasq.stop
  runBestEffort ip (flushArgs session.interface)
  session.hostapd.stop
  session.dnsmasq.stop

end ApSession

namespace Ap

def hostapd : Str := "hostapd".toList

def dnsmasq : Str := "dnsmasq".toList

def hostapdConf (runDir : FilePath) : FilePath := runDir.join "hostapd.conf".toList

def dnsmasqConf (runDir : FilePath) : FilePath := runDir.join "dnsmasq.conf".toList

def hostapdArgs (conf : FilePath) : List Str := [conf.display]

def dnsmasqArgs (conf : FilePath) : List Str :=
  ["--keep-in-foreground".toList, "--conf-file=".toList ++ conf.display]

/-- Generate the configurations of the daemons and configure the interface. -/
def configure (pid : ℕ) (runDir : FilePath) (config : ApConfig) : Fallible Unit := do
  requireInterface config.interface
  withContext ("writing ".toList ++ (hostapdConf runDir).display)
    (writeAtomically pid (hostapdConf runDir) (renderHostapdConf config))
  withContext ("writing ".toList ++ (dnsmasqConf runDir).display)
    (writeAtomically pid (dnsmasqConf runDir) (renderDnsmasqConf config))
  flushAddresses config.interface
  addAddress config.interface (config.address.display ++ '/' :: decimal config.netmaskCidr)
  linkUp config.interface

/-- Start dnsmasq and then hostapd, without which dnsmasq is stopped again. -/
def spawnDaemons (runDir : FilePath) (interface : Str) : Fallible ApSession := do
  let d ← Daemon.spawn dnsmasq dnsmasq (dnsmasqArgs (dnsmasqConf runDir))
  match ← liftM (Daemon.spawn hostapd hostapd (hostapdArgs (hostapdConf runDir))).run with
  | .ok h => pure ⟨h, d, interface⟩
  | .error err =>
    liftM d.stop
    throw err

def start (pid : ℕ) (runDir : FilePath) (config : ApConfig) : Fallible ApSession := do
  configure pid runDir config
  spawnDaemons runDir config.interface

end Ap

end RobotCtl.Wifi
