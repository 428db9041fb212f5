import RobotCtl.Identity.Ids
import RobotCtl.Library.System

/-! # Paths, units and defaults

The resolved configuration that every command is given, and the tuning of the
WiFi supervisor.
-/

namespace RobotCtl

open Text Identity

/-- Resolved configuration, built once at startup and passed down. -/
structure Paths where
  dataDir : FilePath
  configDir : FilePath
  hostnamePath : FilePath
  hostsPath : FilePath
  wifiRunDir : FilePath
  wifiInterface : Str
  rawWifiStateHook : Str
  rawMdnsUnit : Str
  defaultRobotId : RobotId
  defaultRosDomainId : RosDomainId

namespace Paths

variable (paths : Paths)

def robotConf : FilePath := paths.configDir.join "robot.conf".toList

def wifiClientConf : FilePath := (paths.configDir.join "wifi".toList).join "client.conf".toList

def wifiApConf : FilePath := (paths.configDir.join "wifi".toList).join "fallback-ap.conf".toList

def experimentsDir : FilePath := paths.dataDir.join "experiments".toList

def wifiStateHook : Str := trim paths.rawWifiStateHook

def mdnsUnit : Str := trim paths.rawMdnsUnit

end Paths

/-- Paths below the root, for an unprovisioned robot called `robot`. -/
def rootPaths : Paths where
  dataDir := []
  configDir := []
  hostnamePath := ["hostname".toList]
  hostsPath := ["hosts".toList]
  wifiRunDir := []
  wifiInterface := "wlan0".toList
  rawWifiStateHook := []
  rawMdnsUnit := "avahi-daemon".toList
  defaultRobotId := ⟨"robot".toList, by decide, by decide, by decide, by decide, by decide⟩
  defaultRosDomainId := ⟨0, by decide⟩

/-- The supervisor's intervals, in seconds, and its number of attempts. -/
structure SuperviseTuning where
  connectTimeoutSec : ℕ
  clientAttempts : ℕ
  retrySec : ℕ
  linkPollSec : ℕ
  apRetrySec : ℕ
  deriving DecidableEq, Repr

/-- The tuning of an image that sets none of it. -/
def defaultTuning : SuperviseTuning := ⟨45, 3, 5, 10, 300⟩

end RobotCtl
