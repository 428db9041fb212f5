import RobotCtl.Conf.File
import RobotCtl.Library.Split

/-! # The network interface

The boundary between the WiFi state machine and the `ip` and `iw` commands.
-/

namespace RobotCtl.Wifi

open Text Prog

/-- What a command leaves: its standard output, or why it failed. -/
def outputResult (program : Str) (args : List Str) : Io Output → Except Error Str
  | .ok result => if result.status.success then .ok result.stdout else
      .error [['`'] ++ program ++ [' '] ++ joinWith [' '] args ++ "` failed (".toList ++
        result.status.text ++ "): ".toList ++ trim result.stderr]
  | .error err => .error ["could not run `".toList ++ program ++ "` (is it installed?)".toList,
      err.text]

def output (program : Str) (args : List Str) : Fallible Str :=
  ExceptT.mk ((Sys.output program args).bind fun x => .ret (outputResult program args x))

/-- Runs a command for its effect. -/
def run (program : Str) (args : List Str) : Fallible Unit := do
  let _ ← output program args

def runBestEffort (program : Str) (args : List Str) : Prog Sys Unit :=
  (run program args).run.bind fun _ => .ret ()

section Commands

variable {program : Str} {args : List Str} {t : List (Event Sys)}

/-- The command ran and reported success. -/
def Succeeded : Io Output → Prop
  | .ok result => result.status.success = true
  | .error _ => False

theorem returns_output (x : Io Output) :
    Returns (output program args).run [⟨.output program args, x⟩] (outputResult program args x) :=
  returns_call_iff.mpr ⟨x, [], rfl, .ret _⟩

theorem returns_output_iff {r : Except Error Str} :
    Returns (output program args).run t r ↔
      ∃ x, t = [⟨.output program args, x⟩] ∧ r = outputResult program args x := by
  constructor
  · intro h
    obtain ⟨x, _, rfl, h₁⟩ := returns_call_iff.mp h
    obtain ⟨rfl, rfl⟩ := returns_ret_iff.mp h₁
    exact ⟨x, rfl, rfl⟩
  · rintro ⟨x, rfl, rfl⟩
    exact returns_output x

theorem exists_outputResult_iff {x : Io Output} :
    (∃ text, outputResult program args x = .ok text) ↔ Succeeded x := by
  cases x with
  | error err => simp [outputResult, Succeeded]
  | ok result => by_cases h : result.status.success = true <;> simp [outputResult, Succeeded, h]

theorem returns_run_iff {r : Except Error Unit} :
    Returns (run program args).run t r ↔ ∃ x, t = [⟨.output program args, x⟩] ∧
      r = (outputResult program args x).map fun _ => () := by
  unfold run
  rw [returns_try_map_iff]
  simp only [returns_output_iff]
  constructor
  · rintro ⟨_, ⟨x, rfl, rfl⟩, hr⟩
    exact ⟨x, rfl, hr⟩
  · rintro ⟨x, rfl, hr⟩
    exact ⟨_, ⟨x, rfl, rfl⟩, hr⟩

theorem returns_run_ok_iff :
    Returns (run program args).run t (.ok ()) ↔
      ∃ x, Succeeded x ∧ t = [⟨.output program args, x⟩] := by
  rw [returns_run_iff]
  constructor
  · rintro ⟨x, rfl, hr⟩
    refine ⟨x, ?_, rfl⟩
    cases hx : outputResult program args x with
    | error err => simp [hx, Except.map] at hr
    | ok text => exact exists_outputResult_iff.mp ⟨text, hx⟩
  · rintro ⟨x, hx, rfl⟩
    obtain ⟨text, htext⟩ := exists_outputResult_iff.mpr hx
    exact ⟨x, rfl, by rw [htext]; rfl⟩

end Commands

def ip : Str := "ip".toList

def interfaceExists (interface : Str) : Prog Sys Bool :=
  (output ip ["link".toList, "show".toList, interface]).run.bind fun r => .ret r.isOk

def requireInterface (interface : Str) : Fallible Unit := do
  if ← interfaceExists interface then pure ()
  else throw ["WiFi interface '".toList ++ interface ++ "' does not exist. ".toList ++
    "Set ROBOTCTL_WIFI_INTERFACE to the correct NIC.".toList]

def flushArgs (interface : Str) : List Str :=
  ["addr".toList, "flush".toList, "dev".toList, interface]

def flushAddresses (interface : Str) : Fallible Unit := run ip (flushArgs interface)

def linkUp (interface : Str) : Fallible Unit :=
  run ip ["link".toList, "set".toList, interface, "up".toList]

def addAddress (interface address : Str) : Fallible Unit :=
  run ip ["addr".toList, "add".toList, address, "dev".toList, interface]

/-- The first word after leading whitespace. -/
def firstWord (s : Str) : Option Str :=
  let word := (trimStart s).takeWhile fun c => !isWhitespace c
  if word = [] then none else some word

/-- Extracts the address from the output of `ip -4 addr show`. -/
def parseInetAddress (text : Str) : Option Str :=
  (((lines text).map trim).findSome? (stripPrefix "inet ".toList)).bind firstWord

def ipv4AddressOf : Except Error Str → Option Str
  | .ok text => parseInetAddress text
  | .error _ => none

/-- The current IPv4 address of the interface, if it has one. -/
def ipv4Address (interface : Str) : Prog Sys (Option Str) :=
  (output ip ["-4".toList, "addr".toList, "show".toList, "dev".toList, interface]).run.bind fun r =>
    .ret (ipv4AddressOf r)

/-- What the driver reports that the interface is doing. -/
inductive InterfaceMode where
  | client
  | accessPoint
  | other
  deriving DecidableEq, Repr

def iw : Str := "iw".toList

def infoArgs (interface : Str) : List Str := ["dev".toList, interface, "info".toList]

/-- Extracts the type from the output of `iw dev <if> info`. -/
def parseIwType (text : Str) : Option InterfaceMode :=
  (((lines text).map trim).findSome? (stripPrefix "type ".toList)).map fun kind =>
    if trim kind = "managed".toList ∨ trim kind = "station".toList then .client
    else if trim kind = "AP".toList then .accessPoint
    else .other

def interfaceModeOf : Except Error Str → Option InterfaceMode
  | .ok text => parseIwType text
  | .error _ => none

def interfaceMode (interface : Str) : Prog Sys (Option InterfaceMode) :=
  (output iw (infoArgs interface)).run.bind fun r => .ret (interfaceModeOf r)

/-- Extracts the SSID from the output of `iw dev <if> link`. -/
def parseIwLinkSsid (text : Str) : Option Str :=
  ((((lines text).map trim).findSome? (stripPrefix "SSID: ".toList)).map trim).filter (· ≠ [])

def associatedSsidOf : Except Error Str → Option Str
  | .ok text => parseIwLinkSsid text
  | .error _ => none

/-- The SSID that the interface is associated with, as a client. -/
def associatedSsid (interface : Str) : Prog Sys (Option Str) :=
  (output iw ["dev".toList, interface, "link".toList]).run.bind fun r => .ret (associatedSsidOf r)

end RobotCtl.Wifi
