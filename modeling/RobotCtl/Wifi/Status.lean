import RobotCtl.Identity.Settings
import RobotCtl.Wifi.Directives
import RobotCtl.Wifi.Net

/-! # The reported network

Asked for the status, `iw` says what the interface is doing, but the name and
the security of the access point are derived from `robot.conf` and
`fallback-ap.conf` as they are at that moment.
-/

namespace RobotCtl.Wifi

open Text Conf Prog

/-- The message of an error with its causes on one line. -/
def inline (err : Error) : Str := joinWith ": ".toList err

def modeLabel : Option InterfaceMode → Str
  | some .client => "client".toList
  | some .accessPoint => "fallback AP".toList
  | some .other => "other (not driven by robotctl)".toList
  | none => "unknown (is `iw` installed?)".toList

def modeLine (mode : Option InterfaceMode) : Str := "mode:          ".toList ++ modeLabel mode

def ssidLabel : Str := "ssid:          ".toList

def securityLabel : Str := "security:      ".toList

/-- What is said about the network in this mode. -/
def printNetwork (paths : Paths) : Option InterfaceMode → Fallible Unit
  | some .client => do
    match ← associatedSsid paths.wifiInterface with
    | some ssid => Sys.println (ssidLabel ++ ssid)
    | none => Sys.println (ssidLabel ++ "not associated".toList)
  | some .accessPoint => do
    let identity ← Identity.load paths
    match ← liftM (loadApConfig paths identity.robotId).run with
    | .ok config =>
      Sys.println (ssidLabel ++ config.ssid.str)
      Sys.println (securityLabel ++ config.security.display)
    | .error err => Sys.println ("ap config:     unreadable (".toList ++ inline err ++ [')'])
  | _ => pure ()

/-- Backs `robotctl wifi status`. -/
def printStatus (paths : Paths) : Fallible Unit := do
  let interface := paths.wifiInterface
  Sys.println ("interface:     ".toList ++ interface)
  if ← interfaceExists interface then
    let mode ← interfaceMode interface
    Sys.println (modeLine mode)
    printNetwork paths mode
    let address ← ipv4Address interface
    Sys.println ("address:       ".toList ++ address.getD "none".toList)
    let present ← Sys.isFile paths.wifiClientConf
    Sys.println ("client.conf:   ".toList ++ paths.wifiClientConf.display ++
      if present then [] else " (missing)".toList)
  else
    Sys.println "state:         interface does not exist".toList
    Sys.println "               (set ROBOTCTL_WIFI_INTERFACE to the correct NIC)".toList

/-- What `robotctl status` says of the network. -/
structure WifiSummary where
  interface : Str
  exists_ : Bool
  mode : Option Str
  ssid : Option Str
  security : Option Str
  address : Option Str
  clientConfPresent : Bool

namespace Status

def modeName : InterfaceMode → Str
  | .client => "client".toList
  | .accessPoint => "fallback AP".toList
  | .other => "other".toList

/-- The configuration that the access point would get now. -/
def apConfig (paths : Paths) : Prog Sys (Option ApConfig) := do
  match ← (Identity.load paths).run with
  | .ok identity =>
    let r ← (loadApConfig paths identity.robotId).run
    pure r.toOption
  | .error _ => pure none

def security (paths : Paths) : Option InterfaceMode → Prog Sys (Option Str)
  | some .accessPoint => do
    let config ← apConfig paths
    pure (config.map fun config => config.security.display)
  | _ => pure none

def ssid (paths : Paths) : Option InterfaceMode → Prog Sys (Option Str)
  | some .client => associatedSsid paths.wifiInterface
  | some .accessPoint => do
    let config ← apConfig paths
    pure (config.map fun config => config.ssid.str)
  | _ => pure none

/-- An interface that does not exist is not asked about. -/
def whenFound {α : Type} (found : Bool) (p : Prog Sys (Option α)) : Prog Sys (Option α) :=
  if found then p else pure none

/-- The part of the report that is about the network. -/
def wifi (paths : Paths) : Prog Sys WifiSummary := do
  let found ← interfaceExists paths.wifiInterface
  let mode ← whenFound found (interfaceMode paths.wifiInterface)
  let security ← security paths mode
  let ssid ← ssid paths mode
  let address ← whenFound found (ipv4Address paths.wifiInterface)
  let present ← Sys.isFile paths.wifiClientConf
  pure ⟨paths.wifiInterface, found, mode.map modeName, ssid, security, address, present⟩

end Status

/-- The configuration that the texts of `robot.conf` and `fallback-ap.conf` mean. -/
def apConfigOf (paths : Paths) (robot ap : Option Str) : Except Error ApConfig :=
  resolveApConfig paths (Identity.resolve paths robot).robotId (ap.getD [])

/-- The two texts give the network this name. -/
def NamesNetwork (paths : Paths) (robot ap : Option Str) (name : Str) : Prop :=
  ∃ robotId, Identity.NamesRobot paths robot robotId ∧ NamesSsid (ap.getD []) robotId name

/-- The text asks for a passphrase. -/
def ApProtected (ap : Option Str) : Prop := ∃ psk, Sets (ap.getD []) "AP_PSK".toList psk

/-- Two pairs of texts give the network the same name, and both protect it or neither does. -/
structure SameNetwork (paths : Paths) (robot ap robot' ap' : Option Str) : Prop where
  name : ∃ name, NamesNetwork paths robot ap name ∧ NamesNetwork paths robot' ap' name
  security : ApProtected ap ↔ ApProtected ap'

/-- What a call prints. -/
def printedLines : SysOp → List Str
  | .println line => [line]
  | _ => []

/-- The first type in what `iw` says of the interface is that of an access point. -/
def IsAp (text : Str) : Prop :=
  ∃ before line after kind, lines text = before ++ line :: after ∧
    (∀ l ∈ before, ¬ "type ".toList <+: trim l) ∧ trim line = "type ".toList ++ kind ∧
    trim kind = "AP".toList

/-- The replies while the interface is there, `iw` calls it an access point, and every file can be
read or is missing. -/
def Serving (paths : Paths) : Event Sys → Prop
  | ⟨.output program args, r⟩ =>
    (program = "ip".toList → args = ["link".toList, "show".toList, paths.wifiInterface] →
      Succeeded r) ∧
    (program = "iw".toList → args = ["dev".toList, paths.wifiInterface, "info".toList] →
      Succeeded r ∧ ∀ result, r = .ok result → IsAp result.stdout)
  | ⟨.readToString _, r⟩ => ∃ existing, Finds r existing
  | _ => True

/-- Reporting on a file system that nobody changes, while there is an access point. The state is
what has been printed. -/
def reporting (paths : Paths) (fs : Fs) : Env Sys (List Str) := fun out e out' =>
  Fs.env fs e fs ∧ Serving paths e ∧ out' = out ++ printedLines e.1

/-- What is printed after a label. -/
def reported (label : Str) (out : List Str) : Option Str := out.findSome? (stripPrefix label)

/-- `wifi status` prints the name and the security of the configuration. -/
def Prints (paths : Paths) (fs : Fs) (config : ApConfig) : Prop :=
  ∀ t out, Returns (printStatus paths).run t (.ok ()) → Env.Runs (reporting paths fs) [] t out →
    reported "ssid:          ".toList out = some config.ssid.str ∧
      reported "security:      ".toList out = some config.security.display

/-- `status` reports the name and the security of the configuration. -/
def Summarises (paths : Paths) (fs : Fs) (config : ApConfig) : Prop :=
  ∀ t out summary, Returns (Status.wifi paths) t summary →
    Env.Runs (reporting paths fs) [] t out →
    summary.ssid = some config.ssid.str ∧ summary.security = some config.security.display

variable {paths : Paths} {fs : Fs} {robot ap robot' ap' : Option Str} {config config' : ApConfig}

section Network

theorem namesNetwork_iff {name : Str} (h : apConfigOf paths robot ap = .ok config) :
    NamesNetwork paths robot ap name ↔ config.ssid.str = name := by
  have hs := (resolveApConfig_eq_ok_iff.mp h).ssid
  simp only [NamesNetwork, Identity.namesRobot_iff, exists_eq_left']
  exact ⟨hs.unique, fun hn => hn ▸ hs⟩

theorem security_of_apConfigOf (h : apConfigOf paths robot ap = .ok config) :
    config.security = .wpa2 ↔ ApProtected ap := by
  have hpsk := (resolveApConfig_eq_ok_iff.mp h).psk
  rw [ApProtected, ApConfig.security]
  cases hc : config.psk with
  | none =>
    rw [hc] at hpsk
    refine iff_of_false nofun ?_
    rintro ⟨s, hs⟩
    cases (hpsk s).mpr hs
  | some psk =>
    rw [hc] at hpsk
    exact iff_of_true rfl ⟨psk.str, (hpsk psk.str).mp rfl⟩

theorem sameNetwork_iff (h : apConfigOf paths robot ap = .ok config)
    (h' : apConfigOf paths robot' ap' = .ok config') : SameNetwork paths robot ap robot' ap' ↔
      config'.ssid.str = config.ssid.str ∧ config'.security = config.security := by
  have hsec : config'.security = config.security ↔ (ApProtected ap ↔ ApProtected ap') := by
    rw [← security_of_apConfigOf h, ← security_of_apConfigOf h']
    cases config.security <;> cases config'.security <;> simp
  rw [hsec]
  constructor
  · rintro ⟨⟨name, hn, hn'⟩, hp⟩
    exact ⟨((namesNetwork_iff h').mp hn').trans ((namesNetwork_iff h).mp hn).symm, hp⟩
  · rintro ⟨hn, hp⟩
    exact ⟨⟨_, (namesNetwork_iff h).mpr rfl, (namesNetwork_iff h').mpr hn⟩, hp⟩

end Network

namespace Status

variable {now : ApConfig}

theorem interfaceModeOf_of_isAp {program : Str} {args : List Str} {r : Io Output}
    (hok : Succeeded r) (hap : ∀ result, r = .ok result → IsAp result.stdout) :
    interfaceModeOf (outputResult program args r) = some .accessPoint := by
  cases r with
  | error err => exact hok.elim
  | ok result =>
    obtain ⟨before, line, after, kind, hl, hbefore, hline, hkind⟩ := hap result rfl
    have hok : result.status.success = true := hok
    have hnone : (before.map trim).findSome? (stripPrefix "type ".toList) = none := by
      refine List.findSome?_eq_none_iff.mpr fun s hs => ?_
      obtain ⟨l, hm, rfl⟩ := List.mem_map.mp hs
      exact stripPrefix_eq_none_iff.mpr (hbefore l hm)
    have hfound : stripPrefix "type ".toList (trim line) = some kind :=
      stripPrefix_eq_some_iff.mpr hline
    rw [outputResult, if_pos hok]
    simp only [interfaceModeOf, parseIwType, hl, List.map_append, List.map_cons,
      List.findSome?_append, hnone, Option.none_or, List.findSome?_cons, hfound, Option.map_some]
    rw [if_neg (by rw [hkind]; decide), if_pos hkind]

/-- A file is read as it is. -/
theorem wp_readOptional {path : FilePath} {existing : Option Str} {out : List Str}
    {Q : Except Error (Option Str) → List Str → Prop} (h : Holds fs path existing)
    (hq : Q (.ok existing) out) :
    wp (reporting paths fs) (fun _ => True) (readOptional path).run Q out := by
  refine ⟨trivial, ?_⟩
  rintro r out' ⟨⟨-, hr⟩, ⟨existing', hf⟩, he⟩
  obtain rfl := he.trans (List.append_nil out)
  have hx : optional path r = .ok existing' := optional_eq_ok_iff.mpr hf
  obtain rfl := holds_inj h (holds_of_optional hr hx)
  refine ⟨trivial, ?_⟩
  rw [hx]
  exact hq

theorem wp_println {line : Str} {out : List Str} {Q : Unit → List Str → Prop}
    (hq : Q () (out ++ [line])) :
    wp (reporting paths fs) (fun _ => True) (Sys.println line) Q out := by
  refine ⟨trivial, ?_⟩
  rintro _ _ ⟨-, -, rfl⟩
  exact ⟨trivial, hq⟩

theorem wp_interfaceExists {out : List Str} {Q : Bool → List Str → Prop} (hq : Q true out) :
    wp (reporting paths fs) (fun _ => True) (interfaceExists paths.wifiInterface) Q out := by
  refine ⟨trivial, ?_⟩
  rintro r out' ⟨-, ⟨hs, -⟩, he⟩
  obtain rfl := he.trans (List.append_nil out)
  refine ⟨trivial, ?_⟩
  obtain ⟨text, htext⟩ := exists_outputResult_iff.mpr (hs rfl rfl)
  rw [htext]
  exact hq

theorem wp_interfaceMode {out : List Str} {Q : Option InterfaceMode → List Str → Prop}
    (hq : Q (some .accessPoint) out) :
    wp (reporting paths fs) (fun _ => True) (interfaceMode paths.wifiInterface) Q out := by
  refine ⟨trivial, ?_⟩
  rintro r out' ⟨-, ⟨-, hs⟩, he⟩
  obtain rfl := he.trans (List.append_nil out)
  refine ⟨trivial, ?_⟩
  obtain ⟨hok, hap⟩ := hs rfl rfl
  rw [interfaceModeOf_of_isAp hok hap]
  exact hq

theorem wp_ipv4Address {out : List Str} {Q : Option Str → List Str → Prop}
    (hq : ∀ address, Q address out) :
    wp (reporting paths fs) (fun _ => True) (ipv4Address paths.wifiInterface) Q out := by
  refine ⟨trivial, ?_⟩
  rintro r out' ⟨-, -, he⟩
  obtain rfl := he.trans (List.append_nil out)
  exact ⟨trivial, hq _⟩

theorem wp_load {out : List Str} {Q : Except Error Identity.RobotConfig → List Str → Prop}
    (hr : Holds fs paths.robotConf robot) (hq : Q (.ok (Identity.resolve paths robot)) out) :
    wp (reporting paths fs) (fun _ => True) (Identity.load paths).run Q out :=
  wp_try_bind.mpr (wp_readOptional hr ⟨trivial, hq⟩)

theorem wp_loadApConfig {out : List Str} {Q : Except Error ApConfig → List Str → Prop}
    (ha : Holds fs paths.wifiApConf ap) (hc : apConfigOf paths robot ap = .ok config)
    (hq : Q (.ok config) out) : wp (reporting paths fs) (fun _ => True)
      (loadApConfig paths (Identity.resolve paths robot).robotId).run Q out := by
  refine wp_try_bind.mpr (wp_readOptional ha ⟨trivial, ?_⟩)
  rw [show resolveApConfig _ _ _ = _ from hc]
  exact hq

/-- All that `wifi status` prints while there is an access point. -/
def statusLines (paths : Paths) (config : ApConfig) (address clientConf : Str) : List Str :=
  ["interface:     ".toList ++ paths.wifiInterface, modeLine (some .accessPoint),
    ssidLabel ++ config.ssid.str, securityLabel ++ config.security.display,
    "address:       ".toList ++ address, "client.conf:   ".toList ++ clientConf]

theorem wp_printStatus (hr : Holds fs paths.robotConf robot) (ha : Holds fs paths.wifiApConf ap)
    (hc : apConfigOf paths robot ap = .ok config) :
    wp (reporting paths fs) (fun _ => True) (printStatus paths).run (fun r out => r = .ok () ∧
      ∃ address clientConf, out = statusLines paths config address clientConf) [] := by
  apply wp_try_bind.mpr
  apply wp_lift.mpr
  apply wp_println
  apply wp_try_bind.mpr
  apply wp_lift.mpr
  apply wp_interfaceExists
  simp only [if_true]
  apply wp_try_bind.mpr
  apply wp_lift.mpr
  apply wp_interfaceMode
  apply wp_try_bind.mpr
  apply wp_lift.mpr
  apply wp_println
  apply wp_try_bind.mpr
  apply wp_try_bind.mpr
  apply wp_load hr
  apply wp_try_bind.mpr
  apply wp_lift.mpr
  apply wp_loadApConfig ha hc
  apply wp_try_bind.mpr
  apply wp_lift.mpr
  apply wp_println
  apply wp_lift.mpr
  apply wp_println
  refine wp_try_bind.mpr (wp_lift.mpr (wp_ipv4Address fun address => ?_))
  apply wp_try_bind.mpr
  apply wp_lift.mpr
  apply wp_println
  refine wp_try_bind.mpr (wp_lift.mpr ⟨trivial, ?_⟩)
  rintro present out' ⟨-, -, he⟩
  obtain rfl := he.trans (List.append_nil _)
  refine ⟨trivial, wp_lift.mpr (wp_println ?_)⟩
  exact ⟨rfl, _, _, by rw [List.append_assoc _ paths.wifiClientConf.display]; rfl⟩

theorem wp_apConfig {out : List Str} {Q : Option ApConfig → List Str → Prop}
    (hr : Holds fs paths.robotConf robot) (ha : Holds fs paths.wifiApConf ap)
    (hc : apConfigOf paths robot ap = .ok config) (hq : Q (some config) out) :
    wp (reporting paths fs) (fun _ => True) (Status.apConfig paths) Q out := by
  apply wp_bind.mpr
  apply wp_load hr
  exact wp_bind.mpr (wp_loadApConfig ha hc ⟨trivial, hq⟩)

theorem wp_wifi (hr : Holds fs paths.robotConf robot) (ha : Holds fs paths.wifiApConf ap)
    (hc : apConfigOf paths robot ap = .ok config) :
    wp (reporting paths fs) (fun _ => True) (Status.wifi paths)
      (fun summary _ => summary.ssid = some config.ssid.str ∧
        summary.security = some config.security.display) [] := by
  apply wp_bind.mpr
  apply wp_interfaceExists
  apply wp_bind.mpr
  apply wp_interfaceMode
  refine wp_bind.mpr (wp_bind.mpr (wp_apConfig hr ha hc ⟨trivial, ?_⟩))
  refine wp_bind.mpr (wp_bind.mpr (wp_apConfig hr ha hc ⟨trivial, ?_⟩))
  refine wp_bind.mpr (wp_ipv4Address fun address => ?_)
  refine wp_bind.mpr ⟨trivial, fun present out' he => ?_⟩
  exact ⟨trivial, trivial, rfl, rfl⟩

theorem display_inj {s s' : ApSecurity} (h : s.display = s'.display) : s = s' := by
  cases s <;> cases s' <;> first | rfl | exact absurd h (by decide)

theorem reported_ssid (address clientConf : Str) :
    reported "ssid:          ".toList (statusLines paths config address clientConf) =
      some config.ssid.str := rfl

theorem reported_security (address clientConf : Str) :
    reported "security:      ".toList (statusLines paths config address clientConf) =
      some config.security.display := rfl

/-- The calls of a reporter. -/
def ReportCall (paths : Paths) : SysOp → Prop
  | .output _ _ | .println _ | .isFile _ => True
  | .readToString path => path = paths.robotConf ∨ path = paths.wifiApConf
  | _ => False

theorem println_straight (line : Str) : (Sys.println line).Straight (ReportCall paths) :=
  ⟨trivial, fun _ => trivial⟩

theorem output_straight (program : Str) (args : List Str) :
    (output program args).run.Straight (ReportCall paths) := ⟨trivial, fun _ => trivial⟩

theorem interfaceExists_straight (interface : Str) :
    (interfaceExists interface).Straight (ReportCall paths) :=
  (output_straight _ _).bind fun _ => trivial

theorem interfaceMode_straight (interface : Str) :
    (interfaceMode interface).Straight (ReportCall paths) :=
  (output_straight _ _).bind fun _ => trivial

theorem associatedSsid_straight (interface : Str) :
    (associatedSsid interface).Straight (ReportCall paths) :=
  (output_straight _ _).bind fun _ => trivial

theorem ipv4Address_straight (interface : Str) :
    (ipv4Address interface).Straight (ReportCall paths) :=
  (output_straight _ _).bind fun _ => trivial

theorem load_straight (paths : Paths) : (Identity.load paths).run.Straight (ReportCall paths) :=
  Straight.try_bind ⟨Or.inl rfl, fun _ => trivial⟩ fun _ => trivial

theorem loadApConfig_straight (paths : Paths) (robotId : Identity.RobotId) :
    (loadApConfig paths robotId).run.Straight (ReportCall paths) :=
  Straight.try_bind ⟨Or.inr rfl, fun _ => trivial⟩ fun _ => trivial

theorem printNetwork_straight (mode : Option InterfaceMode) :
    (printNetwork paths mode).run.Straight (ReportCall paths) := by
  rcases mode with _ | _ | _ | _
  · trivial
  · refine (associatedSsid_straight _).lift_bind fun ssid => ?_
    cases ssid with
    | none => exact (println_straight _).bind fun _ => trivial
    | some ssid => exact (println_straight _).bind fun _ => trivial
  · refine (load_straight paths).try_bind fun identity => ?_
    refine (loadApConfig_straight paths _).lift_bind fun r => ?_
    cases r with
    | error err => exact (println_straight _).bind fun _ => trivial
    | ok config =>
      exact (println_straight _).lift_bind fun _ => (println_straight _).bind fun _ => trivial
  · trivial

theorem printStatus_straight : (printStatus paths).run.Straight (ReportCall paths) := by
  refine (println_straight _).lift_bind fun _ => ?_
  refine (interfaceExists_straight _).lift_bind fun found => ?_
  cases found with
  | false =>
    exact (println_straight _).lift_bind fun _ => (println_straight _).bind fun _ => trivial
  | true =>
    refine (interfaceMode_straight _).lift_bind fun mode => ?_
    refine (println_straight _).lift_bind fun _ => (printNetwork_straight mode).try_bind fun _ => ?_
    refine (ipv4Address_straight _).lift_bind fun address => ?_
    refine (println_straight _).lift_bind fun _ => ?_
    refine Straight.lift_bind (p := Sys.isFile _) ⟨trivial, fun _ => trivial⟩ fun present => ?_
    exact (println_straight _).bind fun _ => trivial

theorem apConfig_straight : (Status.apConfig paths).Straight (ReportCall paths) := by
  refine (load_straight paths).bind fun identity => ?_
  cases identity with
  | error err => trivial
  | ok identity => exact (loadApConfig_straight paths _).bind fun _ => trivial

theorem whenFound_straight {α : Type} {p : Prog Sys (Option α)} (found : Bool)
    (h : p.Straight (ReportCall paths)) :
    (Status.whenFound found p).Straight (ReportCall paths) := by
  cases found with
  | false => trivial
  | true => exact h

theorem wifi_straight : (Status.wifi paths).Straight (ReportCall paths) := by
  refine (interfaceExists_straight _).bind fun found => ?_
  refine (whenFound_straight found (interfaceMode_straight _)).bind fun mode => ?_
  have hsecurity : (Status.security paths mode).Straight (ReportCall paths) := by
    rcases mode with _ | _ | _ | _
    · trivial
    · trivial
    · exact apConfig_straight.bind fun _ => trivial
    · trivial
  have hssid : (Status.ssid paths mode).Straight (ReportCall paths) := by
    rcases mode with _ | _ | _ | _
    · trivial
    · exact associatedSsid_straight _
    · exact apConfig_straight.bind fun _ => trivial
    · trivial
  refine hsecurity.bind fun security => hssid.bind fun ssid => ?_
  refine (whenFound_straight found (ipv4Address_straight _)).bind fun address => ?_
  exact Straight.bind (p := Sys.isFile _) ⟨trivial, fun _ => trivial⟩ fun present => trivial

/-- While there is an access point, a reporter gets a reply to everything it asks. -/
theorem exists_reply (hr : Holds fs paths.robotConf robot) (ha : Holds fs paths.wifiApConf ap)
    (o : SysOp) (out : List Str) (ho : ReportCall paths o) :
    ∃ r out', reporting paths fs out ⟨o, r⟩ out' := by
  cases o with
  | output program args =>
    have hap : IsAp "type AP".toList := ⟨[], "type AP".toList, [], "AP".toList, by decide,
      by simp, by decide, by decide⟩
    refine ⟨.ok ⟨⟨true, []⟩, "type AP".toList, []⟩, out, rfl,
      ⟨fun _ _ => rfl, fun _ _ => ⟨rfl, ?_⟩⟩, (List.append_nil out).symm⟩
    intro result hr
    cases hr
    exact hap
  | println line => exact ⟨(), _, rfl, trivial, rfl⟩
  | isFile path => exact ⟨fs.isFile path, _, ⟨rfl, rfl⟩, trivial, rfl⟩
  | readToString path =>
    obtain ⟨existing, hh⟩ : ∃ existing, Holds fs path existing := by
      rcases ho with rfl | rfl
      · exact ⟨robot, hr⟩
      · exact ⟨ap, ha⟩
    obtain ⟨x, hs, hx⟩ := hh.exists_reply
    exact ⟨x, _, ⟨rfl, hs⟩, ⟨existing, optional_eq_ok_iff.mp hx⟩, rfl⟩
  | _ => exact ho.elim

/-- What is printed is the configuration of the files. -/
theorem prints_iff (hr : Holds fs paths.robotConf robot) (ha : Holds fs paths.wifiApConf ap)
    (hc : apConfigOf paths robot ap = .ok now) :
    Prints paths fs config ↔ now.ssid.str = config.ssid.str ∧ now.security = config.security := by
  constructor
  · intro h
    obtain ⟨t, r, out, ht, hrun⟩ :=
      printStatus_straight.exists_run (exists_reply hr ha) ([] : List Str)
    obtain ⟨rfl, address, clientConf, rfl⟩ := wp_returns ht (wp_printStatus hr ha hc) hrun
    obtain ⟨hssid, hsec⟩ := h t _ ht hrun
    rw [reported_ssid] at hssid
    rw [reported_security] at hsec
    exact ⟨Option.some.inj hssid, display_inj (Option.some.inj hsec)⟩
  · rintro ⟨hs, hp⟩ t out ht hrun
    obtain ⟨-, address, clientConf, rfl⟩ := wp_returns ht (wp_printStatus hr ha hc) hrun
    rw [reported_ssid, reported_security, hs, hp]
    exact ⟨rfl, rfl⟩

theorem summarises_iff (hr : Holds fs paths.robotConf robot) (ha : Holds fs paths.wifiApConf ap)
    (hc : apConfigOf paths robot ap = .ok now) : Summarises paths fs config ↔
      now.ssid.str = config.ssid.str ∧ now.security = config.security := by
  constructor
  · intro h
    obtain ⟨t, summary, out, ht, hrun⟩ :=
      wifi_straight.exists_run (exists_reply hr ha) ([] : List Str)
    obtain ⟨hssid, hsec⟩ := h t out summary ht hrun
    obtain ⟨hssid', hsec'⟩ := wp_returns ht (wp_wifi hr ha hc) hrun
    exact ⟨Option.some.inj (hssid'.symm.trans hssid),
      display_inj (Option.some.inj (hsec'.symm.trans hsec))⟩
  · rintro ⟨hs, hp⟩ t out summary ht hrun
    rw [← hs, ← hp]
    exact wp_returns ht (wp_wifi hr ha hc) hrun

end Status

end RobotCtl.Wifi
