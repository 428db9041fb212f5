import RobotCtl.Conf.File
import RobotCtl.Config
import RobotCtl.Library.Ipv4

/-! # Fallback access point configuration

The configuration of the recovery access point is read from `fallback-ap.conf`,
with a default for every key that is missing or empty, and rendered for hostapd
and dnsmasq. An empty passphrase means an open network.
-/

namespace RobotCtl.Wifi

open Text Conf Identity

/-- The longest SSID, in octets. -/
def ssidMaxBytes : ℕ := 32

def pskMinChars : ℕ := 8

def pskMaxChars : ℕ := 63

/-- The last channel of the 2.4 GHz band. -/
def channelMax : ℕ := 14

def defaultSsidSuffix : Str := "-setup".toList

def defaultAddress : Str := "192.168.50.1".toList

def defaultNetmask : Str := "255.255.255.0".toList

def defaultNetmaskCidr : ℕ := 24

def defaultDhcpRangeStart : Str := "192.168.50.10".toList

def defaultDhcpRangeEnd : Str := "192.168.50.50".toList

def defaultDhcpLeaseTime : Str := "12h".toList

def defaultChannel : ℕ := 6

def defaultCountry : Str := "US".toList

inductive ApConfigError where
  | emptySsid
  | ssidTooLong (ssid : Str) (len : ℕ)
  | pskLength (len : ℕ)
  | controlCharacter (field : Str)
  | notAnIpv4Address (field value : Str)
  | notANumber (field value : Str)
  | channelOutOfRange (channel : ℕ)
  | cidrOutOfRange (cidr : ℕ)
  | empty (field : Str)
  deriving DecidableEq, Repr

def ApConfigError.message : ApConfigError → Str
  | emptySsid => "AP_SSID must not be empty.".toList
  | ssidTooLong ssid len => "AP_SSID must be ".toList ++ decimal ssidMaxBytes ++
      " bytes or fewer. '".toList ++ ssid ++ "' is ".toList ++ decimal len ++ ['.']
  | pskLength len => "AP_PSK must be between ".toList ++ decimal pskMinChars ++ " and ".toList ++
      decimal pskMaxChars ++
      " characters, or empty for an open network. Supplied passphrase is ".toList ++
      decimal len ++ ['.']
  | controlCharacter field => field ++ " must not contain control characters.".toList
  | notAnIpv4Address field value =>
      field ++ "='".toList ++ value ++ "' is not a valid IPv4 address.".toList
  | notANumber field value => field ++ "='".toList ++ value ++ "' is not a valid number.".toList
  | channelOutOfRange channel => "AP_CHANNEL must be between 1 and ".toList ++
      decimal channelMax ++
      " (the generated config is hw_mode=g, i.e. 2.4 GHz). Found ".toList ++
      decimal channel ++ ['.']
  | cidrOutOfRange cidr =>
      "AP_NETMASK_CIDR must be between 1 and 32. Found ".toList ++ decimal cidr ++ ['.']
  | empty field => field ++ " must not be empty.".toList

/-- A validated SSID. -/
@[ext] structure Ssid where
  str : Str
  ne_nil : str ≠ []
  printable : ∀ c ∈ str, isControl c = false
  length_le : utf8Len str ≤ ssidMaxBytes

/-- A validated WPA2 passphrase. -/
@[ext] structure Psk where
  str : Str
  printable : ∀ c ∈ str, isControl c = false
  le_length : pskMinChars ≤ str.length
  length_le : str.length ≤ pskMaxChars

def Ssid.new (ssid : Str) : Except ApConfigError Ssid :=
  if h₁ : ssid = [] then .error .emptySsid
  else if h₂ : ssid.any isControl = true then .error (.controlCharacter "AP_SSID".toList)
  else if h₃ : ssidMaxBytes < utf8Len ssid then .error (.ssidTooLong ssid (utf8Len ssid))
  else .ok ⟨ssid, h₁, by simpa using h₂, Nat.not_lt.mp h₃⟩

/-- An empty passphrase means that there is none. -/
def Psk.parseOptional (psk : Str) : Except ApConfigError (Option Psk) :=
  if psk = [] then .ok none
  else if h₁ : psk.any isControl = true then .error (.controlCharacter "AP_PSK".toList)
  else if h₂ : pskMinChars ≤ psk.length ∧ psk.length ≤ pskMaxChars then
    .ok (some ⟨psk, by simpa using h₁, h₂.1, h₂.2⟩)
  else .error (.pskLength psk.length)

inductive ApSecurity where
  | open_
  | wpa2
  deriving DecidableEq, Repr

def ApSecurity.display : ApSecurity → Str
  | open_ => "open (no passphrase)".toList
  | wpa2 => "WPA2".toList

structure ApConfig where
  interface : Str
  ssid : Ssid
  psk : Option Psk
  address : Ipv4Addr
  netmask : Ipv4Addr
  netmaskCidr : ℕ
  dhcpRangeStart : Ipv4Addr
  dhcpRangeEnd : Ipv4Addr
  dhcpLeaseTime : Str
  channel : ℕ
  country : Str

def ApConfig.security (config : ApConfig) : ApSecurity :=
  match config.psk with
  | some _ => .wpa2
  | none => .open_

/-- A key that is missing and one that is empty both take the default. -/
def valueOr (text field default : Str) : Str :=
  match parseValue text field with
  | some value => if value = [] then default else value
  | none => default

def ipv4 (text field default : Str) : Except ApConfigError Ipv4Addr :=
  let raw := valueOr text field default
  match Ipv4Addr.fromStr raw with
  | some ip => .ok ip
  | none => .error (.notAnIpv4Address field raw)

def nonempty (text field default : Str) : Except ApConfigError Str :=
  let raw := valueOr text field default
  if raw = [] then .error (.empty field)
  else if raw.any isControl = true then .error (.controlCharacter field)
  else .ok raw

/-- The largest value of the integer type that numbers are read as. -/
def u16Max : ℕ := 65535

def channel (text : Str) : Except ApConfigError ℕ :=
  let field := "AP_CHANNEL".toList
  let raw := valueOr text field (decimal defaultChannel)
  match parseUnsigned u16Max raw with
  | none => .error (.notANumber field raw)
  | some parsed => if 1 ≤ parsed ∧ parsed ≤ channelMax then .ok parsed
      else .error (.channelOutOfRange parsed)

def cidr (text : Str) : Except ApConfigError ℕ :=
  let field := "AP_NETMASK_CIDR".toList
  let raw := valueOr text field (decimal defaultNetmaskCidr)
  match parseUnsigned u16Max raw with
  | none => .error (.notANumber field raw)
  | some parsed => if 1 ≤ parsed ∧ parsed ≤ 32 then .ok parsed else .error (.cidrOutOfRange parsed)

/-- The SSID derived from the robot ID, for a file that sets none. -/
def derivedSsid (text : Str) (robotId : RobotId) : Except Error Ssid :=
  let suffix := (parseValue text "AP_SSID_SUFFIX".toList).getD defaultSsidSuffix
  (Ssid.new (robotId.str ++ suffix)).mapError fun err =>
    ["deriving the fallback AP SSID from ROBOT_ID='".toList ++ robotId.str ++
      "' and AP_SSID_SUFFIX='".toList ++ suffix ++ "'".toList, err.message]

def ssidOf (text : Str) (robotId : RobotId) : Except Error Ssid :=
  match parseValue text "AP_SSID".toList with
  | some explicit => if explicit = [] then derivedSsid text robotId
      else (Ssid.new explicit).mapError fun err => [err.message]
  | none => derivedSsid text robotId

/-- An error of the configuration as the message of a failed command. -/
def checked {α : Type} (r : Except ApConfigError α) : Except Error α :=
  r.mapError fun err => [err.message]

/-- What the text of `fallback-ap.conf` means; no file means an empty one. -/
def resolveApConfig (paths : Paths) (robotId : RobotId) (text : Str) : Except Error ApConfig := do
  let ssid ← ssidOf text robotId
  let psk ← checked (Psk.parseOptional ((parseValue text "AP_PSK".toList).getD []))
  let address ← checked (ipv4 text "AP_ADDRESS".toList defaultAddress)
  let netmask ← checked (ipv4 text "AP_NETMASK".toList defaultNetmask)
  let netmaskCidr ← checked (cidr text)
  let dhcpRangeStart ← checked (ipv4 text "AP_DHCP_RANGE_START".toList defaultDhcpRangeStart)
  let dhcpRangeEnd ← checked (ipv4 text "AP_DHCP_RANGE_END".toList defaultDhcpRangeEnd)
  let dhcpLeaseTime ← checked (nonempty text "AP_DHCP_LEASE_TIME".toList defaultDhcpLeaseTime)
  let channel ← checked (channel text)
  let country ← checked (nonempty text "AP_COUNTRY".toList defaultCountry)
  pure ⟨paths.wifiInterface, ssid, psk, address, netmask, netmaskCidr, dhcpRangeStart,
    dhcpRangeEnd, dhcpLeaseTime, channel, country⟩

/-- Loads and validates `fallback-ap.conf`. -/
def loadApConfig (paths : Paths) (robotId : RobotId) : Fallible ApConfig := do
  let existing ← readOptional paths.wifiApConf
  liftExcept (resolveApConfig paths robotId (existing.getD []))

/-- Without the WPA lines the network is open. -/
def wpaLines : Option Psk → List Str
  | none => []
  | some psk => ["wpa=2".toList, "wpa_key_mgmt=WPA-PSK".toList,
      "wpa_passphrase=".toList ++ psk.str, "rsn_pairwise=CCMP".toList]

def renderHostapdConf (config : ApConfig) : Str :=
  joinLines (["interface=".toList ++ config.interface,
    "driver=nl80211".toList,
    "ssid=".toList ++ config.ssid.str,
    "hw_mode=g".toList,
    "channel=".toList ++ decimal config.channel,
    "country_code=".toList ++ config.country,
    "ieee80211n=1".toList,
    "wmm_enabled=1".toList,
    [],
    "auth_algs=1".toList] ++ wpaLines config.psk)

def renderDnsmasqConf (config : ApConfig) : Str :=
  joinLines ["interface=".toList ++ config.interface,
    "bind-interfaces".toList,
    "dhcp-range=".toList ++ config.dhcpRangeStart.display ++ ',' :: config.dhcpRangeEnd.display ++
      ',' :: config.netmask.display ++ ',' :: config.dhcpLeaseTime,
    "dhcp-option=3,".toList ++ config.address.display,
    "dhcp-option=6,".toList ++ config.address.display,
    "domain-needed".toList,
    "bogus-priv".toList]

end RobotCtl.Wifi
