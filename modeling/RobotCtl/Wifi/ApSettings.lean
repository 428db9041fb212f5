import RobotCtl.Wifi.ConfigGen

/-! # Settings of the fallback access point

Each setting is what the last value of its key decodes to, or the built-in
default if there is no such value or it is empty. Loading fails exactly if a
value that is set does not decode within its bounds, or the SSID or the
passphrase is invalid, so nothing is defaulted, cut or changed silently.
-/

namespace RobotCtl.Wifi

open Text Conf Identity Prog

/-- The last assignment of the key gives it this value, which is not empty. -/
def Sets (text key value : Str) : Prop := value ≠ [] ∧ LastAssigns text key value

/-- A setting is what the value that the text sets decodes to, or its default. -/
def Takes {α : Type} (Decodes : Str → α → Prop) (text key : Str) (default a : α) : Prop :=
  (∃ value, Sets text key value ∧ Decodes value a) ∨
    (∀ value, ¬ Sets text key value) ∧ a = default

/-- The value that the text sets does not decode. -/
def Undecodable {α : Type} (Decodes : Str → α → Prop) (text key : Str) : Prop :=
  ∃ value, Sets text key value ∧ ∀ a, ¬ Decodes value a

def IsAddress (value : Str) (ip : Ipv4Addr) : Prop := Ipv4Addr.fromStr value = some ip

/-- A numeral of a positive number up to a bound. -/
def IsNumberUpTo (max : ℕ) (value : Str) (n : ℕ) : Prop := IsNumeral value n ∧ 1 ≤ n ∧ n ≤ max

/-- A text without control characters, which is kept as it is. -/
def IsPlainText (value word : Str) : Prop := word = value ∧ ∀ c ∈ value, isControl c = false

/-- The suffix of a derived SSID, which may be empty. -/
def SsidSuffix (text suffix : Str) : Prop :=
  LastAssigns text "AP_SSID_SUFFIX".toList suffix ∨
    (∀ value, ¬ LastAssigns text "AP_SSID_SUFFIX".toList value) ∧ suffix = "-setup".toList

/-- The SSID that the text sets, or the robot ID followed by the suffix. -/
def NamesSsid (text : Str) (robotId : RobotId) (ssid : Str) : Prop :=
  Sets text "AP_SSID".toList ssid ∨ (∀ value, ¬ Sets text "AP_SSID".toList value) ∧
    ∃ suffix, SsidSuffix text suffix ∧ ssid = robotId.str ++ suffix

def ValidSsid (ssid : Str) : Prop :=
  ssid ≠ [] ∧ (∀ c ∈ ssid, isControl c = false) ∧ utf8Len ssid ≤ 32

def ValidPsk (psk : Str) : Prop :=
  (∀ c ∈ psk, isControl c = false) ∧ 8 ≤ psk.length ∧ psk.length ≤ 63

/-- The configuration is the one that the text means. -/
structure Describes (paths : Paths) (text : Str) (robotId : RobotId) (config : ApConfig) :
    Prop where
  interface : config.interface = paths.wifiInterface
  ssid : NamesSsid text robotId config.ssid.str
  psk : ∀ s, config.psk.map Psk.str = some s ↔ Sets text "AP_PSK".toList s
  address : Takes IsAddress text "AP_ADDRESS".toList ⟨192, 168, 50, 1⟩ config.address
  netmask : Takes IsAddress text "AP_NETMASK".toList ⟨255, 255, 255, 0⟩ config.netmask
  cidr : Takes (IsNumberUpTo 32) text "AP_NETMASK_CIDR".toList 24 config.netmaskCidr
  rangeStart : Takes IsAddress text "AP_DHCP_RANGE_START".toList ⟨192, 168, 50, 10⟩
    config.dhcpRangeStart
  rangeEnd : Takes IsAddress text "AP_DHCP_RANGE_END".toList ⟨192, 168, 50, 50⟩ config.dhcpRangeEnd
  leaseTime : Takes IsPlainText text "AP_DHCP_LEASE_TIME".toList "12h".toList config.dhcpLeaseTime
  channel : Takes (IsNumberUpTo 14) text "AP_CHANNEL".toList 6 config.channel
  country : Takes IsPlainText text "AP_COUNTRY".toList "US".toList config.country

def addressKeys : List Str := ["AP_ADDRESS".toList, "AP_NETMASK".toList,
  "AP_DHCP_RANGE_START".toList, "AP_DHCP_RANGE_END".toList]

def plainTextKeys : List Str := ["AP_DHCP_LEASE_TIME".toList, "AP_COUNTRY".toList]

/-- Something that the text sets is invalid. -/
inductive Misconfigured (text : Str) (robotId : RobotId) : Prop
  | ssid {ssid : Str} : NamesSsid text robotId ssid → ¬ ValidSsid ssid → Misconfigured text robotId
  | psk {psk : Str} : Sets text "AP_PSK".toList psk → ¬ ValidPsk psk → Misconfigured text robotId
  | address {key : Str} : key ∈ addressKeys → Undecodable IsAddress text key →
      Misconfigured text robotId
  | cidr : Undecodable (IsNumberUpTo 32) text "AP_NETMASK_CIDR".toList → Misconfigured text robotId
  | channel : Undecodable (IsNumberUpTo 14) text "AP_CHANNEL".toList → Misconfigured text robotId
  | plainText {key : Str} : key ∈ plainTextKeys → Undecodable IsPlainText text key →
      Misconfigured text robotId

section Values

variable {α : Type} {Decodes : Str → α → Prop} {text key value given : Str} {default a : α}

theorem sets_iff : Sets text key value ↔ value ≠ [] ∧ parseValue text key = some value :=
  and_congr_right fun _ => parseValue_eq_some_iff.symm

theorem Sets.unique {value' : Str} (h : Sets text key value) (h' : Sets text key value') :
    value = value' :=
  Option.some.inj ((sets_iff.mp h).2.symm.trans (sets_iff.mp h').2)

theorem valueOr_of_sets (h : Sets text key value) : valueOr text key given = value := by
  obtain ⟨hn, hp⟩ := sets_iff.mp h
  simp only [valueOr, hp]
  exact if_neg hn

theorem valueOr_of_not_sets (h : ∀ value, ¬ Sets text key value) :
    valueOr text key given = given := by
  unfold valueOr
  cases hp : parseValue text key with
  | none => rfl
  | some value =>
    refine if_pos ?_
    by_contra hn
    exact h value (sets_iff.mpr ⟨hn, hp⟩)

/-- A setting is taken if the value that is set, or else the text of the default, is decoded. -/
theorem takes_iff {r : Except ApConfigError α} (given : Str)
    (hr : r = .ok a ↔ Decodes (valueOr text key given) a)
    (hdefault : Decodes given a ↔ a = default) : r = .ok a ↔ Takes Decodes text key default a := by
  unfold Takes
  by_cases hs : ∃ value, Sets text key value
  · obtain ⟨value, hv⟩ := hs
    rw [hr, valueOr_of_sets hv]
    constructor
    · intro h
      exact Or.inl ⟨value, hv, h⟩
    · rintro (⟨value', hv', h⟩ | ⟨hn, -⟩)
      · rwa [hv.unique hv']
      · exact absurd hv (hn value)
  · have hn : ∀ value, ¬ Sets text key value := not_exists.mp hs
    rw [hr, valueOr_of_not_sets hn, hdefault]
    constructor
    · intro h
      exact Or.inr ⟨hn, h⟩
    · rintro (⟨value, hv, -⟩ | ⟨-, h⟩)
      · exact absurd hv (hn value)
      · exact h

/-- A setting has no value exactly if what is set does not decode. -/
theorem forall_not_takes_iff :
    (∀ a, ¬ Takes Decodes text key default a) ↔ Undecodable Decodes text key := by
  constructor
  · intro h
    by_contra hu
    by_cases hs : ∃ value, Sets text key value
    · obtain ⟨value, hv⟩ := hs
      refine hu ⟨value, hv, fun a ha => h a (Or.inl ⟨value, hv, ha⟩)⟩
    · exact h default (Or.inr ⟨not_exists.mp hs, rfl⟩)
  · rintro ⟨value, hv, hn⟩ a (⟨value', hv', ha⟩ | ⟨hs, -⟩)
    · exact hn a (hv.unique hv' ▸ ha)
    · exact hs value hv

theorem ipv4_eq_ok_iff {default ip : Ipv4Addr} (h : Ipv4Addr.fromStr given = some default) :
    ipv4 text key given = .ok ip ↔ Takes IsAddress text key default ip := by
  refine takes_iff given ?_ ?_
  · unfold ipv4 IsAddress
    cases hp : Ipv4Addr.fromStr (valueOr text key given) <;> simp [hp]
  · rw [IsAddress, h, Option.some.injEq, eq_comm]

theorem valueOr_ne_nil (h : given ≠ []) : valueOr text key given ≠ [] := by
  unfold valueOr
  split
  · split_ifs with hv
    · exact h
    · exact hv
  · exact h

theorem nonempty_eq_ok_iff {word : Str} (hne : given ≠ []) (hp : ∀ c ∈ given, isControl c = false) :
    nonempty text key given = .ok word ↔ Takes IsPlainText text key given word := by
  refine takes_iff given ?_ (and_iff_left hp)
  simp only [nonempty]
  rw [if_neg (valueOr_ne_nil hne)]
  split_ifs with hc
  · obtain ⟨c, hm, hcc⟩ := List.any_eq_true.mp hc
    refine iff_of_false nofun fun h => ?_
    rw [h.2 c hm] at hcc
    cases hcc
  · rw [Except.ok.injEq, IsPlainText, eq_comm]
    refine (and_iff_left fun c hm => ?_).symm
    simpa using List.any_eq_false.mp (Bool.eq_false_iff.mpr hc) c hm

/-- A number within its bounds fits into sixteen bits, so reading it loses nothing. -/
theorem isNumberUpTo_iff {max n : ℕ} (h : max ≤ u16Max) : IsNumberUpTo max value n ↔
    parseUnsigned u16Max value = some n ∧ 1 ≤ n ∧ n ≤ max := by
  rw [IsNumberUpTo, parseUnsigned_eq_some]
  constructor
  · rintro ⟨hn, h₁, h₂⟩
    exact ⟨⟨hn, h₂.trans h⟩, h₁, h₂⟩
  · rintro ⟨⟨hn, -⟩, h₁, h₂⟩
    exact ⟨hn, h₁, h₂⟩

theorem isNumberUpTo_decimal {max m n : ℕ} (h₁ : 1 ≤ m) (h₂ : m ≤ max) (h : max ≤ u16Max) :
    IsNumberUpTo max (decimal m) n ↔ n = m := by
  rw [isNumberUpTo_iff h, parseUnsigned_decimal (h₂.trans h), Option.some.injEq]
  constructor
  · rintro ⟨rfl, -⟩
    rfl
  · rintro rfl
    exact ⟨rfl, h₁, h₂⟩

theorem ok_within_iff {m n max : ℕ} {err : ApConfigError} :
    (if 1 ≤ m ∧ m ≤ max then .ok m else .error err : Except ApConfigError ℕ) = .ok n ↔
      some m = some n ∧ 1 ≤ n ∧ n ≤ max := by
  rw [Option.some.injEq]
  split_ifs with hm
  · rw [Except.ok.injEq]
    exact ⟨fun h => ⟨h, h ▸ hm⟩, And.left⟩
  · exact iff_of_false nofun fun h => hm (h.1 ▸ h.2)

theorem channel_eq_ok_iff {n : ℕ} :
    channel text = .ok n ↔ Takes (IsNumberUpTo 14) text "AP_CHANNEL".toList 6 n := by
  refine takes_iff (decimal defaultChannel) ?_ ?_
  · rw [isNumberUpTo_iff (by decide)]
    simp only [channel]
    cases parseUnsigned u16Max (valueOr text "AP_CHANNEL".toList (decimal defaultChannel)) with
    | none => simp
    | some m => exact ok_within_iff
  · exact isNumberUpTo_decimal (by decide) (by decide) (by decide)

theorem cidr_eq_ok_iff {n : ℕ} :
    cidr text = .ok n ↔ Takes (IsNumberUpTo 32) text "AP_NETMASK_CIDR".toList 24 n := by
  refine takes_iff (decimal defaultNetmaskCidr) ?_ ?_
  · rw [isNumberUpTo_iff (by decide)]
    simp only [cidr]
    cases parseUnsigned u16Max (valueOr text "AP_NETMASK_CIDR".toList
      (decimal defaultNetmaskCidr)) with
    | none => simp
    | some m => exact ok_within_iff
  · exact isNumberUpTo_decimal (by decide) (by decide) (by decide)

end Values

section Network

variable {text : Str} {robotId robotId' : RobotId} {ssid : Ssid} {psk : Option Psk} {s s' : Str}

theorem exists_ssid_iff : (∃ ssid : Ssid, ssid.str = s) ↔ ValidSsid s := by
  constructor
  · rintro ⟨ssid, rfl⟩
    exact ⟨ssid.ne_nil, ssid.printable, ssid.length_le⟩
  · rintro ⟨hn, hp, hl⟩
    exact ⟨⟨s, hn, hp, hl⟩, rfl⟩

theorem exists_psk_iff : (∃ psk : Psk, psk.str = s) ↔ ValidPsk s := by
  constructor
  · rintro ⟨psk, rfl⟩
    exact ⟨psk.printable, psk.le_length, psk.length_le⟩
  · rintro ⟨hp, h₁, h₂⟩
    exact ⟨⟨s, hp, h₁, h₂⟩, rfl⟩

/-- The constructor keeps the SSID as it is. -/
theorem ssid_new_eq_ok_iff : Ssid.new s = .ok ssid ↔ ssid.str = s := by
  constructor
  · unfold Ssid.new
    split_ifs <;> simp [Ssid.ext_iff, eq_comm]
  · rintro rfl
    have hp : ¬ ssid.str.any isControl = true := by simpa using ssid.printable
    rw [Ssid.new, dif_neg ssid.ne_nil, dif_neg hp, dif_neg (Nat.not_lt.mpr ssid.length_le)]

theorem mapError_eq_ok_iff {α ε ε' : Type} {r : Except ε α} {f : ε → ε'} {a : α} :
    r.mapError f = .ok a ↔ r = .ok a := by
  cases r <;> simp [Except.mapError]

theorem ssidSuffix_iff : SsidSuffix text s ↔
    s = (parseValue text "AP_SSID_SUFFIX".toList).getD defaultSsidSuffix := by
  have hd : "-setup".toList = defaultSsidSuffix := rfl
  simp only [SsidSuffix, ← parseValue_eq_some_iff, hd]
  cases parseValue text "AP_SSID_SUFFIX".toList with
  | none => simp
  | some value => simp [eq_comm]

theorem ssidOf_eq_ok_iff : ssidOf text robotId = .ok ssid ↔ NamesSsid text robotId ssid.str := by
  have hderived : derivedSsid text robotId = .ok ssid ↔
      ∃ suffix, SsidSuffix text suffix ∧ ssid.str = robotId.str ++ suffix := by
    simp only [derivedSsid, mapError_eq_ok_iff, ssid_new_eq_ok_iff, ssidSuffix_iff,
      exists_eq_left]
  unfold NamesSsid
  by_cases hs : ∃ value, Sets text "AP_SSID".toList value
  · obtain ⟨value, hv⟩ := hs
    obtain ⟨hn, hp⟩ := sets_iff.mp hv
    simp only [ssidOf, hp]
    rw [if_neg hn, mapError_eq_ok_iff, ssid_new_eq_ok_iff]
    constructor
    · rintro rfl
      exact Or.inl hv
    · rintro (h | ⟨h, -⟩)
      · exact h.unique hv
      · exact absurd hv (h value)
  · have hn : ∀ value, ¬ Sets text "AP_SSID".toList value := not_exists.mp hs
    have he : ssidOf text robotId = derivedSsid text robotId := by
      unfold ssidOf
      cases hp : parseValue text "AP_SSID".toList with
      | none => rfl
      | some value =>
        refine if_pos ?_
        by_contra hne
        exact hn value (sets_iff.mpr ⟨hne, hp⟩)
    rw [he, hderived]
    constructor
    · intro h
      exact Or.inr ⟨hn, h⟩
    · rintro (h | ⟨-, h⟩)
      · exact absurd h (hn _)
      · exact h

theorem exists_namesSsid (text : Str) (robotId : RobotId) : ∃ s, NamesSsid text robotId s := by
  by_cases hs : ∃ value, Sets text "AP_SSID".toList value
  · obtain ⟨value, hv⟩ := hs
    exact ⟨value, Or.inl hv⟩
  · exact ⟨_, Or.inr ⟨not_exists.mp hs, _, ssidSuffix_iff.mpr rfl, rfl⟩⟩

theorem NamesSsid.unique (h : NamesSsid text robotId s) (h' : NamesSsid text robotId s') :
    s = s' := by
  rcases h with h | ⟨hn, suffix, hs, rfl⟩
  · rcases h' with h' | ⟨hn', -⟩
    · exact h.unique h'
    · exact absurd h (hn' _)
  · rcases h' with h' | ⟨-, suffix', hs', rfl⟩
    · exact absurd h' (hn _)
    · rw [ssidSuffix_iff.mp hs, ssidSuffix_iff.mp hs']

/-- Different robots do not share a derived SSID. -/
theorem NamesSsid.ne (hne : robotId ≠ robotId') (hn : ∀ value, ¬ Sets text "AP_SSID".toList value)
    (h : NamesSsid text robotId s) (h' : NamesSsid text robotId' s') : s ≠ s' := by
  obtain ⟨-, suffix, hs, rfl⟩ := h.resolve_left (hn _)
  obtain ⟨-, suffix', hs', rfl⟩ := h'.resolve_left (hn _)
  rw [ssidSuffix_iff.mp hs, ssidSuffix_iff.mp hs']
  exact fun he => hne (RobotId.ext (List.append_cancel_right he))

/-- There is a passphrase exactly if one is set, and it is kept as it is. -/
theorem parseOptional_eq_ok_iff :
    Psk.parseOptional ((parseValue text "AP_PSK".toList).getD []) = .ok psk ↔
      ∀ s, psk.map Psk.str = some s ↔ Sets text "AP_PSK".toList s := by
  have hgiven : ∀ s, Sets text "AP_PSK".toList s ↔
      s ≠ [] ∧ (parseValue text "AP_PSK".toList).getD [] = s := by
    intro s
    rw [sets_iff]
    refine and_congr_right fun hs => ?_
    cases parseValue text "AP_PSK".toList with
    | none => simp [Ne.symm hs]
    | some value => simp
  simp only [hgiven]
  generalize (parseValue text "AP_PSK".toList).getD [] = given
  by_cases hn : given = []
  · subst hn
    have hp : Psk.parseOptional [] = .ok none := rfl
    rw [hp, Except.ok.injEq]
    constructor
    · rintro rfl s
      simp
    · intro h
      cases psk with
      | none => rfl
      | some psk => exact absurd ((h psk.str).mp rfl).2.symm ((h psk.str).mp rfl).1
  · constructor
    · intro h s
      unfold Psk.parseOptional at h
      rw [if_neg hn] at h
      split_ifs at h with h₁ h₂
      obtain rfl := Except.ok.inj h
      simp only [Option.map_some, Option.some.injEq]
      exact ⟨fun he => ⟨he ▸ hn, he⟩, And.right⟩
    · intro h
      obtain ⟨psk, rfl, hs⟩ := Option.map_eq_some_iff.mp ((h given).mpr ⟨hn, rfl⟩)
      subst hs
      have hp : ¬ psk.str.any isControl = true := by simpa using psk.printable
      rw [Psk.parseOptional, if_neg hn, dif_neg hp, dif_pos ⟨psk.le_length, psk.length_le⟩]

end Network

section Load

variable {paths : Paths} {text : Str} {robotId : RobotId} {config : ApConfig}
  {t : List (Event Sys)} {r : Except Error ApConfig}

/-- A step of a computation that succeeds has succeeded. -/
theorem ok_of_bind {α β : Type} {x : Except Error α} {f : α → Except Error β} {b : β}
    (h : x >>= f = .ok b) : ∃ a, x = .ok a ∧ f a = .ok b := by
  cases x with
  | error e => cases h
  | ok a => exact ⟨a, rfl, h⟩

theorem checked_eq_ok_iff {α : Type} {r : Except ApConfigError α} {a : α} :
    checked r = .ok a ↔ r = .ok a := mapError_eq_ok_iff

theorem resolveApConfig_eq_ok_iff : resolveApConfig paths robotId text = .ok config ↔
    Describes paths text robotId config := by
  constructor
  · intro h
    obtain ⟨ssid, hssid, h⟩ := ok_of_bind h
    obtain ⟨psk, hpsk, h⟩ := ok_of_bind h
    obtain ⟨address, haddress, h⟩ := ok_of_bind h
    obtain ⟨netmask, hnetmask, h⟩ := ok_of_bind h
    obtain ⟨netmaskCidr, hcidr, h⟩ := ok_of_bind h
    obtain ⟨rangeStart, hstart, h⟩ := ok_of_bind h
    obtain ⟨rangeEnd, hend, h⟩ := ok_of_bind h
    obtain ⟨leaseTime, hlease, h⟩ := ok_of_bind h
    obtain ⟨channel, hchannel, h⟩ := ok_of_bind h
    obtain ⟨country, hcountry, h⟩ := ok_of_bind h
    cases h
    rw [checked_eq_ok_iff] at hpsk haddress hnetmask hcidr hstart hend hlease hchannel hcountry
    exact ⟨rfl, ssidOf_eq_ok_iff.mp hssid, parseOptional_eq_ok_iff.mp hpsk,
      (ipv4_eq_ok_iff (by decide)).mp haddress, (ipv4_eq_ok_iff (by decide)).mp hnetmask,
      cidr_eq_ok_iff.mp hcidr, (ipv4_eq_ok_iff (by decide)).mp hstart,
      (ipv4_eq_ok_iff (by decide)).mp hend,
      (nonempty_eq_ok_iff (by decide) (by decide)).mp hlease, channel_eq_ok_iff.mp hchannel,
      (nonempty_eq_ok_iff (by decide) (by decide)).mp hcountry⟩
  · intro h
    have hssid := ssidOf_eq_ok_iff.mpr h.ssid
    have hpsk := checked_eq_ok_iff.mpr (parseOptional_eq_ok_iff.mpr h.psk)
    have haddress := checked_eq_ok_iff.mpr
      ((ipv4_eq_ok_iff (show Ipv4Addr.fromStr defaultAddress = _ by decide)).mpr h.address)
    have hnetmask := checked_eq_ok_iff.mpr
      ((ipv4_eq_ok_iff (show Ipv4Addr.fromStr defaultNetmask = _ by decide)).mpr h.netmask)
    have hcidr := checked_eq_ok_iff.mpr (cidr_eq_ok_iff.mpr h.cidr)
    have hstart := checked_eq_ok_iff.mpr
      ((ipv4_eq_ok_iff (show Ipv4Addr.fromStr defaultDhcpRangeStart = _ by decide)).mpr
        h.rangeStart)
    have hend := checked_eq_ok_iff.mpr
      ((ipv4_eq_ok_iff (show Ipv4Addr.fromStr defaultDhcpRangeEnd = _ by decide)).mpr h.rangeEnd)
    have hlease := checked_eq_ok_iff.mpr ((nonempty_eq_ok_iff
      (show defaultDhcpLeaseTime ≠ [] by decide) (by decide)).mpr h.leaseTime)
    have hchannel := checked_eq_ok_iff.mpr (channel_eq_ok_iff.mpr h.channel)
    have hcountry := checked_eq_ok_iff.mpr ((nonempty_eq_ok_iff
      (show defaultCountry ≠ [] by decide) (by decide)).mpr h.country)
    have hface := h.interface
    unfold resolveApConfig
    rw [hssid, hpsk, haddress, hnetmask, hcidr, hstart, hend, hlease, hchannel, hcountry, ← hface]
    rfl

theorem exists_takes {α : Type} {Decodes : Str → α → Prop} {key : Str} (default : α)
    (h : ¬ Undecodable Decodes text key) : ∃ a, Takes Decodes text key default a := by
  by_contra hn
  exact h (forall_not_takes_iff.mp (not_exists.mp hn))

/-- A text without anything invalid means a configuration. -/
theorem exists_describes (h : ¬ Misconfigured text robotId) :
    ∃ config, Describes paths text robotId config := by
  obtain ⟨s, hs⟩ := exists_namesSsid text robotId
  obtain ⟨ssid, rfl⟩ := exists_ssid_iff.mpr (by_contra fun hv => h (.ssid hs hv))
  obtain ⟨psk, hpsk⟩ : ∃ psk : Option Psk, ∀ s, psk.map Psk.str = some s ↔
      Sets text "AP_PSK".toList s := by
    by_cases hp : ∃ value, Sets text "AP_PSK".toList value
    · obtain ⟨value, hv⟩ := hp
      obtain ⟨psk, rfl⟩ := exists_psk_iff.mpr (by_contra fun hn => h (.psk hv hn))
      refine ⟨some psk, fun s => ?_⟩
      rw [Option.map_some, Option.some.injEq]
      exact ⟨fun he => he ▸ hv, hv.unique⟩
    · exact ⟨none, fun s => iff_of_false nofun (not_exists.mp hp s)⟩
  have haddresses : ∀ key ∈ addressKeys, ∀ default, ∃ ip, Takes IsAddress text key default ip :=
    fun key hk default => exists_takes default fun hu => h (.address hk hu)
  have hplain : ∀ key ∈ plainTextKeys, ∀ default, ∃ word, Takes IsPlainText text key default word :=
    fun key hk default => exists_takes default fun hu => h (.plainText hk hu)
  obtain ⟨address, haddress⟩ := haddresses "AP_ADDRESS".toList (by decide) ⟨192, 168, 50, 1⟩
  obtain ⟨netmask, hnetmask⟩ := haddresses "AP_NETMASK".toList (by decide) ⟨255, 255, 255, 0⟩
  obtain ⟨cidr, hcidr⟩ := exists_takes 24 fun hu => h (.cidr hu)
  obtain ⟨rangeStart, hstart⟩ :=
    haddresses "AP_DHCP_RANGE_START".toList (by decide) ⟨192, 168, 50, 10⟩
  obtain ⟨rangeEnd, hend⟩ := haddresses "AP_DHCP_RANGE_END".toList (by decide) ⟨192, 168, 50, 50⟩
  obtain ⟨leaseTime, hlease⟩ := hplain "AP_DHCP_LEASE_TIME".toList (by decide) "12h".toList
  obtain ⟨channel, hchannel⟩ := exists_takes 6 fun hu => h (.channel hu)
  obtain ⟨country, hcountry⟩ := hplain "AP_COUNTRY".toList (by decide) "US".toList
  exact ⟨⟨paths.wifiInterface, ssid, psk, address, netmask, cidr, rangeStart, rangeEnd, leaseTime,
    channel, country⟩, rfl, hs, hpsk, haddress, hnetmask, hcidr, hstart, hend, hlease, hchannel,
    hcountry⟩

theorem Takes.decodable {α : Type} {Decodes : Str → α → Prop} {key : Str} {default a : α}
    (h : Takes Decodes text key default a) : ¬ Undecodable Decodes text key := fun hu =>
  forall_not_takes_iff.mpr hu a h

/-- A text with something invalid means no configuration. -/
theorem Describes.not_misconfigured (h : Describes paths text robotId config) :
    ¬ Misconfigured text robotId := by
  intro hm
  cases hm with
  | ssid hs hv => exact hv (exists_ssid_iff.mp ⟨config.ssid, h.ssid.unique hs⟩)
  | @psk s hs hv =>
    obtain ⟨psk, -, hp⟩ := Option.map_eq_some_iff.mp ((h.psk s).mpr hs)
    exact hv (exists_psk_iff.mp ⟨psk, hp⟩)
  | @address key hk hu =>
    simp only [addressKeys, List.mem_cons, List.not_mem_nil, or_false] at hk
    rcases hk with rfl | rfl | rfl | rfl
    · exact h.address.decodable hu
    · exact h.netmask.decodable hu
    · exact h.rangeStart.decodable hu
    · exact h.rangeEnd.decodable hu
  | cidr hu => exact h.cidr.decodable hu
  | channel hu => exact h.channel.decodable hu
  | @plainText key hk hu =>
    simp only [plainTextKeys, List.mem_cons, List.not_mem_nil, or_false] at hk
    rcases hk with rfl | rfl
    · exact h.leaseTime.decodable hu
    · exact h.country.decodable hu

theorem resolveApConfig_eq_error_iff :
    (∃ err, resolveApConfig paths robotId text = .error err) ↔ Misconfigured text robotId := by
  constructor
  · rintro ⟨err, he⟩
    by_contra hm
    obtain ⟨config, hc⟩ : ∃ config, Describes paths text robotId config := exists_describes hm
    rw [resolveApConfig_eq_ok_iff.mpr hc] at he
    cases he
  · intro hm
    cases hr : resolveApConfig paths robotId text with
    | error err => exact ⟨err, rfl⟩
    | ok config => exact absurd hm (resolveApConfig_eq_ok_iff.mp hr).not_misconfigured

/-- A load reads the file once, and resolves what it holds unless the read failed. -/
theorem returns_loadApConfig (h : Returns (loadApConfig paths robotId).run t r) :
    ∃ reply, t = [⟨.readToString paths.wifiApConf, reply⟩] ∧
      ∀ existing, Finds reply existing →
        r = resolveApConfig paths robotId (existing.getD []) := by
  rcases returns_try_bind_iff.mp h with ⟨err, h₁, rfl⟩ | ⟨existing, t₁, t₂, rfl, h₁, h₂⟩
  · obtain ⟨reply, rfl, hx⟩ := returns_readOptional_iff.mp h₁
    refine ⟨reply, rfl, fun existing he => ?_⟩
    rw [optional_eq_ok_iff.mpr he] at hx
    cases hx
  · obtain ⟨reply, rfl, hx⟩ := returns_readOptional_iff.mp h₁
    obtain ⟨rfl, rfl⟩ := returns_ret_iff.mp h₂
    refine ⟨reply, rfl, fun existing' he => ?_⟩
    rw [optional_eq_ok_iff.mpr he] at hx
    obtain rfl := Except.ok.inj hx
    rfl

theorem describes_of_load (h : Returns (loadApConfig paths robotId).run t (.ok config)) :
    ∃ reply existing, t = [⟨.readToString paths.wifiApConf, reply⟩] ∧
      Finds reply existing ∧ Describes paths (existing.getD []) robotId config := by
  obtain ⟨existing, t₁, t₂, rfl, h₁, h₂⟩ := returns_try_bind_ok_iff.mp h
  obtain ⟨reply, rfl, hx⟩ := returns_readOptional_iff.mp h₁
  obtain ⟨rfl, hc⟩ := returns_ret_iff.mp h₂
  exact ⟨reply, existing, rfl, optional_eq_ok_iff.mp hx.symm, resolveApConfig_eq_ok_iff.mp hc.symm⟩

theorem returns_loadApConfig_of_ok (h : resolveApConfig paths robotId text = .ok config) :
    Returns (loadApConfig paths robotId).run [⟨.readToString paths.wifiApConf, .ok text⟩]
      (.ok config) := by
  refine returns_call_iff.mpr ⟨_, _, rfl, returns_ret_iff.mpr ⟨rfl, ?_⟩⟩
  exact h.symm

/-- A load of a text, or of no file, gives the configuration that the text means, and fails exactly
if something in it is invalid. Different robots do not share a derived SSID. -/
theorem settings_of_load :
    (∀ (paths : Paths) (robotId : RobotId) (t : List (Event Sys)) (r : Except Error ApConfig),
      Returns (loadApConfig paths robotId).run t r →
      ∃ reply, t = [⟨.readToString paths.wifiApConf, reply⟩] ∧
        ∀ existing, Finds reply existing →
          (∀ config, r = .ok config ↔ Describes paths (existing.getD []) robotId config) ∧
          ((∃ err, r = .error err) ↔ Misconfigured (existing.getD []) robotId)) ∧
    ∀ (text : Str) (robotId robotId' : RobotId) (s s' : Str), robotId ≠ robotId' →
      (∀ value, ¬ Sets text "AP_SSID".toList value) → NamesSsid text robotId s →
      NamesSsid text robotId' s' → s ≠ s' := by
  constructor
  · intro paths robotId t r h
    obtain ⟨reply, rfl, hr⟩ := returns_loadApConfig h
    refine ⟨reply, rfl, fun existing he => ?_⟩
    rw [hr existing he]
    exact ⟨fun config => resolveApConfig_eq_ok_iff, resolveApConfig_eq_error_iff⟩
  · intro text robotId robotId' s s' hne hn h h'
    exact h.ne hne hn h'

end Load

section Served

variable {paths : Paths} {robotId : RobotId} {config : ApConfig} {t : List (Event Sys)} {s : Str}

/-- A passphrase of the standard, which is measured in octets. -/
structure LegalPsk (psk : Str) : Prop where
  le_length : 8 ≤ (octets psk).length
  length_le : (octets psk).length ≤ 63
  printable : ∀ b ∈ octets psk, 0x20 ≤ b.toNat ∧ b.toNat ≤ 0x7e

/-- A configuration that hostapd starts with. -/
structure Servable (config : ApConfig) : Prop where
  ssid_pos : 1 ≤ (octets config.ssid.str).length
  ssid_le : (octets config.ssid.str).length ≤ 32
  psk : ∀ s, config.psk.map Psk.str = some s → LegalPsk s

/-- The control characters of ASCII are those outside the printable range. -/
theorem printable_of_ascii {c : Char} (h : c.toNat < 128) (hc : isControl c = false) :
    0x20 ≤ c.toNat ∧ c.toNat ≤ 0x7e := by
  simp only [isControl, Bool.or_eq_false_iff, decide_eq_false_iff_not, Bool.and_eq_false_imp,
    decide_eq_true_eq] at hc
  omega

/-- Characters are octets only in ASCII. -/
theorem ValidPsk.legal_iff (h : ValidPsk s) : LegalPsk s ↔ ∀ c ∈ s, c.toNat < 128 := by
  constructor
  · intro hl
    exact ascii_of_octets fun b hb => Nat.lt_of_le_of_lt (hl.printable b hb).2 (by decide)
  · intro ha
    have ho := octets_of_ascii ha
    have hlen : (octets s).length = s.length := by rw [ho, List.length_map]
    refine ⟨hlen ▸ h.2.1, hlen ▸ h.2.2, fun b hb => ?_⟩
    rw [ho] at hb
    obtain ⟨c, hc, rfl⟩ := List.mem_map.mp hb
    have hlt := ha c hc
    rw [UInt8.toNat_ofNat', Nat.mod_eq_of_lt (by omega)]
    exact printable_of_ascii hlt (h.1 c hc)

theorem servable_iff : Servable config ↔
    ∀ s, config.psk.map Psk.str = some s → ∀ c ∈ s, c.toNat < 128 := by
  have hlegal : ∀ s, config.psk.map Psk.str = some s →
      (LegalPsk s ↔ ∀ c ∈ s, c.toNat < 128) := by
    intro s hs
    obtain ⟨psk, -, hp⟩ := Option.map_eq_some_iff.mp hs
    exact (exists_psk_iff.mp ⟨psk, hp⟩).legal_iff
  constructor
  · intro h s hs
    exact (hlegal s hs).mp (h.psk s hs)
  · intro h
    refine ⟨?_, ?_, fun s hs => (hlegal s hs).mpr (h s hs)⟩
    · rw [length_octets]
      exact utf8Len_pos config.ssid.ne_nil
    · rw [length_octets]
      exact config.ssid.length_le

/-- What is loaded can be served exactly if the passphrase that the text sets is of ASCII
characters. -/
theorem servable_of_load_iff (h : Returns (loadApConfig paths robotId).run t (.ok config)) :
    ∃ reply existing, t = [⟨.readToString paths.wifiApConf, reply⟩] ∧
      Finds reply existing ∧
      (Servable config ↔
        ∀ s, Sets (existing.getD []) "AP_PSK".toList s → ∀ c ∈ s, c.toNat < 128) := by
  obtain ⟨reply, existing, rfl, hx, hd⟩ := describes_of_load h
  refine ⟨reply, existing, rfl, hx, ?_⟩
  rw [servable_iff]
  exact forall_congr' fun s => by rw [hd.psk s]

def protectedText : Str := "AP_PSK=\"correct horse\"\n".toList

theorem servable_of_protected : ∃ config : ApConfig,
    config.psk.map Psk.str = some "correct horse".toList ∧ Servable config := by
  obtain ⟨config, hc⟩ : ∃ config, resolveApConfig rootPaths rootPaths.defaultRobotId protectedText =
      .ok config := ⟨_, rfl⟩
  have hset : Sets protectedText "AP_PSK".toList "correct horse".toList :=
    sets_iff.mpr ⟨by decide, by decide⟩
  obtain ⟨reply, existing, ht, hx, hs⟩ := servable_of_load_iff (returns_loadApConfig_of_ok hc)
  cases ht
  cases hx
  refine ⟨config, ((resolveApConfig_eq_ok_iff.mp hc).psk _).mpr hset, hs.mpr fun s h => ?_⟩
  rw [h.unique hset]
  decide

/-- A passphrase of eight characters of two octets each. -/
def accentedText : Str := "AP_PSK=éééééééé\n".toList

theorem not_servable_of_load : ¬ ∀ (paths : Paths) (robotId : RobotId) (t : List (Event Sys))
    (config : ApConfig), Returns (loadApConfig paths robotId).run t (.ok config) →
    Servable config := by
  intro h
  obtain ⟨config, hc⟩ : ∃ config, resolveApConfig rootPaths rootPaths.defaultRobotId accentedText =
      .ok config := ⟨_, rfl⟩
  have hs := servable_iff.mp (h _ _ _ config (returns_loadApConfig_of_ok hc))
  have hset : Sets accentedText "AP_PSK".toList "éééééééé".toList :=
    sets_iff.mpr ⟨by decide, by decide⟩
  have hlt := hs _ (((resolveApConfig_eq_ok_iff.mp hc).psk _).mpr hset) 'é' (by decide)
  exact absurd hlt (by decide)

end Served

end RobotCtl.Wifi
