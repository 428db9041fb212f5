import RobotCtl.Wifi.ApSettings

/-! # Generated directives

A generated file is read line by line, and a line is cut at its first equals
sign. No value of a loaded configuration contains a control character, so every
value stays on its own line and is read back as it was.
-/

namespace RobotCtl.Wifi

open Text Conf Identity Prog

variable {paths : Paths} {robotId : RobotId} {config : ApConfig} {text : Str}
  {t : List (Event Sys)}

/-- The lines of a configuration file that are not blank, cut at their first equals sign. -/
def directives (text : Str) : List (Option (Str × Str)) :=
  ((split '\n' text).filter fun line => trim line ≠ []).map (splitOnce '=')

/-- What the hostapd configuration has to say of any network. -/
def networkDirectives (config : ApConfig) : List (Str × Str) :=
  [("interface".toList, config.interface), ("driver".toList, "nl80211".toList),
    ("ssid".toList, config.ssid.str), ("hw_mode".toList, ['g']),
    ("channel".toList, decimal config.channel), ("country_code".toList, config.country),
    ("ieee80211n".toList, ['1']), ("wmm_enabled".toList, ['1']), ("auth_algs".toList, ['1'])]

/-- What it has to say of a protected network. -/
def wpaDirectives : Option Psk → List (Str × Str)
  | none => []
  | some psk => [("wpa".toList, ['2']), ("wpa_key_mgmt".toList, "WPA-PSK".toList),
      ("wpa_passphrase".toList, psk.str), ("rsn_pairwise".toList, "CCMP".toList)]

/-- The line of a directive. -/
def directiveLine (d : Str × Str) : Str := d.1 ++ '=' :: d.2

/-- A name that a line can be cut after: visible, and without an equals sign. -/
def IsName (name : Str) : Prop := name ≠ [] ∧ (∀ c ∈ name, isWhitespace c = false) ∧ '=' ∉ name

instance (name : Str) : Decidable (IsName name) :=
  inferInstanceAs (Decidable (_ ∧ _ ∧ _))

/-- A directive that stays on its own line and is read back. -/
structure Safe (d : Str × Str) : Prop where
  name : IsName d.1
  printable : ∀ c ∈ d.2, isControl c = false

theorem newline_not_mem {s : Str} (h : ∀ c ∈ s, isControl c = false) : '\n' ∉ s := fun hm => by
  have hc := h '\n' hm
  rw [isControl_newline] at hc
  cases hc

theorem isControl_of_isDigit {c : Char} (h : isDigit c = true) : isControl c = false := by
  obtain ⟨h₁, h₂⟩ := isDigit_iff.mp h
  simp only [isControl, Bool.or_eq_false_iff, decide_eq_false_iff_not, Bool.and_eq_false_imp,
    decide_eq_true_eq]
  omega

namespace Safe

variable {d : Str × Str}

theorem newline_not_mem_line (h : Safe d) : '\n' ∉ directiveLine d := by
  intro hm
  rcases List.mem_append.mp hm with hm | hm
  · exact absurd (h.name.2.1 _ hm) (by decide)
  · rcases List.mem_cons.mp hm with hm | hm
    · exact absurd hm (by decide)
    · exact newline_not_mem h.printable hm

theorem trim_line_ne_nil (h : Safe d) : trim (directiveLine d) ≠ [] := by
  rw [directiveLine, trim_append _ h.name.1 h.name.2.1]
  simp [h.name.1]

theorem pair {name value : Str} (hn : IsName name) (hv : ∀ c ∈ value, isControl c = false) :
    Safe (name, value) := ⟨hn, hv⟩

theorem splitOnce_line (h : Safe d) : splitOnce '=' (directiveLine d) = some d :=
  splitOnce_append d.2 h.name.2.2

end Safe

theorem filter_map_directiveLine {ds : List (Str × Str)} (h : ∀ d ∈ ds, Safe d) :
    ((ds.map directiveLine).filter fun line => trim line ≠ []) = ds.map directiveLine := by
  refine List.filter_eq_self.mpr fun line hl => ?_
  obtain ⟨d, hd, rfl⟩ := List.mem_map.mp hl
  simpa using (h d hd).trim_line_ne_nil

/-- Two blocks of safe directives, with a blank line between them, are read back in order. -/
theorem directives_joinLines {ds ds' : List (Str × Str)} (h : ∀ d ∈ ds ++ ds', Safe d) :
    directives (joinLines (ds.map directiveLine ++ [] :: ds'.map directiveLine)) =
      (ds ++ ds').map some := by
  obtain ⟨hs, hs'⟩ := List.forall_mem_append.mp h
  have hn : ∀ {es : List (Str × Str)}, (∀ d ∈ es, Safe d) →
      ∀ line ∈ es.map directiveLine, '\n' ∉ line := by
    intro es he line hl
    obtain ⟨d, hd, rfl⟩ := List.mem_map.mp hl
    exact (he d hd).newline_not_mem_line
  have hblank : (([] : Str) :: ds'.map directiveLine).filter (fun line => trim line ≠ []) =
      ds'.map directiveLine := by
    rw [List.filter_cons_of_neg (by simp), filter_map_directiveLine hs']
  have hend : ([[]] : List Str).filter (fun line => trim line ≠ []) = [] := rfl
  rw [directives, split_joinLines (List.forall_mem_append.mpr
      ⟨hn hs, List.forall_mem_cons.mpr ⟨by simp, hn hs'⟩⟩),
    List.filter_append, List.filter_append, filter_map_directiveLine hs, hblank, hend,
    List.append_nil, ← List.map_append, List.map_map]
  exact List.map_congr_left fun d hd => (h d hd).splitOnce_line

/-- Nothing in the configuration can start a new line. -/
structure Printable (config : ApConfig) : Prop where
  interface : ∀ c ∈ config.interface, isControl c = false
  leaseTime : ∀ c ∈ config.dhcpLeaseTime, isControl c = false
  country : ∀ c ∈ config.country, isControl c = false

theorem safe_networkDirectives (h : Printable config) : ∀ d ∈ networkDirectives config, Safe d := by
  have hd : ∀ c ∈ decimal config.channel, isControl c = false :=
    fun c hc => isControl_of_isDigit (isDigit_of_mem_decimal hc)
  simp only [networkDirectives, List.forall_mem_cons, List.not_mem_nil, false_imp_iff, forall_const,
    and_true]
  exact ⟨.pair (by decide) h.interface, .pair (by decide) (by decide),
    .pair (by decide) config.ssid.printable, .pair (by decide) (by decide), .pair (by decide) hd,
    .pair (by decide) h.country, .pair (by decide) (by decide), .pair (by decide) (by decide),
    .pair (by decide) (by decide)⟩

theorem safe_wpaDirectives (psk : Option Psk) : ∀ d ∈ wpaDirectives psk, Safe d := by
  cases psk with
  | none => simp [wpaDirectives]
  | some psk =>
    simp only [wpaDirectives, List.forall_mem_cons, List.not_mem_nil, false_imp_iff, forall_const,
      and_true]
    exact ⟨.pair (by decide) (by decide), .pair (by decide) (by decide),
      .pair (by decide) psk.printable, .pair (by decide) (by decide)⟩

/-- The hostapd configuration consists of its directives. -/
theorem directives_renderHostapdConf (h : Printable config) :
    directives (renderHostapdConf config) =
    (networkDirectives config ++ wpaDirectives config.psk).map some := by
  have hsafe := List.forall_mem_append.mpr ⟨safe_networkDirectives h, safe_wpaDirectives config.psk⟩
  have hlines : renderHostapdConf config = joinLines (((networkDirectives config).take 8).map
      directiveLine ++ [] :: ((networkDirectives config).drop 8 ++
        wpaDirectives config.psk).map directiveLine) := by
    unfold renderHostapdConf
    cases config.psk <;> rfl
  have hblocks : (networkDirectives config).take 8 ++ ((networkDirectives config).drop 8 ++
      wpaDirectives config.psk) = networkDirectives config ++ wpaDirectives config.psk := rfl
  rw [hlines, directives_joinLines (hblocks ▸ hsafe), hblocks]

section Dnsmasq

/-- What can be read back from a dnsmasq configuration. -/
structure DnsmasqSettings where
  interface : Str
  rangeStart : Ipv4Addr
  rangeEnd : Ipv4Addr
  netmask : Ipv4Addr
  leaseTime : Str
  router : Ipv4Addr
  dns : Ipv4Addr

/-- Reads a range as three addresses and a lease time. -/
def readDhcpRange (value : Str) : Option (Ipv4Addr × Ipv4Addr × Ipv4Addr × Str) := do
  let (rangeStart, rest) ← splitOnce ',' value
  let (rangeEnd, rest) ← splitOnce ',' rest
  let (netmask, leaseTime) ← splitOnce ',' rest
  pure (← Ipv4Addr.fromStr rangeStart, ← Ipv4Addr.fromStr rangeEnd, ← Ipv4Addr.fromStr netmask,
    leaseTime)

/-- Reads an option as its number and an address. -/
def readDhcpOption (value : Str) : Option (Str × Ipv4Addr) := do
  let (number, address) ← splitOnce ',' value
  pure (number, ← Ipv4Addr.fromStr address)

def readDnsmasq (text : Str) : Option DnsmasqSettings :=
  match (split '\n' text).map (splitOnce '=') with
  | [some (_, interface), _, some (_, range), some (_, router), some (_, dns), _, _, _] => do
    let (rangeStart, rangeEnd, netmask, leaseTime) ← readDhcpRange range
    let (_, router) ← readDhcpOption router
    let (_, dns) ← readDhcpOption dns
    pure ⟨interface, rangeStart, rangeEnd, netmask, leaseTime, router, dns⟩
  | _ => none

def dnsmasqLines (config : ApConfig) : List Str :=
  ["interface=".toList ++ config.interface,
    "bind-interfaces".toList,
    "dhcp-range=".toList ++ config.dhcpRangeStart.display ++ ',' :: config.dhcpRangeEnd.display ++
      ',' :: config.netmask.display ++ ',' :: config.dhcpLeaseTime,
    "dhcp-option=3,".toList ++ config.address.display,
    "dhcp-option=6,".toList ++ config.address.display,
    "domain-needed".toList,
    "bogus-priv".toList]

theorem comma_not_mem_display (ip : Ipv4Addr) : ',' ∉ ip.display := fun h => by
  rcases Ipv4Addr.mem_display h with h | h
  · exact absurd h (by decide)
  · exact absurd h (by decide)

theorem newline_not_mem_display (ip : Ipv4Addr) : '\n' ∉ ip.display := fun h => by
  rcases Ipv4Addr.mem_display h with h | h
  · exact absurd h (by decide)
  · exact absurd h (by decide)

theorem split_renderDnsmasqConf (h : Printable config) :
    split '\n' (renderDnsmasqConf config) = dnsmasqLines config ++ [[]] := by
  apply split_joinLines
  have hi := newline_not_mem h.interface
  have hl := newline_not_mem h.leaseTime
  simp [newline_not_mem_display, hi, hl]

theorem readDhcpRange_display (a b c : Ipv4Addr) (leaseTime : Str) :
    readDhcpRange (a.display ++ ',' :: b.display ++ ',' :: c.display ++ ',' :: leaseTime) =
      some (a, b, c, leaseTime) := by
  simp [readDhcpRange, splitOnce_append, comma_not_mem_display]

theorem readDhcpOption_display {number : Str} (h : ',' ∉ number) (ip : Ipv4Addr) :
    readDhcpOption (number ++ ',' :: ip.display) = some (number, ip) := by
  simp [readDhcpOption, splitOnce_append _ h]

/-- Everything that dnsmasq is told can be read back from its configuration. -/
theorem readDnsmasq_renderDnsmasqConf (h : Printable config) :
    readDnsmasq (renderDnsmasqConf config) = some ⟨config.interface, config.dhcpRangeStart,
      config.dhcpRangeEnd, config.netmask, config.dhcpLeaseTime, config.address,
      config.address⟩ := by
  have hcut : ∀ (name value : Str), IsName name →
      splitOnce '=' (name ++ '=' :: value) = some (name, value) := fun name value hn =>
    splitOnce_append value hn.2.2
  have hsplit : (split '\n' (renderDnsmasqConf config)).map (splitOnce '=') =
      [some ("interface".toList, config.interface), none,
        some ("dhcp-range".toList, config.dhcpRangeStart.display ++ ',' ::
          config.dhcpRangeEnd.display ++ ',' :: config.netmask.display ++ ',' ::
          config.dhcpLeaseTime),
        some ("dhcp-option".toList, ['3'] ++ ',' :: config.address.display),
        some ("dhcp-option".toList, ['6'] ++ ',' :: config.address.display), none, none, none] := by
    rw [split_renderDnsmasqConf h]
    simp only [dnsmasqLines, List.cons_append, List.nil_append, List.map_cons, List.map_nil]
    refine List.cons_eq_cons.mpr ⟨hcut "interface".toList _ (by decide), ?_⟩
    refine List.cons_eq_cons.mpr ⟨rfl, ?_⟩
    refine List.cons_eq_cons.mpr ⟨hcut "dhcp-range".toList _ (by decide), ?_⟩
    refine List.cons_eq_cons.mpr ⟨hcut "dhcp-option".toList _ (by decide), ?_⟩
    refine List.cons_eq_cons.mpr ⟨hcut "dhcp-option".toList _ (by decide), rfl⟩
  simp only [readDnsmasq, hsplit, readDhcpRange_display,
    readDhcpOption_display (show ',' ∉ ['3'] by decide),
    readDhcpOption_display (show ',' ∉ ['6'] by decide)]
  rfl

end Dnsmasq

section Load

theorem printable_of_takes {key default word : Str} (h : Takes IsPlainText text key default word)
    (hd : ∀ c ∈ default, isControl c = false) : ∀ c ∈ word, isControl c = false := by
  rcases h with ⟨value, -, rfl, hp⟩ | ⟨-, rfl⟩
  · exact hp
  · exact hd

/-- What a text means can be written out line by line. -/
theorem Describes.printable (h : Describes paths text robotId config)
    (hi : ∀ c ∈ paths.wifiInterface, isControl c = false) : Printable config :=
  ⟨h.interface ▸ hi, printable_of_takes h.leaseTime (by decide),
    printable_of_takes h.country (by decide)⟩

/-- The files generated from a loaded configuration say what was validated and nothing else. The
network is protected exactly if the last passphrase in the text is not empty. -/
theorem directives_of_load (hi : ∀ c ∈ paths.wifiInterface, isControl c = false)
    (h : Returns (loadApConfig paths robotId).run t (.ok config)) :
    ∃ reply existing, t = [⟨.readToString paths.wifiApConf, reply⟩] ∧
      Finds reply existing ∧ config.interface = paths.wifiInterface ∧
      directives (renderHostapdConf config) =
        (networkDirectives config ++ wpaDirectives config.psk).map some ∧
      (∀ s, s ∈ config.psk.map Psk.str ↔
        s ≠ [] ∧ LastAssigns (existing.getD []) "AP_PSK".toList s) ∧
      split '\n' (renderDnsmasqConf config) = dnsmasqLines config ++ [[]] ∧
      readDnsmasq (renderDnsmasqConf config) = some ⟨config.interface, config.dhcpRangeStart,
        config.dhcpRangeEnd, config.netmask, config.dhcpLeaseTime, config.address,
        config.address⟩ := by
  obtain ⟨reply, existing, rfl, hx, hd⟩ := describes_of_load h
  have hp := hd.printable hi
  exact ⟨reply, existing, rfl, hx, hd.interface, directives_renderHostapdConf hp, hd.psk,
    split_renderDnsmasqConf hp, readDnsmasq_renderDnsmasqConf hp⟩

theorem directives_of_protected : ∃ config : ApConfig,
    "correct horse".toList ∈ config.psk.map Psk.str ∧
    directives (renderHostapdConf config) =
      (networkDirectives config ++ wpaDirectives config.psk).map some := by
  obtain ⟨config, hc⟩ : ∃ config, resolveApConfig rootPaths rootPaths.defaultRobotId protectedText =
      .ok config := ⟨_, rfl⟩
  obtain ⟨reply, existing, ht, hx, -, hd, hpsk, -⟩ := directives_of_load (by decide)
    (returns_loadApConfig_of_ok hc)
  cases ht
  cases hx
  refine ⟨config, (hpsk _).mpr ⟨by decide, parseValue_eq_some_iff.mp (by decide)⟩, hd⟩

end Load

end RobotCtl.Wifi
