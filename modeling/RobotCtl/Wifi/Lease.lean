import Mathlib.Data.Set.Insert
import RobotCtl.Library.Words
import RobotCtl.Wifi.Ap
import RobotCtl.Wifi.Client

/-! # The addresses of the interface

An interface carries a set of addresses, which `ip addr flush`, `ip addr add`
and the DHCP client change, and which outlives the supervisor. A client attempt
takes any address it finds for its lease, and an access point adds its own to
those that are there. Neither sees an address that was there before, whatever
was left, because each flushes the interface first and fails if it cannot.
-/

namespace RobotCtl.Wifi

open Text Prog

variable {interface : Str} {t : List (Event Sys)} {w w' : Set Str}

section Commands

/-- The command that changes and lists the addresses of an interface. -/
def ipCommand : Str := "ip".toList

/-- The arguments with which it takes all of them away. -/
def clearArgs (interface : Str) : List Str :=
  ["addr".toList, "flush".toList, "dev".toList, interface]

def addArgs (interface address : Str) : List Str :=
  ["addr".toList, "add".toList, address, "dev".toList, interface]

def showArgs (interface : Str) : List Str :=
  ["-4".toList, "addr".toList, "show".toList, "dev".toList, interface]

def udhcpc : Str := "udhcpc".toList

theorem ip_eq : ip = ipCommand := rfl

theorem flushArgs_eq : flushArgs interface = clearArgs interface := rfl

theorem ipCommand_ne_udhcpc : ipCommand ≠ udhcpc := by decide

/-- A line of `ip -4 addr show` that shows an address. -/
def ShowsAddress (line address : Str) : Prop :=
  ∃ rest, splitWhitespace line = "inet".toList :: address :: rest

theorem firstWord_eq (s : Str) : firstWord s = (splitWhitespace s).head? :=
  (head?_splitWhitespace s).symm

/-- The address that is read off a listing is shown in it. -/
theorem exists_showsAddress {text address : Str} (h : parseInetAddress text = some address) :
    ∃ line ∈ lines text, ShowsAddress line address := by
  obtain ⟨r, hr, hw⟩ := Option.bind_eq_some_iff.mp h
  obtain ⟨l, hl, hs⟩ := List.exists_of_findSome?_eq_some hr
  obtain ⟨line, hline, rfl⟩ := List.mem_map.mp hl
  refine ⟨line, hline, (splitWhitespace r).tail, ?_⟩
  have htrim : trim line = "inet ".toList ++ r := stripPrefix_eq_some_iff.mp hs
  have hword : IsWord "inet".toList := by
    constructor <;> decide
  have hwords : splitWhitespace ("inet ".toList ++ r) = "inet".toList :: splitWhitespace r :=
    splitWhitespace_word_cons (c := ' ') r hword (by decide)
  rw [firstWord_eq] at hw
  rw [← splitWhitespace_trim, htrim, hwords, List.cons_head?_tail hw]

end Commands

section Addresses

/-- What a command does to the addresses of the interface. A flush takes all of them away, or some
if it fails, and a listing shows none that is not there. The DHCP client can do anything, and
nothing but these three changes them. -/
structure AddressStep (interface : Str) (w : Set Str) (e : Event Sys) (w' : Set Str) : Prop where
  flush : ∀ x, e = ⟨.output ipCommand (clearArgs interface), x⟩ → w' ⊆ w ∧ (Succeeded x → w' = ∅)
  add : ∀ address x, e = ⟨.output ipCommand (addArgs interface address), x⟩ →
    (Succeeded x → w' = insert address w) ∧ (¬ Succeeded x → w' = w)
  listed : ∀ result, e = ⟨.output ipCommand (showArgs interface), .ok result⟩ →
    ∀ line ∈ lines result.stdout, ∀ address, ShowsAddress line address → address ∈ w
  other : e.1 ≠ .output ipCommand (clearArgs interface) →
    (∀ address, e.1 ≠ .output ipCommand (addArgs interface address)) →
    (∀ args, e.1 ≠ .output udhcpc args) → w' = w

/-- The interface as an environment. -/
def addresses (interface : Str) : Env Sys (Set Str) := AddressStep interface

/-- The call is none of those that change the addresses of the interface. -/
structure Harmless (interface : Str) (o : SysOp) : Prop where
  flush : o ≠ .output ipCommand (clearArgs interface)
  add : ∀ address, o ≠ .output ipCommand (addArgs interface address)
  dhcp : ∀ args, o ≠ .output udhcpc args

theorem AddressStep.same {e : Event Sys} (h : AddressStep interface w e w')
    (he : Harmless interface e.1) : w' = w := h.other he.flush he.add he.dhcp

theorem eq_of_runs (h : Env.Runs (addresses interface) w t w')
    (ht : ∀ e ∈ t, Harmless interface e.1) : w' = w := by
  refine h.rel (R := fun w w' => w' = w) (fun _ => rfl) (fun h h' => h'.trans h) ?_
  intro e he _ _ hs
  exact AddressStep.same hs (ht e he)

theorem harmless_link (args : List Str) :
    Harmless interface (.output ipCommand ("link".toList :: args)) where
  flush := by simp [clearArgs]
  add := by simp [addArgs]
  dhcp := by simp [ipCommand_ne_udhcpc]

theorem harmless_show : Harmless interface (.output ipCommand (showArgs interface)) where
  flush := by simp [clearArgs, showArgs]
  add := by simp [addArgs, showArgs]
  dhcp := by simp [ipCommand_ne_udhcpc]

/-- A call that runs no command. -/
theorem harmless_of_not_output {o : SysOp} (h : ∀ program args, o ≠ .output program args) :
    Harmless interface o := ⟨h _ _, fun _ => h _ _, fun _ => h _ _⟩

theorem harmless_spawn (program : Str) (args : List Str) :
    Harmless interface (.spawn program args) := harmless_of_not_output (by simp)

end Addresses

section Client

variable {paths : Paths} {tuning : SuperviseTuning} {session : ClientSession}

theorem returns_requireInterface_ok {u : Unit}
    (h : Returns (requireInterface interface).run t (.ok u)) :
    ∃ x, t = [⟨.output ipCommand ["link".toList, "show".toList, interface], x⟩] := by
  obtain ⟨found, t₁, t₂, rfl, h₁, h₂⟩ := returns_lift_bind_iff.mp h
  obtain ⟨r, t₃, t₄, rfl, h₃, h₄⟩ := returns_bind_iff.mp h₁
  obtain ⟨x, rfl, -⟩ := returns_output_iff.mp h₃
  obtain ⟨rfl, -⟩ := returns_ret_iff.mp h₄
  have ht : t₂ = [] := by
    cases found <;> exact (returns_ret_iff.mp h₂).1
  exact ⟨x, by rw [ht]; rfl⟩

/-- A station that was prepared has been flushed. -/
theorem returns_prepareStation_ok {u : Unit}
    (h : Returns (prepareStation interface).run t (.ok u)) :
    ∃ x y z, Succeeded y ∧ t = [⟨.output ipCommand ["link".toList, "show".toList, interface], x⟩,
      ⟨.output ipCommand (clearArgs interface), y⟩,
      ⟨.output ipCommand ["link".toList, "set".toList, interface, "up".toList], z⟩] := by
  obtain ⟨_, t₁, t₂, rfl, h₁, h₂⟩ := returns_try_bind_ok_iff.mp h
  obtain ⟨_, t₃, t₄, rfl, h₃, h₄⟩ := returns_try_bind_ok_iff.mp h₂
  obtain ⟨x, rfl⟩ := returns_requireInterface_ok h₁
  obtain ⟨y, hy, rfl⟩ := returns_run_ok_iff.mp h₃
  obtain ⟨z, -, rfl⟩ := returns_run_ok_iff.mp h₄
  exact ⟨x, y, z, hy, rfl⟩

theorem returns_ipv4Address_iff {r : Option Str} : Returns (ipv4Address interface) t r ↔
    ∃ x, t = [⟨.output ipCommand (showArgs interface), x⟩] ∧
      r = ipv4AddressOf (outputResult ip (showArgs interface) x) := by
  unfold ipv4Address
  rw [returns_bind_iff]
  constructor
  · rintro ⟨_, t₁, t₂, rfl, h₁, h₂⟩
    obtain ⟨x, rfl, rfl⟩ := returns_output_iff.mp h₁
    obtain ⟨rfl, rfl⟩ := returns_ret_iff.mp h₂
    exact ⟨x, rfl, rfl⟩
  · rintro ⟨x, rfl, rfl⟩
    exact ⟨_, _, [], rfl, returns_output x, .ret _⟩

/-- A session has an address that was listed after the DHCP client ran. -/
theorem returns_awaitLease_ok {d : Daemon}
    (h : Returns (awaitLease tuning interface d).run t (.ok session)) :
    ∃ args x result, parseInetAddress result.stdout = some session.address ∧
      t = [⟨.output udhcpc args, x⟩, ⟨.output ipCommand (showArgs interface), .ok result⟩] := by
  obtain ⟨_, t₁, t₂, rfl, h₁, h₂⟩ := returns_lift_bind_iff.mp h
  obtain ⟨x, rfl, -⟩ := returns_run_iff.mp h₁
  obtain ⟨found, t₃, t₄, rfl, h₃, h₄⟩ := returns_lift_bind_iff.mp h₂
  obtain ⟨y, rfl, hf⟩ := returns_ipv4Address_iff.mp h₃
  cases found with
  | none =>
    obtain ⟨_, _, _, -, -, h₅⟩ := returns_lift_bind_iff.mp h₄
    obtain ⟨-, hr⟩ := returns_ret_iff.mp h₅
    cases hr
  | some address =>
    obtain ⟨rfl, hr⟩ := returns_ret_iff.mp h₄
    cases hr
    cases y with
    | error err => cases hf
    | ok result =>
      refine ⟨_, x, result, ?_, rfl⟩
      by_cases hs : result.status.success = true
      · simpa [outputResult, hs, ipv4AddressOf] using hf.symm
      · simp [outputResult, hs, ipv4AddressOf] at hf

/-- A client attempt that succeeds flushes the interface, runs the DHCP client and finds the
address of its session. -/
theorem returns_connect_ok (h : Returns (connect paths tuning) t (.ok session)) :
    ∃ before y between args x result, Succeeded y ∧
      parseInetAddress result.stdout = some session.address ∧
      (∀ e ∈ between, Harmless paths.wifiInterface e.1) ∧
      t = before ++ ⟨.output ipCommand (clearArgs paths.wifiInterface), y⟩ :: between ++
        [⟨.output udhcpc args, x⟩,
          ⟨.output ipCommand (showArgs paths.wifiInterface), .ok result⟩] := by
  obtain ⟨found, t₁, t₂, rfl, h₁, h₂⟩ := returns_bind_iff.mp h
  cases found with
  | false =>
    obtain ⟨-, hr⟩ := returns_ret_iff.mp h₂
    cases hr
  | true =>
    obtain ⟨r, t₃, t₄, rfl, h₃, h₄⟩ := returns_bind_iff.mp h₂
    obtain ⟨rfl, hr⟩ := returns_ret_iff.mp h₄
    cases r with
    | error err => cases hr
    | ok session' =>
      cases hr
      obtain ⟨_, t₅, t₆, rfl, h₅, h₆⟩ := returns_try_bind_ok_iff.mp h₃
      obtain ⟨d, t₇, t₈, rfl, h₇, h₈⟩ := returns_try_bind_ok_iff.mp h₆
      obtain ⟨x, y, z, hy, rfl⟩ := returns_prepareStation_ok h₅
      obtain ⟨args, x', result, hs, rfl⟩ := returns_awaitLease_ok h₈
      obtain ⟨pid, rfl⟩ := Daemon.returns_spawn_ok h₇
      refine ⟨t₁ ++ [⟨.output ipCommand ["link".toList, "show".toList, paths.wifiInterface], x⟩], y,
        [⟨.output ipCommand ["link".toList, "set".toList, paths.wifiInterface, "up".toList], z⟩,
          ⟨.spawn wpaSupplicant (supplicantArgs paths.wifiInterface paths.wifiClientConf),
            .ok pid⟩], args, x', result, hy, hs, ?_, by simp⟩
      simpa using ⟨harmless_link _, harmless_spawn _ _⟩

/-- The address was not there before a run of the DHCP client that assigned it, that came after a
flush that succeeded, and it is there in the end. -/
def Leased (interface address : Str) (w : Set Str) (t : List (Event Sys)) (w' : Set Str) : Prop :=
  ∃ before y between args x after u v, Succeeded y ∧
    t = before ++ ⟨.output ipCommand (clearArgs interface), y⟩ :: between ++
      ⟨.output udhcpc args, x⟩ :: after ∧
    Env.Runs (addresses interface) w
      (before ++ ⟨.output ipCommand (clearArgs interface), y⟩ :: between) u ∧
    addresses interface u ⟨.output udhcpc args, x⟩ v ∧
    Env.Runs (addresses interface) v after w' ∧ address ∉ u ∧ address ∈ v ∧ address ∈ w'

/-- What a flush leaves, if harmless calls follow it. -/
theorem eq_empty_of_flush {before between : List (Event Sys)} {y : Io Output} (hy : Succeeded y)
    (hb : ∀ e ∈ between, Harmless interface e.1)
    (h : Env.Runs (addresses interface) w
      (before ++ ⟨.output ipCommand (clearArgs interface), y⟩ :: between) w') : w' = ∅ := by
  obtain ⟨u, -, hu⟩ := Env.runs_append_iff.mp h
  obtain ⟨v, hv, hr⟩ := Env.runs_cons_iff.mp hu
  rw [eq_of_runs hr hb]
  exact (AddressStep.flush hv y rfl).2 hy

theorem leased_of_connect (h : Returns (connect paths tuning) t (.ok session))
    (hr : Env.Runs (addresses paths.wifiInterface) w t w') :
    Leased paths.wifiInterface session.address w t w' := by
  obtain ⟨before, y, between, args, x, result, hy, hs, hb, rfl⟩ := returns_connect_ok h
  obtain ⟨u, hu, hu'⟩ := Env.runs_append_iff.mp hr
  obtain ⟨v, hv, hv'⟩ := Env.runs_cons_iff.mp hu'
  obtain ⟨_, hlist, hnil⟩ := Env.runs_cons_iff.mp hv'
  obtain rfl := Env.runs_nil_iff.mp hnil
  obtain ⟨line, hline, hshows⟩ := exists_showsAddress hs
  have hlisted : session.address ∈ v := AddressStep.listed hlist result rfl line hline _ hshows
  have hkept : w' = v := AddressStep.same hlist harmless_show
  have hnew : session.address ∉ u := by
    rw [eq_empty_of_flush hy hb hu]
    exact Set.notMem_empty _
  exact ⟨before, y, between, args, x, _, u, v, hy, rfl, hu, hv, hv', hnew, hlisted, hkept ▸ hlisted⟩

end Client

section AccessPoint

variable {pid : ℕ} {runDir : FilePath} {config : ApConfig} {session : ApSession}

/-- The address of the access point, with its prefix length. -/
def apAddress (config : ApConfig) : Str :=
  config.address.display ++ '/' :: decimal config.netmaskCidr

theorem returns_spawnDaemons_ok
    (h : Returns (Ap.spawnDaemons runDir interface).run t (.ok session)) :
    ∃ pid pid', t = [⟨.spawn Ap.dnsmasq (Ap.dnsmasqArgs (Ap.dnsmasqConf runDir)), .ok pid⟩,
      ⟨.spawn Ap.hostapd (Ap.hostapdArgs (Ap.hostapdConf runDir)), .ok pid'⟩] := by
  obtain ⟨d, t₁, t₂, rfl, h₁, h₂⟩ := returns_try_bind_ok_iff.mp h
  obtain ⟨pid, rfl⟩ := Daemon.returns_spawn_ok h₁
  obtain ⟨r, t₃, t₄, rfl, h₃, h₄⟩ := returns_lift_bind_iff.mp h₂
  cases r with
  | error err =>
    obtain ⟨_, _, _, -, -, h₅⟩ := returns_lift_bind_iff.mp h₄
    obtain ⟨-, hr⟩ := returns_ret_iff.mp h₅
    cases hr
  | ok session' =>
    obtain ⟨pid', rfl⟩ := Daemon.returns_spawn_ok h₃
    obtain ⟨rfl, -⟩ := returns_ret_iff.mp h₄
    exact ⟨pid, pid', rfl⟩

/-- A session has flushed the interface and added its address. -/
theorem returns_start_ok (h : Returns (Ap.start pid runDir config).run t (.ok session)) :
    ∃ before y z after, Succeeded y ∧ Succeeded z ∧
      (∀ e ∈ after, Harmless config.interface e.1) ∧
      t = before ++ ⟨.output ipCommand (clearArgs config.interface), y⟩ ::
        ⟨.output ipCommand (addArgs config.interface (apAddress config)), z⟩ :: after := by
  obtain ⟨_, t₁, t₂, rfl, h₁, h₂⟩ := returns_try_bind_ok_iff.mp h
  obtain ⟨_, t₃, _, rfl, h₃, h₄⟩ := returns_try_bind_ok_iff.mp h₁
  obtain ⟨_, t₅, _, rfl, h₅, h₆⟩ := returns_try_bind_ok_iff.mp h₄
  obtain ⟨_, t₇, _, rfl, h₇, h₈⟩ := returns_try_bind_ok_iff.mp h₆
  obtain ⟨_, _, _, rfl, h₉, h₁₀⟩ := returns_try_bind_ok_iff.mp h₈
  obtain ⟨_, _, _, rfl, h₁₁, h₁₂⟩ := returns_try_bind_ok_iff.mp h₁₀
  obtain ⟨y, hy, rfl⟩ := returns_run_ok_iff.mp h₉
  obtain ⟨z, hz, rfl⟩ := returns_run_ok_iff.mp h₁₁
  obtain ⟨x, -, rfl⟩ := returns_run_ok_iff.mp h₁₂
  refine ⟨t₃ ++ t₅ ++ t₇, y, z,
    ⟨.output ipCommand ["link".toList, "set".toList, config.interface, "up".toList], x⟩ :: t₂,
    hy, hz, ?_, by simp [ip_eq, flushArgs_eq, addArgs, apAddress]⟩
  obtain ⟨_, _, rfl⟩ := returns_spawnDaemons_ok h₂
  simpa using ⟨harmless_link _, harmless_spawn _ _, harmless_spawn _ _⟩

theorem addresses_of_start (h : Returns (Ap.start pid runDir config).run t (.ok session))
    (hr : Env.Runs (addresses config.interface) w t w') : w' = {apAddress config} := by
  obtain ⟨before, y, z, after, hy, hz, ha, rfl⟩ := returns_start_ok h
  obtain ⟨u, -, hu⟩ := Env.runs_append_iff.mp hr
  obtain ⟨v, hv, hu'⟩ := Env.runs_cons_iff.mp hu
  obtain ⟨v', hv', hafter⟩ := Env.runs_cons_iff.mp hu'
  calc w' = v' := eq_of_runs hafter ha
    _ = insert (apAddress config) v := (AddressStep.add hv' _ z rfl).1 hz
    _ = insert (apAddress config) ∅ := by rw [(AddressStep.flush hv y rfl).2 hy]
    _ = {apAddress config} := insert_empty_eq _

end AccessPoint

/-- Whatever addresses earlier runs of the supervisor left on the interface, a client attempt
succeeds only with an address that the DHCP client assigned in this attempt after a flush, and once
the access point has been started its address is the only one. -/
theorem no_stale_address :
    (∀ {paths : Paths} {tuning : SuperviseTuning} {session : ClientSession} {t : List (Event Sys)}
      {w w' : Set Str}, Returns (connect paths tuning) t (.ok session) →
      Env.Runs (addresses paths.wifiInterface) w t w' →
      Leased paths.wifiInterface session.address w t w') ∧
    ∀ {pid : ℕ} {runDir : FilePath} {config : ApConfig} {session : ApSession}
      {t : List (Event Sys)} {w w' : Set Str},
      Returns (Ap.start pid runDir config).run t (.ok session) →
      Env.Runs (addresses config.interface) w t w' → w' = {apAddress config} :=
  ⟨fun h hr => leased_of_connect h hr, fun h hr => addresses_of_start h hr⟩

section Example

theorem step_of_harmless {e : Event Sys} (he : Harmless interface e.1)
    (hs : e.1 ≠ .output ipCommand (showArgs interface)) : addresses interface w e w where
  flush _ h := absurd (congrArg Sigma.fst h) he.flush
  add a _ h := absurd (congrArg Sigma.fst h) (he.add a)
  listed _ h := absurd (congrArg Sigma.fst h) hs
  other _ _ _ := rfl

theorem step_link (args : List Str) (x : Io Output) :
    addresses interface w ⟨.output ipCommand ("link".toList :: args), x⟩ w :=
  step_of_harmless (harmless_link args) (by simp [showArgs])

theorem step_of_not_output {e : Event Sys} (he : ∀ program args, e.1 ≠ .output program args) :
    addresses interface w e w := step_of_harmless (harmless_of_not_output he) (he _ _)

theorem step_spawn (program : Str) (args : List Str) (x : Io ℕ) :
    addresses interface w ⟨.spawn program args, x⟩ w := step_of_not_output (by simp)

theorem step_flush (x : Io Output) :
    addresses interface w ⟨.output ipCommand (clearArgs interface), x⟩ ∅ where
  flush _ _ := ⟨Set.empty_subset w, fun _ => rfl⟩
  add a _ h := absurd (congrArg Sigma.fst h) (by simp [clearArgs, addArgs])
  listed _ h := absurd (congrArg Sigma.fst h) (by simp [clearArgs, showArgs])
  other h := absurd rfl h

theorem step_add {x : Io Output} (hx : Succeeded x) (address : Str) : addresses interface w
    ⟨.output ipCommand (addArgs interface address), x⟩ (insert address w) where
  flush _ h := absurd (congrArg Sigma.fst h) (by simp [clearArgs, addArgs])
  add a y h := by
    cases h
    exact ⟨fun _ => rfl, fun hn => absurd hx hn⟩
  listed _ h := absurd (congrArg Sigma.fst h) (by simp [addArgs, showArgs])
  other _ h := absurd rfl (h address)

theorem step_dhcp (args : List Str) (x : Io Output) :
    addresses interface w ⟨.output udhcpc args, x⟩ w' where
  flush _ h := absurd (congrArg Sigma.fst h) (by simp [ipCommand_ne_udhcpc.symm])
  add a _ h := absurd (congrArg Sigma.fst h) (by simp [ipCommand_ne_udhcpc.symm])
  listed _ h := absurd (congrArg Sigma.fst h) (by simp [ipCommand_ne_udhcpc.symm])
  other _ _ h := absurd rfl (h args)

def leaseAddress : Str := "192.168.1.5/24".toList

/-- A listing of one address. -/
def leaseListing : Str :=
  "    inet 192.168.1.5/24 brd 192.168.1.255 scope global wlan0\n".toList

def printed (stdout : Str) : Output := ⟨⟨true, []⟩, stdout, []⟩

theorem succeeded_printed (stdout : Str) : Succeeded (.ok (printed stdout)) := rfl

/-- A client attempt that is assigned an address. -/
def leasing : List (Event Sys) :=
  [⟨.isFile rootPaths.wifiClientConf, true⟩,
    ⟨.output ipCommand ["link".toList, "show".toList, "wlan0".toList], .ok (printed [])⟩,
    ⟨.output ipCommand (clearArgs "wlan0".toList), .ok (printed [])⟩,
    ⟨.output ipCommand ["link".toList, "set".toList, "wlan0".toList, "up".toList],
      .ok (printed [])⟩,
    ⟨.spawn wpaSupplicant (supplicantArgs "wlan0".toList rootPaths.wifiClientConf), .ok 7⟩,
    ⟨.output udhcpc (dhcpArgs "wlan0".toList (dhcpAttempts defaultTuning)), .ok (printed [])⟩,
    ⟨.output ipCommand (showArgs "wlan0".toList), .ok (printed leaseListing)⟩]

theorem returns_leasing : Returns (connect rootPaths defaultTuning) leasing
    (.ok ⟨⟨wpaSupplicant, 7⟩, leaseAddress⟩) :=
  .call _ (.call _ (.call _ (.call _ (.call _ (.call _ (.call _ (.ret _)))))))

/-- The stale address is the one that is assigned again. -/
theorem runs_leasing :
    Env.Runs (addresses "wlan0".toList) {leaseAddress} leasing {leaseAddress} := by
  have hlisted : addresses "wlan0".toList {leaseAddress}
      ⟨.output ipCommand (showArgs "wlan0".toList), .ok (printed leaseListing)⟩ {leaseAddress} := by
    refine ⟨fun _ h => ?_, fun _ _ h => ?_, ?_, fun _ _ _ => rfl⟩
    · exact absurd (congrArg Sigma.fst h) harmless_show.flush
    · exact absurd (congrArg Sigma.fst h) (harmless_show.add _)
    · intro result h line hline address ⟨rest, hrest⟩
      cases h
      have hline : line ∈ lines leaseListing := hline
      have hlines : lines leaseListing = [leaseListing.dropLast] := by decide
      rw [hlines, List.mem_singleton] at hline
      have hwords : splitWhitespace leaseListing.dropLast = "inet".toList :: leaseAddress ::
          ["brd".toList, "192.168.1.255".toList, "scope".toList, "global".toList,
            "wlan0".toList] := by decide
      rw [hline, hwords] at hrest
      cases hrest
      rfl
  exact .cons (step_of_not_output (by simp)) (.cons (step_link _ _) (.cons (step_flush _)
    (.cons (step_link _ _) (.cons (step_spawn _ _ _) (.cons (step_dhcp _ _)
      (.cons hlisted (.nil _)))))))

/-- Writing a configuration leaves the interface alone. -/
theorem runs_write {path : FilePath} {contents : Str} {r : Except Error Unit}
    (h : Returns (Conf.writeAtomically 1 path contents).run t r) :
    Env.Runs (addresses interface) w t w := by
  have hops := (Conf.writeAtomically_uses 1 path contents).returns h
  clear h
  induction t with
  | nil => exact .nil _
  | cons e t ih =>
    obtain ⟨he, ht⟩ := List.forall_mem_cons.mp hops
    have hne : ∀ program args, e.1 ≠ .output program args := by
      intro program args hc
      rw [hc] at he
      exact he
    exact .cons (step_of_not_output hne) (ih ht)

theorem exists_write (path : FilePath) (name : Str) {contents : Str} (hc : contents ≠ []) :
    ∃ t, Returns (Conf.writeAtomically 1 (path.join name) contents).run t (.ok ()) :=
  ⟨_, Conf.returns_writeAtomically_once 1 (FilePath.parent_join path name) hc⟩

/-- The access point can be started on an interface with any addresses. -/
theorem exists_start (config : ApConfig) (w : Set Str) :
    ∃ t session w', Returns (Ap.start 1 [] config).run t (.ok session) ∧
      Env.Runs (addresses config.interface) w t w' := by
  obtain ⟨t₁, h₁⟩ := exists_write [] "hostapd.conf".toList
    (show renderHostapdConf config ≠ [] by simp [renderHostapdConf, joinLines])
  obtain ⟨t₂, h₂⟩ := exists_write [] "dnsmasq.conf".toList
    (show renderDnsmasqConf config ≠ [] by simp [renderDnsmasqConf, joinLines])
  have hconfigure : Returns (Ap.configure 1 [] config).run
      (⟨.output ipCommand ["link".toList, "show".toList, config.interface], .ok (printed [])⟩ ::
        (t₁ ++ (t₂ ++ [⟨.output ipCommand (clearArgs config.interface), .ok (printed [])⟩,
          ⟨.output ipCommand (addArgs config.interface (apAddress config)), .ok (printed [])⟩,
          ⟨.output ipCommand ["link".toList, "set".toList, config.interface, "up".toList],
            .ok (printed [])⟩]))) (.ok ()) := by
    unfold Ap.configure
    apply Returns.try_bind (t := [_]) (a := ()) (.call _ (.ret _))
    apply (returns_withContext h₁).try_bind
    apply (returns_withContext h₂).try_bind
    exact .call _ (.call _ (.call _ (.ret _)))
  have hspawn : Returns (Ap.spawnDaemons [] config.interface).run
      [⟨.spawn Ap.dnsmasq (Ap.dnsmasqArgs (Ap.dnsmasqConf [])), .ok 7⟩,
        ⟨.spawn Ap.hostapd (Ap.hostapdArgs (Ap.hostapdConf [])), .ok 8⟩]
      (.ok ⟨⟨Ap.hostapd, 8⟩, ⟨Ap.dnsmasq, 7⟩, config.interface⟩) := .call _ (.call _ (.ret _))
  have hset : Env.Runs (addresses config.interface) w
      [⟨.output ipCommand (clearArgs config.interface), .ok (printed [])⟩,
        ⟨.output ipCommand (addArgs config.interface (apAddress config)), .ok (printed [])⟩,
        ⟨.output ipCommand ["link".toList, "set".toList, config.interface, "up".toList],
          .ok (printed [])⟩] (insert (apAddress config) ∅) :=
    .cons (step_flush _)
      (.cons (step_add (succeeded_printed []) _) (.cons (step_link _ _) (.nil _)))
  have hfiles := Env.runs_append_iff.mpr ⟨w, runs_write h₁,
    Env.runs_append_iff.mpr ⟨w, runs_write h₂, hset⟩⟩
  exact ⟨_, _, _, hconfigure.try_bind hspawn, Env.runs_append_iff.mpr ⟨_,
    .cons (step_link _ _) hfiles,
    .cons (step_spawn _ _ _) (.cons (step_spawn _ _ _) (.nil _))⟩⟩

theorem no_stale_address_wlan0 :
    Leased "wlan0".toList leaseAddress {leaseAddress} leasing {leaseAddress} ∧
      ∃ (config : ApConfig) (t : List (Event Sys)) (session : ApSession) (w' : Set Str),
        Returns (Ap.start 1 [] config).run t (.ok session) ∧
        Env.Runs (addresses config.interface) {leaseAddress} t w' ∧ w' = {apAddress config} := by
  obtain ⟨config, -⟩ : ∃ config, resolveApConfig rootPaths rootPaths.defaultRobotId [] =
    .ok config := ⟨_, rfl⟩
  obtain ⟨t, session, w', h, hr⟩ := exists_start config {leaseAddress}
  exact ⟨no_stale_address.1 returns_leasing runs_leasing, config, t, session, w', h, hr,
    no_stale_address.2 h hr⟩

end Example

end RobotCtl.Wifi
