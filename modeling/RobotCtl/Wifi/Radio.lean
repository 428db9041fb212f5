import Mathlib.Logic.Function.Basic
import RobotCtl.Wifi.Calls

/-! # One user of the radio

The radio cannot be a station and an access point at once. Whatever the
replies, and whenever a child exits, the children that need the radio are the
ones that the supervisor owns or is about to own.
-/

namespace RobotCtl.Wifi

open Text Prog

/-- The daemons that need the radio. -/
inductive Radio where
  | supplicant
  | hostapd
  | dnsmasq
  deriving DecidableEq

namespace Radio

def program : Radio → Str
  | supplicant => "wpa_supplicant".toList
  | hostapd => "hostapd".toList
  | dnsmasq => "dnsmasq".toList

def args (paths : Paths) : Radio → List Str
  | supplicant => ["-i".toList, paths.wifiInterface, "-c".toList, paths.wifiClientConf.display]
  | hostapd => [(paths.wifiRunDir.join "hostapd.conf".toList).display]
  | dnsmasq => ["--keep-in-foreground".toList,
    "--conf-file=".toList ++ (paths.wifiRunDir.join "dnsmasq.conf".toList).display]

/-- The command line that starts a daemon. -/
def command (paths : Paths) (r : Radio) : Str × List Str := (r.program, r.args paths)

end Radio

/-- The children that are alive, with their command lines. -/
abbrev Children := ℕ → Option (Str × List Str)

/-- Every child of the one is a child of the other. -/
def Fewer (w' w : Children) : Prop := ∀ p c, w' p = some c → w p = some c

/-- A child starts under a process id that no other one has, and can exit at any moment. It is
gone once it has been waited for. -/
def children : Env Sys Children
  | w, ⟨.spawn program args, .ok p⟩, w' =>
    w p = none ∧ Fewer w' (Function.update w p (some (program, args)))
  | w, ⟨.tryWait p, .ok (some _)⟩, w' => w' p = none ∧ Fewer w' w
  | w, ⟨.wait p, _⟩, w' => w' p = none ∧ Fewer w' w
  | w, _, w' => Fewer w' w

/-- No two children of a kind, and no supplicant together with an access point daemon. -/
structure Exclusive (paths : Paths) (w : Children) : Prop where
  unique : ∀ r p q, w p = some (Radio.command paths r) → w q = some (r.command paths) → p = q
  apart : ∀ r p q, w p = some (Radio.command paths .supplicant) →
    w q = some (Radio.command paths r) → r = .supplicant

/-- Who may run which daemon. -/
abbrev Owner := Radio → Option ℕ

def owner (client hostapd dnsmasq : Option ℕ) : Owner
  | .supplicant => client
  | .hostapd => hostapd
  | .dnsmasq => dnsmasq

def Supervisor.owner (s : Supervisor) : Owner :=
  Wifi.owner (s.client.map (·.supplicant.pid)) (s.ap.map (·.hostapd.pid))
    (s.ap.map (·.dnsmasq.pid))

/-- Every child that needs the radio is an owned one. -/
def Owned (paths : Paths) (o : Owner) (w : Children) : Prop :=
  ∀ r p, w p = some (Radio.command paths r) → o r = some p

/-- Not both a client and an access point. -/
def Separate (o : Owner) : Prop := o .supplicant = none ∨ o .hostapd = none ∧ o .dnsmasq = none

/-- No child that needs the radio has started. -/
def NoNew (paths : Paths) (w w' : Children) : Prop :=
  ∀ r p, w' p = some (Radio.command paths r) → w p = some (r.command paths)

variable {pid : ℕ} {paths : Paths} {tuning : SuperviseTuning} {w w' : Children} {o o' : Owner}

namespace Radio

theorem command_inj {r r' : Radio} (h : r.command paths = r'.command paths) : r = r' := by
  have hp : r.program = r'.program := congrArg Prod.fst h
  cases r <;> cases r' <;> first | rfl | exact absurd hp (by decide)

/-- The hook is none of the daemons, whatever it is called. -/
theorem command_ne_hook (r : Radio) (hook : Str) (state : State) :
    r.command paths ≠ (hook, [state.hookName]) := by
  intro h
  have ha : r.args paths = [state.hookName] := congrArg Prod.snd h
  cases r with
  | supplicant => exact absurd (congrArg List.length ha) (by simp [args])
  | dnsmasq => exact absurd (congrArg List.length ha) (by simp [args])
  | hostapd =>
    have hd : (paths.wifiRunDir.join "hostapd.conf".toList).display.head? = some '/' := by
      unfold FilePath.display
      cases paths.wifiRunDir <;> simp [FilePath.join]
    simp only [args, List.cons.injEq, and_true] at ha
    rw [ha] at hd
    cases state <;> exact absurd hd (by decide)

end Radio

section Ownership

theorem NoNew.of_fewer (h : Fewer w' w) : NoNew paths w w' := fun _ p hp => h p _ hp

theorem NoNew.exclusive (h : NoNew paths w w') (hw : Exclusive paths w) : Exclusive paths w' :=
  ⟨fun r p q hp hq => hw.unique r p q (h r p hp) (h r q hq),
    fun r p q hp hq => hw.apart r p q (h _ p hp) (h r q hq)⟩

theorem NoNew.trans {u v : Children} (h : NoNew paths w u) (h' : NoNew paths u v) :
    NoNew paths w v := fun r p hp => h r p (h' r p hp)

theorem NoNew.owned (h : NoNew paths w w') (ho : Owned paths o w) : Owned paths o w' :=
  fun r p hp => ho r p (h r p hp)

theorem Owned.exclusive (h : Owned paths o w) (hs : Separate o) : Exclusive paths w := by
  refine ⟨fun r p q hp hq => ?_, fun r p q hp hq => ?_⟩
  · have hr := (h r p hp).symm.trans (h r q hq)
    exact Option.some.inj hr
  · have hc := h _ p hp
    have hr := h r q hq
    rcases hs with hs | ⟨hs, hs'⟩
    · rw [hs] at hc; cases hc
    · cases r with
      | supplicant => rfl
      | hostapd => rw [hs] at hr; cases hr
      | dnsmasq => rw [hs'] at hr; cases hr

/-- Ownership can be given up for what is gone. -/
theorem Owned.release (h : Owned paths o w)
    (hg : ∀ r p, o r = some p → o' r = some p ∨ w p = none) : Owned paths o' w := by
  intro r p hp
  rcases hg r p (h r p hp) with h' | h'
  · exact h'
  · rw [h'] at hp; cases hp

theorem Owned.spawn {r : Radio} {p : ℕ} (h : Owned paths o w)
    (he : children w ⟨.spawn (r.command paths).1 (r.command paths).2, .ok p⟩ w')
    (hr : o' r = some p) (ho : ∀ r' q, o r' = some q → o' r' = some q) : Owned paths o' w' := by
  intro r' q hq
  have hu := he.2 q _ hq
  by_cases hp : q = p
  · subst hp
    rw [Function.update_self] at hu
    rw [Radio.command_inj (Option.some.inj hu)] at hr
    exact hr
  · rw [Function.update_of_ne hp] at hu
    exact ho r' q (h r' q hu)

end Ownership

section Rules

/-- A child comes to life only by being started. -/
theorem alive_of_children {o : SysOp} {r : Sys.Reply o} {p : ℕ} {c : Str × List Str}
    (ho : o ≠ .spawn c.1 c.2) (he : children w ⟨o, r⟩ w') (hp : w' p = some c) :
    w p = some c := by
  cases o with
  | spawn program args =>
    rcases r with err | q
    · exact he p c hp
    · have hu := he.2 p c hp
      by_cases hq : p = q
      · subst hq
        rw [Function.update_self] at hu
        obtain rfl := Option.some.inj hu
        exact absurd rfl ho
      · rwa [Function.update_of_ne hq] at hu
  | tryWait q =>
    rcases r with err | _ | status
    · exact he p c hp
    · exact he p c hp
    · exact he.2 p c hp
  | wait q => exact he.2 p c hp
  | _ => exact he p c hp

theorem Aside.ne_spawn {o : SysOp} (h : Aside o) (program : Str) (args : List Str) :
    o ≠ .spawn program args := by
  rintro rfl
  exact h.elim

theorem HookCall.ne_radio {state : State} {o : SysOp}
    (h : HookCall paths.wifiStateHook state.hookName o) (r : Radio) :
    o ≠ .spawn (r.command paths).1 (r.command paths).2 := by
  rintro rfl
  rcases h with h | h
  · exact h.elim
  · obtain ⟨hprogram, hargs⟩ := SysOp.spawn.inj h
    exact r.command_ne_hook _ state (Prod.ext hprogram hargs)

theorem noNew_of_aside {o : SysOp} {r : Sys.Reply o} (ho : Aside o) (he : children w ⟨o, r⟩ w') :
    NoNew paths w w' := fun _ _ hp => alive_of_children (ho.ne_spawn _ _) he hp

theorem wp_noNew {α : Type} {p : Prog Sys α} {allowed : SysOp → Prop}
    (ha : ∀ o, allowed o → ∀ r : Radio, o ≠ .spawn (r.command paths).1 (r.command paths).2)
    (h : p.Uses allowed) (hw : Exclusive paths w) :
    wp children (Exclusive paths) p (fun _ w' => NoNew paths w w') w := by
  refine wp_of_uses (fun _ _ _ h => h) (fun h h' => h.trans h') ?_ h hw
  intro o r w w' ho hw he
  have hn : NoNew paths w w' := fun r' _ hp => alive_of_children (ha o ho r') he hp
  exact ⟨hn.exclusive hw, hn⟩

theorem wp_aside {α : Type} {p : Prog Sys α} (h : p.Uses Aside) (hw : Exclusive paths w) :
    wp children (Exclusive paths) p (fun _ w' => NoNew paths w w') w :=
  wp_noNew (fun _ ho r => ho.ne_spawn (r.command paths).1 (r.command paths).2) h hw

theorem wp_hook (state : State) (hw : Exclusive paths w) :
    wp children (Exclusive paths) (Hook.notify paths.wifiStateHook state.hookName)
      (fun _ w' => NoNew paths w w') w :=
  wp_noNew (fun _ ho => ho.ne_radio) (Hook.notify_uses _ _) hw

/-- A daemon that has been waited for is gone. -/
theorem gone_of_hasExited {p : ℕ} {r : Io (Option ExitStatus)} (hr : Daemon.hasExited r = true)
    (he : children w ⟨.tryWait p, r⟩ w') : w' p = none := by
  rcases r with err | _ | status
  · cases hr
  · cases hr
  · exact he.1

theorem wp_exitOrKill (d : Daemon) (deadline : ℕ) (hw : Exclusive paths w) :
    wp children (Exclusive paths) (d.exitOrKill deadline)
      (fun _ w' => NoNew paths w w' ∧ w' d.pid = none) w := by
  refine ⟨fun _ u => NoNew paths w u, fun _ _ h => h, fun _ u hu => ⟨hu.exclusive hw, ?_⟩⟩
  intro time v hv
  have hv := hu.trans (noNew_of_aside (o := .now) trivial hv)
  simp only [ret_bind]
  split
  · refine ⟨hv.exclusive hw, fun r x hx => ?_⟩
    have hx' := hv.trans (noNew_of_aside (o := .tryWait _) trivial hx)
    simp only [ret_bind]
    split
    · rename_i hr
      have hi := hx'.exclusive hw
      exact ⟨hi, hi, hx', gone_of_hasExited hr hx⟩
    · refine ⟨hx'.exclusive hw, fun _ y hy => ?_⟩
      have hy := hx'.trans (noNew_of_aside (o := .sleep _) trivial hy)
      exact ⟨hy.exclusive hw, hy⟩
  · have hi := hv.exclusive hw
    refine ⟨hi, hi, fun _ x hx => ?_⟩
    have hx := hv.trans (noNew_of_aside (o := .kill _ _) trivial hx)
    refine ⟨hx.exclusive hw, fun _ y hy => ?_⟩
    have hy' := hx.trans (noNew_of_aside (o := .wait _) trivial hy)
    exact ⟨hy'.exclusive hw, hy', hy.1⟩

/-- A daemon that has been stopped is gone, whichever way it went. -/
theorem wp_stop (d : Daemon) (hw : Exclusive paths w) :
    wp children (Exclusive paths) d.stop (fun _ w' => NoNew paths w w' ∧ w' d.pid = none) w := by
  refine ⟨hw, fun r u he => ?_⟩
  have hu : NoNew paths w u := noNew_of_aside (o := .tryWait _) trivial he
  simp only [ret_bind]
  split
  · rename_i hr
    exact ⟨hu.exclusive hw, hu, gone_of_hasExited hr he⟩
  refine ⟨hu.exclusive hw, fun _ v hv => ?_⟩
  have hv := hu.trans (noNew_of_aside (o := .kill _ _) trivial hv)
  refine ⟨hv.exclusive hw, fun time x hx => ?_⟩
  have hx := hv.trans (noNew_of_aside (o := .now) trivial hx)
  have hs := wp_exitOrKill d (time + Daemon.termGrace) (hx.exclusive hw)
  exact hs.mono fun _ y _ hy => ⟨hx.trans hy.1, hy.2⟩

end Rules

section Station

/-- The call starts no daemon but the supplicant, and tells nobody the state. -/
def StationCall (paths : Paths) : SysOp → Prop
  | .spawn program args => Radio.supplicant.command paths = (program, args)
  | .envVar _ | .sendTo _ _ => False
  | _ => True

variable {s : Supervisor}

theorem uses_station {α : Type} {p : Prog Sys α} (h : p.Uses Plain) :
    p.Uses (StationCall paths) := by
  refine h.mono fun o ho => ?_
  cases o <;> trivial

theorem dropAp_station (session : ApSession) : session.drop.Uses (StationCall paths) :=
  ⟨trivial, fun _ => uses_station (session.hostapd.stop_plain.bind fun _ =>
    session.dnsmasq.stop_plain.bind fun _ => (runBestEffort_plain _ _).bind fun _ =>
      session.hostapd.stop_plain.bind fun _ => session.dnsmasq.stop_plain)⟩

theorem stopClient_station (s : Supervisor) : (s.stopClient paths).Uses (StationCall paths) := by
  obtain ⟨_ | client, ap⟩ := s
  · trivial
  · exact uses_station (client.supplicant.stop_plain.bind fun _ =>
      (runBestEffort_plain _ _).bind fun _ => trivial)

theorem stopAp_station (s : Supervisor) : s.stopAp.Uses (StationCall paths) := by
  obtain ⟨client, _ | ap⟩ := s
  · trivial
  · exact (dropAp_station ap).bind fun _ => trivial

theorem setClient_station (s : Supervisor) (session : ClientSession) :
    (s.setClient session).Uses (StationCall paths) := by
  obtain ⟨_ | client, ap⟩ := s
  · trivial
  · exact uses_station (client.supplicant.stop_plain.bind fun _ => trivial)

theorem spawnSupplicant_station : (Daemon.spawn wpaSupplicant wpaSupplicant
    (supplicantArgs paths.wifiInterface paths.wifiClientConf)).run.Uses (StationCall paths) := by
  refine ⟨rfl, ?_⟩
  rintro (err | pid) <;> trivial

theorem connect_station : (connect paths tuning).Uses (StationCall paths) := by
  refine Uses.bind (p := Sys.isFile _) ⟨trivial, fun _ => trivial⟩ fun found => ?_
  cases found
  · trivial
  refine Uses.bind ?_ fun _ => trivial
  refine (uses_station (prepareStation_plain _)).try_bind fun _ => ?_
  refine spawnSupplicant_station.try_bind fun d => uses_station ?_
  refine (run_plain _ _).lift_bind fun _ => (ipv4Address_plain _).lift_bind fun address => ?_
  cases address with
  | none => exact d.stop_plain.lift_bind fun _ => trivial
  | some address => trivial

theorem tryAttempts_station (attempts : List ℕ) :
    (s.tryAttempts paths tuning attempts).Uses (StationCall paths) := by
  induction attempts generalizing s with
  | nil => trivial
  | cons attempt rest ih =>
    apply connect_station.bind
    rintro ((path | err) | session)
    · trivial
    · refine (stopClient_station s).bind fun s' => ?_
      split
      · exact (uses_station (sleep_plain _)).bind fun _ => ih
      · exact ih
    · exact (setClient_station s session).bind fun _ => trivial

theorem watchClient_station : (s.watchClient paths tuning).Uses (StationCall paths) := by
  refine ⟨fun s' => ?_, fun _ => trivial⟩
  refine (uses_station (sleep_plain _)).bind fun _ => ?_
  refine (uses_station (ipv4Address_plain _)).bind fun address => ?_
  cases address with
  | none => exact (stopClient_station s').bind fun _ => trivial
  | some address => trivial

theorem serveRound_station (started : ℕ) :
    (s.serveRound paths tuning started).Uses (StationCall paths) := by
  have hdied : s.apDied.Uses (StationCall paths) := by
    obtain ⟨client, _ | ap⟩ := s
    · trivial
    · exact uses_station ((isHealthy_plain ap).bind fun _ => trivial)
  refine (uses_station (sleep_plain _)).bind fun _ => hdied.bind fun died => ?_
  cases died with
  | true => exact (stopAp_station s).bind fun _ => trivial
  | false =>
    refine (uses_station now_plain).bind fun time => ?_
    split
    · trivial
    · refine Uses.bind (p := Sys.isFile _) ⟨trivial, fun _ => trivial⟩ fun found => ?_
      cases found with
      | true => trivial
      | false => trivial

theorem tryClient_station : (s.tryClient paths tuning).Uses (StationCall paths) :=
  (stopAp_station s).bind fun _ => tryAttempts_station _

end Station

end RobotCtl.Wifi
