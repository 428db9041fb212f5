import RobotCtl.Conf.Atomic
import RobotCtl.Identity.Settings
import RobotCtl.Wifi.Exclusion
import RobotCtl.Wifi.Status

/-! # The network that is served

hostapd serves what its configuration said when it was started: what the
supervisor made of `robot.conf` and `fallback-ap.conf` when it read them. Other
processes can change both files at any moment, and the reports follow the files.
-/

namespace RobotCtl.Wifi

open Text Conf Prog

/-- What a hostapd was started with: the text of its configuration, and what the supervisor had
read from `robot.conf` and `fallback-ap.conf`. -/
structure Launch where
  conf : Str
  robot : Option Str
  ap : Option Str

/-- The files, the children of the supervisor, what it last read from its two files, and what each
hostapd was started with. -/
structure World where
  fs : Fs
  children : Children
  robot : Option Str
  ap : Option Str
  launched : ℕ → Option Launch

/-- Before the supervisor has done anything. -/
def World.start (fs : Fs) : World := ⟨fs, fun _ => none, none, none, fun _ => none⟩

/-- What was last read from a file. -/
def lastRead (path : FilePath) (last : Option Str) : Event Sys → Option Str
  | ⟨.readToString p, r⟩ => if p = path then (optional path r).toOption.getD last else last
  | _ => last

/-- What the children were started with after an event. -/
def launchedBy (paths : Paths) (w : World) : Event Sys → ℕ → Option Launch
  | ⟨.spawn program args, .ok p⟩ =>
    if (program, args) = Radio.hostapd.command paths then
      Function.update w.launched p (match w.fs.node (Ap.hostapdConf paths.wifiRunDir) with
        | some (.file (.text conf)) => some ⟨conf, w.robot, w.ap⟩
        | _ => none)
    else w.launched
  | _ => w.launched

/-- A step of the supervisor. -/
structure Supervising (paths : Paths) (w : World) (e : Event Sys) (w' : World) : Prop where
  fs : Fs.env w.fs e w'.fs
  children : children w.children e w'.children
  robot : w'.robot = lastRead paths.robotConf w.robot e
  ap : w'.ap = lastRead paths.wifiApConf w.ap e
  launched : w'.launched = launchedBy paths w e

/-- A step of another process, which can change every file but the configuration that the
supervisor generates for hostapd and its temporary. -/
def Others (pid : ℕ) (paths : Paths) (w w' : World) : Prop :=
  ∃ fs' : Fs, w' = { w with fs := fs' } ∧
    fs'.node (Ap.hostapdConf paths.wifiRunDir) = w.fs.node (Ap.hostapdConf paths.wifiRunDir) ∧
    fs'.node (tmpPath pid (Ap.hostapdConf paths.wifiRunDir)) =
      w.fs.node (tmpPath pid (Ap.hostapdConf paths.wifiRunDir))

/-- Every hostapd that is alive is recorded, and serves what the texts that were read mean. -/
structure Recorded (paths : Paths) (w : World) : Prop where
  alive : ∀ p, w.children p = some (Radio.hostapd.command paths) → w.launched p ≠ none
  rendered : ∀ p b, w.launched p = some b →
    ∃ config, apConfigOf paths b.robot b.ap = .ok config ∧ b.conf = renderHostapdConf config

/-- The configuration is that of the texts that were read. -/
def Known (paths : Paths) (config : ApConfig) (w : World) : Prop :=
  apConfigOf paths w.robot w.ap = .ok config

/-- The configuration is that of the texts that were read, and hostapd's file says it. -/
structure Ready (paths : Paths) (config : ApConfig) (w : World) : Prop where
  known : Known paths config w
  holds : Holds w.fs (Ap.hostapdConf paths.wifiRunDir) (some (renderHostapdConf config))

variable {pid : ℕ} {paths : Paths} {tuning : SuperviseTuning} {w w' : World} {config : ApConfig}
  {t : List (Event Sys)} {o : SysOp} {r : Sys.Reply o}

namespace Others

theorem refl (w : World) : Others pid paths w w := ⟨w.fs, rfl, rfl, rfl⟩

theorem trans {u v w : World} (h : Others pid paths u v) (h' : Others pid paths v w) :
    Others pid paths u w := by
  obtain ⟨fs, rfl, hc, ht⟩ := h
  obtain ⟨fs', rfl, hc', ht'⟩ := h'
  exact ⟨fs', rfl, hc'.trans hc, ht'.trans ht⟩

theorem recorded (h : Others pid paths w w') (hw : Recorded paths w) : Recorded paths w' := by
  obtain ⟨fs', rfl, -, -⟩ := h
  exact ⟨hw.alive, hw.rendered⟩

end Others

/-- The supervisor among other processes. -/
abbrev surrounded (pid : ℕ) (paths : Paths) : Env Sys World :=
  Env.disturbed (Others pid paths) (Supervising paths)

/-- The call does not start hostapd. -/
def StartsNoAp (paths : Paths) (o : SysOp) : Prop :=
  o ≠ .spawn (Radio.hostapd.command paths).1 (Radio.hostapd.command paths).2

section Steps

theorem launchedBy_of_ne (ho : StartsNoAp paths o) : launchedBy paths w ⟨o, r⟩ = w.launched := by
  cases o with
  | spawn program args =>
    cases r with
    | error err => rfl
    | ok p =>
      refine if_neg fun h => ho ?_
      rw [← h]
  | _ => rfl

theorem recorded_of_step (ho : StartsNoAp paths o) (hw : Recorded paths w)
    (he : surrounded pid paths w ⟨o, r⟩ w') : Recorded paths w' := by
  obtain ⟨u, hu, hs⟩ := he
  have hr := hu.recorded hw
  refine ⟨fun p hp => ?_, fun p b hb => ?_⟩
  · rw [hs.launched, launchedBy_of_ne ho]
    exact hr.alive p (alive_of_children ho hs.children hp)
  · rw [hs.launched, launchedBy_of_ne ho] at hb
    exact hr.rendered p b hb

theorem StationCall.startsNoAp (h : StationCall paths o) : StartsNoAp paths o := by
  rintro rfl
  have hc : Radio.supplicant.command paths = Radio.hostapd.command paths := h
  exact absurd (Radio.command_inj hc) (by decide)

theorem HookCall.startsNoAp {state : State}
    (h : HookCall paths.wifiStateHook state.hookName o) : StartsNoAp paths o := h.ne_radio .hostapd

theorem Aside.startsNoAp (h : Aside o) : StartsNoAp paths o := h.ne_spawn _ _

theorem Plain.startsNoAp (h : Plain o) : StartsNoAp paths o := h.aside.startsNoAp

/-- What starts no access point keeps the record. -/
theorem wp_startsNoAp {α : Type} {p : Prog Sys α} {allowed : SysOp → Prop}
    (ha : ∀ o, allowed o → StartsNoAp paths o) (h : p.Uses allowed) (hw : Recorded paths w) :
    wp (surrounded pid paths) (Recorded paths) p (fun _ _ => True) w :=
  wp_keeps (J := fun _ => True)
    (fun ho hw he => ⟨recorded_of_step (ha _ ho) hw he, fun _ => trivial⟩) h hw trivial

/-- The call is made between the hostapd configuration and hostapd itself. -/
inductive Bystander (pid : ℕ) (paths : Paths) : SysOp → Prop
  | output (program : Str) (args : List Str) : Bystander pid paths (.output program args)
  | write {o : SysOp} : WriteOp pid (Ap.dnsmasqConf paths.wifiRunDir) o → Bystander pid paths o
  | dnsmasq : Bystander pid paths
      (.spawn (Radio.dnsmasq.command paths).1 (Radio.dnsmasq.command paths).2)

namespace Bystander

theorem startsNoAp (h : Bystander pid paths o) : StartsNoAp paths o := by
  rintro rfl
  generalize hc : SysOp.spawn _ _ = o at h
  cases h with
  | output program args => cases hc
  | write hw => cases hw <;> cases hc
  | dnsmasq =>
    obtain ⟨hprogram, hargs⟩ := SysOp.spawn.inj hc
    exact absurd (Radio.command_inj (Prod.ext hprogram hargs)) (by decide)

theorem unread (h : Bystander pid paths o) (path : FilePath) : o ≠ .readToString path := by
  rintro rfl
  cases h with
  | write hw => cases hw

end Bystander

theorem lastRead_of_ne {path : FilePath} {last : Option Str} (ho : ∀ path, o ≠ .readToString path) :
    lastRead path last ⟨o, r⟩ = last := by
  cases o with
  | readToString path => exact absurd rfl (ho path)
  | _ => rfl

theorem lastRead_of_ok {path path' : FilePath} {last existing : Option Str} {r : Io Str}
    (h : optional path r = .ok existing) :
    lastRead path' last ⟨.readToString path, r⟩ = if path = path' then existing else last := by
  rw [lastRead]
  split_ifs with hp
  · subst hp
    rw [h]
    rfl
  · rfl

theorem known_of_step (ho : ∀ path, o ≠ .readToString path) (hw : Known paths config w)
    (he : surrounded pid paths w ⟨o, r⟩ w') : Known paths config w' := by
  obtain ⟨_, ⟨fs', rfl, -, -⟩, hs⟩ := he
  rw [Known, hs.robot, hs.ap, lastRead_of_ne ho, lastRead_of_ne ho]
  exact hw

/-- The generated configurations and their temporaries are different files. -/
theorem hostapdConf_ne (pid : ℕ) (runDir : FilePath) :
    Ap.hostapdConf runDir ≠ Ap.dnsmasqConf runDir ∧
    Ap.hostapdConf runDir ≠ tmpPath pid (Ap.dnsmasqConf runDir) := by
  constructor
  · intro h
    exact absurd (FilePath.join_inj.mp h).2 (by decide)
  · intro h
    rw [tmpPath, Ap.dnsmasqConf, FilePath.withExtension_join] at h
    have hc := congrArg List.head? (FilePath.join_inj.mp h).2
    exact absurd (show some 'h' = some 'd' from hc) (by decide)

theorem ready_of_step (ho : Bystander pid paths o) (hw : Ready paths config w)
    (he : surrounded pid paths w ⟨o, r⟩ w') : Ready paths config w' := by
  refine ⟨known_of_step ho.unread hw.known he, ?_⟩
  obtain ⟨_, ⟨fs', rfl, hconf, -⟩, hs⟩ := he
  have hh : Holds fs' (Ap.hostapdConf paths.wifiRunDir) (some (renderHostapdConf config)) :=
    hconf.trans hw.holds
  cases ho with
  | output program args =>
    have hfs : w'.fs = fs' := hs.fs
    rw [hfs]
    exact hh
  | write hop =>
    obtain ⟨hne, htmp⟩ := hostapdConf_ne pid paths.wifiRunDir
    rcases hop.frame hs.fs hne htmp with hn | ⟨hn, -⟩
    · exact hn.trans hh
    · rw [hh] at hn
      cases hn
  | dnsmasq =>
    have hfs : w'.fs = fs' := hs.fs
    rw [hfs]
    exact hh

/-- The hostapd that is started is recorded with what is in its configuration. -/
theorem recorded_of_hostapd {r : Io ℕ} (hw : Recorded paths w) (hc : Ready paths config w)
    (he : surrounded pid paths w
      ⟨.spawn (Radio.hostapd.command paths).1 (Radio.hostapd.command paths).2, r⟩ w') :
    Recorded paths w' := by
  obtain ⟨_, ⟨fs', rfl, hconf, -⟩, hs⟩ := he
  have hh : fs'.node (Ap.hostapdConf paths.wifiRunDir) =
      some (.file (.text (renderHostapdConf config))) := hconf.trans hc.holds
  rcases r with err | p
  · have hl : w'.launched = w.launched := hs.launched
    refine ⟨fun q hq => ?_, fun q b hb => ?_⟩
    · rw [hl]
      exact hw.alive q (hs.children q _ hq)
    · rw [hl] at hb
      exact hw.rendered q b hb
  · have hl : w'.launched =
        Function.update w.launched p (some ⟨renderHostapdConf config, w.robot, w.ap⟩) := by
      rw [hs.launched, launchedBy, if_pos rfl, hh]
    refine ⟨fun q hq => ?_, fun q b hb => ?_⟩
    · rw [hl]
      have hu := hs.children.2 q _ hq
      by_cases hp : q = p
      · subst hp
        rw [Function.update_self]
        exact nofun
      · rw [Function.update_of_ne hp] at hu ⊢
        exact hw.alive q hu
    · rw [hl] at hb
      by_cases hp : q = p
      · subst hp
        rw [Function.update_self] at hb
        cases hb
        exact ⟨config, hc.known, rfl⟩
      · rw [Function.update_of_ne hp] at hb
        exact hw.rendered q b hb

end Steps

namespace Broadcast

theorem wp_bystander {α : Type} {p : Prog Sys α} (h : p.Uses (Bystander pid paths))
    (hw : Recorded paths w) (hc : Ready paths config w) :
    wp (surrounded pid paths) (Recorded paths) p (fun _ w' => Ready paths config w') w := by
  refine wp_keeps ?_ h hw hc
  exact fun ho hw he => ⟨recorded_of_step ho.startsNoAp hw he, fun hc => ready_of_step ho hc he⟩

/-- Commands leave what was read as it is. -/
theorem wp_commands {α : Type} {p : Prog Sys α}
    (h : p.Uses fun o => ∃ program args, o = SysOp.output program args) (hw : Recorded paths w)
    (hc : Known paths config w) :
    wp (surrounded pid paths) (Recorded paths) p (fun _ w' => Known paths config w') w := by
  refine wp_keeps ?_ h hw hc
  rintro _ r w w' ⟨program, args, rfl⟩ hw he
  have hb : Bystander pid paths (.output program args) := .output program args
  exact ⟨recorded_of_step hb.startsNoAp hw he, fun hc => known_of_step hb.unread hc he⟩

theorem run_bystander (program : Str) (args : List Str) :
    (run program args).run.Uses (Bystander pid paths) :=
  Uses.try_bind ⟨.output program args, fun _ => trivial⟩ fun _ => trivial

/-- Writing the hostapd configuration is not disturbed by others. -/
theorem wp_writeHostapdConf (hw : Recorded paths w) (hc : Known paths config w) :
    wp (surrounded pid paths) (Recorded paths)
      (writeAtomically pid (Ap.hostapdConf paths.wifiRunDir) (renderHostapdConf config)).run
      (fun r w' => r = .ok () → Ready paths config w') w := by
  have hpar : (Ap.hostapdConf paths.wifiRunDir).parent = some paths.wifiRunDir :=
    FilePath.parent_join _ _
  refine (wp_writeAtomically (s := ⟨w.fs.node (tmpPath pid (Ap.hostapdConf paths.wifiRunDir)),
    w.fs.node (Ap.hostapdConf paths.wifiRunDir)⟩) (fun s w => Recorded paths w ∧
      Known paths config w ∧ s = ⟨w.fs.node (tmpPath pid (Ap.hostapdConf paths.wifiRunDir)),
        w.fs.node (Ap.hostapdConf paths.wifiRunDir)⟩) (fun h _ => h.1) ?_ ⟨hw, hc, rfl⟩).mono ?_
  · rintro u w w' ⟨o, r⟩ hop ⟨hw, hc, rfl⟩ he
    have hno : StartsNoAp paths o := by
      rintro rfl
      cases hop
    have hread : ∀ path, o ≠ .readToString path := by
      rintro path rfl
      cases hop
    refine ⟨recorded_of_step hno hw he, known_of_step hread hc he, ?_⟩
    obtain ⟨_, ⟨fs', rfl, hconf, htmp⟩, hs⟩ := he
    rw [publish_of_env hop hpar hs.fs, hconf, htmp]
  · rintro r w' - ⟨u, ⟨-, hc, rfl⟩, -, hfile⟩ hr
    exact ⟨hc, hfile hr⟩

/-- What is read is what is kept of it. -/
theorem wp_readOptional (path : FilePath) (hw : Recorded paths w) :
    wp (surrounded pid paths) (Recorded paths) (readOptional path).run
      (fun r w' => ∀ existing, r = .ok existing →
        w'.robot = (if path = paths.robotConf then existing else w.robot) ∧
        w'.ap = if path = paths.wifiApConf then existing else w.ap) w := by
  refine ⟨hw, fun r w' he => ?_⟩
  have hw' := recorded_of_step (o := .readToString path) nofun hw he
  obtain ⟨_, ⟨fs', rfl, -, -⟩, hs⟩ := he
  refine ⟨hw', fun existing hx => ?_⟩
  rw [hs.robot, hs.ap, lastRead_of_ok hx, lastRead_of_ok hx]
  exact ⟨rfl, rfl⟩

theorem wp_load (hw : Recorded paths w) :
    wp (surrounded pid paths) (Recorded paths) (Identity.load paths).run
      (fun r w' => ∀ identity, r = .ok identity → identity = Identity.resolve paths w'.robot)
      w := by
  apply wp_try_bind.mpr
  apply (wp_readOptional paths.robotConf hw).mono
  rintro (err | existing) u hu hr
  · exact ⟨hu, nofun⟩
  · refine ⟨hu, ?_⟩
    rintro identity hi
    cases hi
    rw [(hr existing rfl).1, if_pos rfl]

theorem wp_loadApConfig (hw : Recorded paths w) :
    wp (surrounded pid paths) (Recorded paths)
      (loadApConfig paths (Identity.resolve paths w.robot).robotId).run
      (fun r w' => ∀ config, r = .ok config → Known paths config w') w := by
  have hne : paths.wifiApConf ≠ paths.robotConf := fun h => by
    simpa [Paths.wifiApConf, Paths.robotConf, FilePath.join] using congrArg List.length h
  apply wp_try_bind.mpr
  apply (wp_readOptional paths.wifiApConf hw).mono
  rintro (err | existing) u hu hr
  · exact ⟨hu, nofun⟩
  · obtain ⟨hrobot, hap⟩ := hr existing rfl
    refine ⟨hu, ?_⟩
    rintro config hc
    rw [Known, hrobot, hap, if_neg hne, if_pos rfl]
    exact hc

theorem wp_configure (hw : Recorded paths w) (hc : Known paths config w) :
    wp (surrounded pid paths) (Recorded paths) (Ap.configure pid paths.wifiRunDir config).run
      (fun r w' => r = .ok () → Ready paths config w') w := by
  have hcommands : (requireInterface config.interface).run.Uses
      fun o => ∃ program args, o = SysOp.output program args := by
    refine Uses.lift_bind (Uses.bind ⟨⟨_, _, rfl⟩, fun _ => trivial⟩ fun _ => trivial) fun b => ?_
    cases b <;> trivial
  apply wp_try_bind.mpr
  apply (wp_commands hcommands hw hc).mono
  rintro (err | _) u hu hc
  · exact ⟨hu, nofun⟩
  apply wp_try_bind.mpr
  apply wp_bind.mpr
  apply (wp_writeHostapdConf hu hc).mono
  rintro (err | _) v hv hr
  · exact ⟨hv, hv, nofun⟩
  have hrest : (do
      withContext ("writing ".toList ++ (Ap.dnsmasqConf paths.wifiRunDir).display)
        (writeAtomically pid (Ap.dnsmasqConf paths.wifiRunDir) (renderDnsmasqConf config))
      flushAddresses config.interface
      addAddress config.interface (config.address.display ++ '/' :: decimal config.netmaskCidr)
      linkUp config.interface : Fallible Unit).run.Uses (Bystander pid paths) :=
    (uses_withContext ((writeAtomically_writes _ _ _).mono fun _ => .write)).try_bind fun _ =>
      (run_bystander _ _).try_bind fun _ => (run_bystander _ _).try_bind fun _ => run_bystander _ _
  exact ⟨hv, (wp_bystander hrest hv (hr rfl)).mono fun _ _ _ hc _ => hc⟩

theorem wp_spawnDaemons (interface : Str) (hw : Recorded paths w) (hc : Ready paths config w) :
    wp (surrounded pid paths) (Recorded paths) (Ap.spawnDaemons paths.wifiRunDir interface).run
      (fun _ _ => True) w := by
  refine wp_try_bind.mpr ⟨hw, fun r u he => ?_⟩
  have hb : Bystander pid paths
    (.spawn (Radio.dnsmasq.command paths).1 (Radio.dnsmasq.command paths).2) := .dnsmasq
  have hu := recorded_of_step hb.startsNoAp hw he
  have hc := ready_of_step hb hc he
  clear he
  rcases r with err | d
  · exact ⟨hu, hu, trivial⟩
  refine ⟨hu, wp_try_bind.mpr (wp_lift.mpr ⟨hu, fun r v he => ?_⟩)⟩
  have hv := recorded_of_hostapd hu hc he
  rcases r with err | h
  · refine ⟨hv, wp_try_bind.mpr (wp_lift.mpr ?_)⟩
    exact (wp_startsNoAp (fun _ => Plain.startsNoAp) (Daemon.stop_plain _) hv).mono
      fun _ _ hi _ => ⟨hi, trivial⟩
  · exact ⟨hv, hv, trivial⟩

variable {s : Supervisor} {state : State} {head : Head}

/-- Raising the access point ends with a hostapd that serves what was read. -/
theorem wp_raiseAp (hw : Recorded paths w) :
    wp (surrounded pid paths) (Recorded paths) (s.raiseAp pid paths).run (fun _ _ => True) w := by
  obtain ⟨client, _ | ap⟩ := s
  · apply wp_try_bind.mpr
    apply (wp_load hw).mono
    rintro (err | identity) u hu hi
    · exact ⟨hu, trivial⟩
    obtain rfl := hi identity rfl
    apply wp_try_bind.mpr
    apply (wp_loadApConfig hu).mono
    rintro (err | config) v hv hc
    · exact ⟨hv, trivial⟩
    apply wp_try_bind.mpr
    apply wp_try_bind.mpr
    apply (wp_configure hv (hc config rfl)).mono
    rintro (err | _) x hx hr
    · exact ⟨hx, hx, trivial⟩
    apply (wp_spawnDaemons _ hx (hr rfl)).mono
    rintro (err | session) y hy -
    · exact ⟨hy, trivial⟩
    · exact ⟨hy, trivial⟩
  · exact ⟨hw, trivial⟩

theorem wp_station {α : Type} {p : Prog Sys α} (h : p.Uses (StationCall paths))
    (hw : Recorded paths w) :
    wp (surrounded pid paths) (Recorded paths) p (fun _ _ => True) w :=
  wp_startsNoAp (fun _ => StationCall.startsNoAp) h hw

theorem wp_step (hw : Recorded paths w) :
    wp (surrounded pid paths) (Recorded paths) (s.step pid paths tuning state)
      (fun _ _ => True) w := by
  cases state with
  | tryClient => exact wp_station (tryClient_station.bind fun _ => trivial) hw
  | clientUp => exact wp_station (watchClient_station.bind fun _ => trivial) hw
  | fallbackAp =>
    refine wp_bind.mpr ((wp_station (stopClient_station s) hw).mono fun s' u hu _ => ?_)
    apply wp_bind.mpr
    apply (wp_raiseAp hu).mono
    rintro (err | s'') v hv -
    · exact ⟨hv, trivial⟩
    · exact wp_station ⟨trivial, fun _ => ⟨fun _ => serveRound_station _, fun _ => trivial⟩⟩ hv

/-- Another iteration keeps the record. -/
theorem wp_iterate (hw : Recorded paths w) :
    wp (surrounded pid paths) (Recorded paths) (iterate pid paths tuning head)
      (fun _ _ => True) w := by
  apply wp_bind.mpr
  apply (wp_step hw).mono
  rintro ⟨s, err | e⟩ u hu -
  · exact ⟨hu, trivial⟩
  refine wp_bind.mpr ((wp_startsNoAp (fun _ => HookCall.startsNoAp)
    (notifyChange_uses _ _ _) hu).mono fun _ v hv _ => ?_)
  refine wp_bind.mpr ((wp_startsNoAp (fun _ => Aside.startsNoAp)
    (announceReady_aside _ _) hv).mono fun _ x hx _ => ?_)
  exact ⟨hx, trivial⟩

theorem drop_station (s : Supervisor) : s.drop.Uses (StationCall paths) := by
  obtain ⟨_ | client, _ | ap⟩ := s
  · trivial
  · exact dropAp_station ap
  · exact (uses_station client.supplicant.stop_plain).bind fun _ => trivial
  · exact (uses_station client.supplicant.stop_plain).bind fun _ => dropAp_station ap

theorem wp_supervise (hw : Recorded paths w) :
    wp (surrounded pid paths) (Recorded paths) (supervise pid paths tuning).run
      (fun _ _ => True) w := by
  apply wp_try_bind.mpr
  apply wp_try_bind.mpr
  apply (wp_station (uses_station (requireInterface_plain _)) hw).mono
  rintro (err | _) u hu -
  · exact ⟨hu, hu, trivial⟩
  refine wp_lift.mpr ((wp_startsNoAp (fun _ => HookCall.startsNoAp)
    (Hook.notify_uses _ _) hu).mono fun _ v hv _ => ?_)
  refine wp_try_bind.mpr (wp_lift.mpr
    (wp_loop (fun _ w => Recorded paths w) hv fun head x hx => ?_))
  apply (wp_iterate hx).mono
  rintro (head' | ⟨s, err⟩) y hy -
  · exact hy
  · refine ⟨hy, wp_try_bind.mpr (wp_lift.mpr ?_)⟩
    exact (wp_station (drop_station s) hy).mono fun _ z hz _ => ⟨hz, trivial⟩

theorem recorded_start (fs : Fs) : Recorded paths (World.start fs) := ⟨nofun, nofun⟩

/-- Whatever the interleaving, a hostapd that is alive serves what the supervisor had read. -/
theorem recorded_of_interleaves {fs : Fs} (hp : Partial (supervise pid paths tuning).run t)
    (hr : Env.Interleaves (Others pid paths) (Supervising paths) (World.start fs) t w) :
    Recorded paths w := by
  obtain ⟨u, hu, ho⟩ := hr.runs Others.refl Others.trans
  exact ho.recorded (wp_cut hp (wp_supervise (recorded_start fs)) hu)

/-- The files that hold the identity. -/
def identityFiles (paths : Paths) : List FilePath :=
  [paths.robotConf, paths.hostnamePath, paths.hostsPath]

/-- The calls of a process that sets the robot ID. -/
inductive RenamingOp (pid : ℕ) (paths : Paths) : SysOp → Prop
  | read (path : FilePath) : RenamingOp pid paths (.readToString path)
  | status (program : Str) (args : List Str) : RenamingOp pid paths (.status program args)
  | write {path : FilePath} {o : SysOp} : path ∈ identityFiles paths → WriteOp pid path o →
      RenamingOp pid paths o

theorem tryPrograms_renaming (attempts : List (Str × List Str)) :
    (Identity.tryPrograms attempts).Uses (RenamingOp pid paths) := by
  induction attempts with
  | nil => trivial
  | cons attempt rest ih =>
    refine ⟨.status _ _, ?_⟩
    rintro (err | status)
    · exact ih
    · simp only [ret_bind]
      split
      · trivial
      · exact ih

theorem writeIfChanged_renaming {path : FilePath} (h : path ∈ identityFiles paths)
    (contents : Str) : (writeIfChanged pid path contents).run.Uses (RenamingOp pid paths) := by
  refine Uses.try_bind ⟨.read path, fun _ => trivial⟩ fun existing => ?_
  split
  · trivial
  · exact ((writeAtomically_writes _ _ _).mono fun _ => .write h).try_bind fun _ => trivial

theorem setRobotId_renaming (robotId : Identity.RobotId) :
    (Identity.setRobotId pid paths robotId).run.Uses (RenamingOp pid paths) := by
  refine Uses.try_bind ?_ fun _ => Uses.try_bind ?_ fun config => Uses.try_bind ?_ fun renamed => ?_
  · refine Uses.try_bind ⟨.read _, fun _ => trivial⟩ fun existing => ?_
    exact (writeAtomically_writes _ _ _).mono fun _ => .write (by simp [identityFiles])
  · exact Uses.try_bind ⟨.read _, fun _ => trivial⟩ fun _ => trivial
  · refine (writeIfChanged_renaming (by simp [identityFiles]) _).try_bind fun changed => ?_
    refine Uses.try_bind ⟨.read _, fun _ => trivial⟩ fun existing => ?_
    exact (writeIfChanged_renaming (by simp [identityFiles]) _).try_bind fun _ => trivial
  · refine (tryPrograms_renaming _).lift_bind fun _ => ?_
    cases renamed with
    | false => trivial
    | true =>
      refine Uses.bind (p := Identity.tryRestartAsync _) ?_ fun _ => trivial
      unfold Identity.tryRestartAsync
      split
      · trivial
      · exact ⟨.status _ _, fun _ => trivial⟩

/-- The files that a process writes to rename the robot are not below or at a path of the
supervisor's, nor are their temporaries. -/
def Apart (pid : ℕ) (paths : Paths) (q : FilePath) : Prop :=
  ∀ path ∈ identityFiles paths, ¬ q <+: path ∧ q ≠ tmpPath pid path

instance (pid : ℕ) (paths : Paths) (q : FilePath) : Decidable (Apart pid paths q) :=
  inferInstanceAs (Decidable (∀ path ∈ identityFiles paths, _))

theorem node_of_renamings {q : FilePath} {fs fs' : Fs} (hq : Apart pid paths q)
    (h : ∀ e ∈ t, RenamingOp pid paths e.1) (hr : Env.Runs Fs.env fs t fs') :
    fs'.node q = fs.node q := by
  refine Fs.node_eq_of_runs hr fun e he => ?_
  have hop := h e he
  obtain ⟨o, r⟩ := e
  cases hop with
  | read path => exact ⟨trivial, fun n => rfl⟩
  | status program args => exact ⟨trivial, fun n => rfl⟩
  | write hmem hop => exact hop.quiet_of_not_isPrefix (hq _ hmem).1 (hq _ hmem).2

/-- Setting the robot ID, however far it gets, is among the things that others do. -/
theorem others_of_setRobotId {pid' : ℕ} {robotId : Identity.RobotId} {fs' : Fs}
    (hconf : Apart pid' paths (Ap.hostapdConf paths.wifiRunDir))
    (htmp : Apart pid' paths (tmpPath pid (Ap.hostapdConf paths.wifiRunDir)))
    (h : Partial (Identity.setRobotId pid' paths robotId).run t)
    (hr : Env.Runs Fs.env w.fs t fs') : Others pid paths w { w with fs := fs' } := by
  have hops := (setRobotId_renaming robotId).cut h
  exact ⟨fs', rfl, node_of_renamings hconf hops hr, node_of_renamings htmp hops hr⟩

/-- The reports follow the files, so they are right about a hostapd that is alive exactly while the
files give the network the name and the security that they gave it when they were read. -/
theorem honest_iff {fs : Fs} {p : ℕ} {robot ap : Option Str} {now : ApConfig}
    (hp : Partial (supervise pid paths tuning).run t)
    (hr : Env.Interleaves (Others pid paths) (Supervising paths) (World.start fs) t w)
    (ha : w.children p = some (Radio.hostapd.command paths))
    (hrobot : Holds w.fs paths.robotConf robot) (hap : Holds w.fs paths.wifiApConf ap)
    (hnow : apConfigOf paths robot ap = .ok now) :
    ∃ b served, w.launched p = some b ∧ apConfigOf paths b.robot b.ap = .ok served ∧
      b.conf = renderHostapdConf served ∧
      ((∀ c ∈ paths.wifiInterface, isControl c = false) →
        directives b.conf = (networkDirectives served ++ wpaDirectives served.psk).map some) ∧
      (Prints paths w.fs served ↔ SameNetwork paths b.robot b.ap robot ap) ∧
      (Summarises paths w.fs served ↔ SameNetwork paths b.robot b.ap robot ap) := by
  have hw := recorded_of_interleaves hp hr
  obtain ⟨b, hb⟩ := Option.ne_none_iff_exists'.mp (hw.alive p ha)
  obtain ⟨served, hs, hc⟩ := hw.rendered p b hb
  refine ⟨b, served, hb, hs, hc, fun hi => ?_, ?_, ?_⟩
  · rw [hc]
    exact directives_renderHostapdConf ((resolveApConfig_eq_ok_iff.mp hs).printable hi)
  · rw [Status.prints_iff hrobot hap hnow, sameNetwork_iff hs hnow]
  · rw [Status.summarises_iff hrobot hap hnow, sameNetwork_iff hs hnow]

end Broadcast

section Example

/-- The reports are always about the network that is served. -/
def AlwaysHonest (pid : ℕ) (paths : Paths) (tuning : SuperviseTuning) : Prop :=
  ∀ (fs : Fs) (t : List (Event Sys)) (w : World) (p : ℕ) (robot ap : Option Str) (now : ApConfig),
    Partial (supervise pid paths tuning).run t →
    Env.Interleaves (Others pid paths) (Supervising paths) (World.start fs) t w →
    w.children p = some (Radio.hostapd.command paths) →
    Holds w.fs paths.robotConf robot → Holds w.fs paths.wifiApConf ap →
    apConfigOf paths robot ap = .ok now →
    ∃ b served, w.launched p = some b ∧ apConfigOf paths b.robot b.ap = .ok served ∧
      b.conf = renderHostapdConf served ∧ Prints paths w.fs served ∧ Summarises paths w.fs served

/-- The call neither reads a file nor has to do with a child. -/
def Idle : SysOp → Prop
  | .readToString _ | .spawn _ _ | .tryWait _ | .wait _ => False
  | _ => True

/-- What is neither read nor started leaves the world as it is, but for the files. -/
theorem supervises_idle {fs' : Fs} (h : ∀ e ∈ t, Idle e.1) (hr : Env.Runs Fs.env w.fs t fs') :
    Env.Runs (Supervising paths) w t { w with fs := fs' } := by
  generalize hfs : w.fs = fs at hr
  induction hr generalizing w with
  | nil =>
    subst hfs
    exact .nil _
  | @cons fs fs₁ fs₂ e t he _ ih =>
    subst hfs
    obtain ⟨h₁, h₂⟩ := List.forall_mem_cons.mp h
    have hstep : Supervising paths w e { w with fs := fs₁ } := by
      obtain ⟨o, r⟩ := e
      refine ⟨he, ?_, ?_, ?_, ?_⟩ <;> cases o <;> first | exact h₁.elim | rfl | exact fun _ _ h => h
    exact .cons hstep (ih (w := { w with fs := fs₁ }) h₂ rfl)

/-- A file that does not exist can be written at the root. -/
theorem exists_written (pid : ℕ) {fs : Fs} {name contents : Str} (hc : contents ≠ [])
    (hp : fs.node (FilePath.join [] name) = none)
    (ht : fs.node (tmpPath pid (FilePath.join [] name)) = none) :
    ∃ t fs', Returns (writeAtomically pid (FilePath.join [] name) contents).run t (.ok ()) ∧
      Env.Runs Fs.env fs t fs' ∧ Holds fs' (FilePath.join [] name) (some contents) ∧
      ∀ q, q ≠ FilePath.join [] name → q ≠ tmpPath pid (FilePath.join [] name) →
        fs'.node q = fs.node q :=
  exists_writeAtomically pid (FilePath.parent_join _ _) hc fs.root_dir (by simp [hp]) (by simp [ht])

theorem partial_raising {served : ApConfig} {t t' : List (Event Sys)}
    (hs : apConfigOf rootPaths none none = .ok served)
    (h : Returns (writeAtomically 1 (Ap.hostapdConf []) (renderHostapdConf served)).run t (.ok ()))
    (h' : Returns (writeAtomically 1 (Ap.dnsmasqConf []) (renderDnsmasqConf served)).run t'
      (.ok ())) :
    Partial (supervise 1 rootPaths defaultTuning).run
      (fallingBack ++ (loading ++ (t ++ (t' ++ (addressing served ++ starting))))) := by
  have hi : served.interface = "wlan0".toList := (resolveApConfig_eq_ok_iff.mp hs).interface
  have hserve : Partial (Supervisor.init.step 1 rootPaths defaultTuning .fallbackAp)
      (loading ++ (t ++ (t' ++ (addressing served ++ starting)))) :=
    partial_bind_iff.mpr (Or.inr ⟨.init, [], _, rfl, .ret _,
      partial_bind_iff.mpr (Or.inl (returns_raising hs hi h h').cut)⟩)
  exact reaches_fallingBack.cut (partial_bind_iff.mpr (Or.inl hserve))

/-- The world once the access point is up. -/
def raisedWorld (fs : Fs) (served : ApConfig) : World where
  fs := fs
  children := raisedChildren
  robot := none
  ap := none
  launched := Function.update (fun _ => none) 8 (some ⟨renderHostapdConf served, none, none⟩)

theorem supervises_starting {fs : Fs} {served : ApConfig}
    (h : Holds fs (Ap.hostapdConf []) (some (renderHostapdConf served))) :
    Env.Runs (Supervising rootPaths) (World.start fs) starting (raisedWorld fs served) := by
  have hfewer (w : Children) : Fewer w w := fun _ _ hp => hp
  have hb : Bystander 1 rootPaths (.spawn (Radio.dnsmasq.command rootPaths).1
      (Radio.dnsmasq.command rootPaths).2) := .dnsmasq
  have hnode : fs.node (Ap.hostapdConf rootPaths.wifiRunDir) =
      some (.file (.text (renderHostapdConf served))) := h
  let dnsmasqUp : World := ⟨fs,
    Function.update (fun _ => none) 7 (some (Radio.dnsmasq.command rootPaths)), none, none,
    fun _ => none⟩
  have hd : Supervising rootPaths (World.start fs) ⟨.spawn (Radio.dnsmasq.command rootPaths).1
      (Radio.dnsmasq.command rootPaths).2, .ok 7⟩ dnsmasqUp :=
    ⟨rfl, ⟨rfl, hfewer _⟩, rfl, rfl, (launchedBy_of_ne (w := World.start fs) hb.startsNoAp).symm⟩
  have hh : Supervising rootPaths dnsmasqUp ⟨.spawn (Radio.hostapd.command rootPaths).1
      (Radio.hostapd.command rootPaths).2, .ok 8⟩ (raisedWorld fs served) := by
    refine ⟨rfl, ⟨rfl, hfewer _⟩, rfl, rfl, ?_⟩
    rw [launchedBy, if_pos rfl, hnode]
    rfl
  exact .cons hd (.cons hh (.nil _))

theorem supervises_raising {fs : Fs} {served : ApConfig} {t : List (Event Sys)}
    (ht : ∀ e ∈ t, Idle e.1) (hr : Env.Runs Fs.env Fs.empty t fs)
    (h : Holds fs (Ap.hostapdConf []) (some (renderHostapdConf served))) :
    Env.Runs (Supervising rootPaths) (World.start Fs.empty)
      (fallingBack ++ (loading ++ (t ++ (addressing served ++ starting))))
      (raisedWorld fs served) := by
  have hfewer (w : Children) : Fewer w w := fun _ _ hp => hp
  have hfall : Env.Runs (Supervising rootPaths) (World.start Fs.empty) fallingBack
      (World.start Fs.empty) := by
    have hfs : Env.Runs Fs.env Fs.empty fallingBack Fs.empty :=
      .cons rfl (.cons ⟨rfl, rfl⟩ (.cons rfl (.nil _)))
    exact supervises_idle (by simp [fallingBack, Idle]) hfs
  have hrobot : Supervising rootPaths (World.start Fs.empty)
      ⟨.readToString rootPaths.robotConf, missing⟩ (World.start Fs.empty) :=
    ⟨⟨rfl, trivial⟩, hfewer _, rfl, rfl, rfl⟩
  have hap : Supervising rootPaths (World.start Fs.empty)
      ⟨.readToString rootPaths.wifiApConf, missing⟩ (World.start Fs.empty) :=
    ⟨⟨rfl, trivial⟩, hfewer _, rfl, rfl, rfl⟩
  have hinterface : Supervising rootPaths (World.start Fs.empty)
      ⟨.output ip ["link".toList, "show".toList, "wlan0".toList], succeeded⟩
      (World.start Fs.empty) := ⟨rfl, hfewer _, rfl, rfl, rfl⟩
  have hwrite : Env.Runs (Supervising rootPaths) (World.start Fs.empty) t (World.start fs) :=
    supervises_idle ht hr
  have haddress : Env.Runs (Supervising rootPaths) (World.start fs) (addressing served)
      (World.start fs) := by
    have hfs : Env.Runs Fs.env fs (addressing served) fs :=
      .cons rfl (.cons rfl (.cons rfl (.nil _)))
    exact supervises_idle (by simp [addressing, Idle]) hfs
  have hend := Env.runs_append_iff.mpr ⟨_, haddress, supervises_starting h⟩
  have hrest := Env.runs_append_iff.mpr ⟨_, hwrite, hend⟩
  exact Env.runs_append_iff.mpr ⟨_, hfall, .cons hrobot (.cons hap (.cons hinterface hrest))⟩

/-- After the access point has been raised, another process gets the new robot ID into
`robot.conf`. -/
theorem exists_renamed : ∃ (t : List (Event Sys)) (w : World) (b : Launch),
    Partial (supervise 1 rootPaths defaultTuning).run t ∧
    Env.Interleaves (Others 1 rootPaths) (Supervising rootPaths) (World.start Fs.empty) t w ∧
    w.children 8 = some (Radio.hostapd.command rootPaths) ∧
    w.launched 8 = some b ∧ b.robot = none ∧ b.ap = none ∧
    Holds w.fs rootPaths.robotConf (some "ROBOT_ID=b\n".toList) ∧
    Holds w.fs rootPaths.wifiApConf none := by
  obtain ⟨served, hs⟩ : ∃ served, apConfigOf rootPaths none none = .ok served := ⟨_, rfl⟩
  have hc : renderHostapdConf served ≠ [] := by simp [renderHostapdConf, joinLines]
  have hd : renderDnsmasqConf served ≠ [] := by simp [renderDnsmasqConf, joinLines]
  obtain ⟨t₁, fs₁, h₁, hr₁, hh₁, hf₁⟩ := exists_written 1 hc
    (show Fs.empty.node (Ap.hostapdConf []) = none from rfl) rfl
  obtain ⟨t₂, fs₂, h₂, hr₂, hh₂, hf₂⟩ := exists_written 1 hd
    (show fs₁.node (Ap.dnsmasqConf []) = none from hf₁ _ (by decide) (by decide))
    (hf₁ _ (by decide) (by decide))
  have habsent {q : FilePath} (hq : Fs.empty.node q = none) (h : q ≠ Ap.hostapdConf [])
      (h' : q ≠ tmpPath 1 (Ap.hostapdConf [])) (hd : q ≠ Ap.dnsmasqConf [])
      (hd' : q ≠ tmpPath 1 (Ap.dnsmasqConf [])) : fs₂.node q = none := by
    rw [hf₂ q hd hd', hf₁ q h h', hq]
  obtain ⟨t₃, fs₃, h₃, hr₃, hh₃, hf₃⟩ := exists_written 2
    (show "ROBOT_ID=b\n".toList ≠ [] by decide)
    (show fs₂.node rootPaths.robotConf = none from
      habsent rfl (by decide) (by decide) (by decide) (by decide))
    (habsent rfl (by decide) (by decide) (by decide) (by decide))
  have hidle : ∀ e ∈ t₁ ++ t₂, Idle e.1 := by
    have hop {path : FilePath} {o : SysOp} (ho : WriteOp 1 path o) : Idle o := by
      cases ho <;> trivial
    refine List.forall_mem_append.mpr ⟨fun e he => ?_, fun e he => ?_⟩
    · exact hop ((writeAtomically_writes _ _ _).returns h₁ e he)
    · exact hop ((writeAtomically_writes _ _ _).returns h₂ e he)
  have hserved : Holds fs₂ (Ap.hostapdConf []) (some (renderHostapdConf served)) :=
    (hf₂ _ (by decide) (by decide)).trans hh₁
  have hrun := supervises_raising hidle (Env.runs_append_iff.mpr ⟨_, hr₁, hr₂⟩) hserved
  have hname : Holds fs₂ rootPaths.robotConf none :=
    habsent rfl (by decide) (by decide) (by decide) (by decide)
  obtain ⟨x, hx, hopt⟩ := hname.exists_reply
  have hset : Partial (Identity.setRobotId 2 rootPaths
      ⟨['b'], by decide, by decide, by decide, by decide, by decide⟩).run
      (⟨.readToString rootPaths.robotConf, x⟩ :: t₃) :=
    partial_try_bind_iff.mpr (Or.inl (Identity.returns_setKey hopt h₃).cut)
  have hother : Others 1 rootPaths (raisedWorld fs₂ served) (raisedWorld fs₃ served) :=
    Broadcast.others_of_setRobotId (by decide) (by decide) hset (.cons ⟨rfl, hx⟩ hr₃)
  have hpartial := partial_raising hs h₁ h₂
  rw [← List.append_assoc t₁] at hpartial
  refine ⟨_, _, ⟨renderHostapdConf served, none, none⟩, hpartial,
    (Env.Interleaves.start.append hrun).others hother, rfl, rfl, rfl, rfl, hh₃, ?_⟩
  exact (hf₃ _ (by decide) (by decide)).trans
    (habsent rfl (by decide) (by decide) (by decide) (by decide))

/-- The files name another network than the one that is served. -/
theorem not_sameNetwork_renamed :
    ¬ SameNetwork rootPaths none none (some "ROBOT_ID=b\n".toList) none := by
  rintro ⟨⟨name, hserved, hnow⟩, -⟩
  obtain ⟨served, hs, hs'⟩ : ∃ config, apConfigOf rootPaths none none = .ok config ∧
      config.ssid.str = "robot-setup".toList := ⟨_, rfl, by decide⟩
  obtain ⟨now, hn, hn'⟩ : ∃ config,
      apConfigOf rootPaths (some "ROBOT_ID=b\n".toList) none = .ok config ∧
      config.ssid.str = "b-setup".toList := ⟨_, rfl, by decide⟩
  have hname := ((namesNetwork_iff hs).mp hserved).trans ((namesNetwork_iff hn).mp hnow).symm
  rw [hs', hn'] at hname
  exact absurd hname (by decide)

theorem not_alwaysHonest : ¬ AlwaysHonest 1 rootPaths defaultTuning := by
  intro h
  obtain ⟨t, w, b, hp, hr, ha, hl, hb, hb', hrobot, hap⟩ := exists_renamed
  obtain ⟨now, hnow⟩ : ∃ now, apConfigOf rootPaths (some "ROBOT_ID=b\n".toList) none = .ok now :=
    ⟨_, rfl⟩
  obtain ⟨b', served, hl', hs, -, hprints, -⟩ := h _ t w 8 _ _ now hp hr ha hrobot hap hnow
  obtain rfl : b = b' := Option.some.inj (hl.symm.trans hl')
  rw [Status.prints_iff hrobot hap hnow, ← sameNetwork_iff hs hnow, hb, hb'] at hprints
  exact not_sameNetwork_renamed hprints

theorem honest_iff_renamed : ∃ (w : World) (served : ApConfig),
    w.children 8 = some (Radio.hostapd.command rootPaths) ∧
    Holds w.fs rootPaths.robotConf (some "ROBOT_ID=b\n".toList) ∧
    apConfigOf rootPaths none none = .ok served ∧
    ¬ Prints rootPaths w.fs served ∧ ¬ Summarises rootPaths w.fs served := by
  obtain ⟨t, w, b, hp, hr, ha, hl, hb, hb', hrobot, hap⟩ := exists_renamed
  obtain ⟨now, hnow⟩ : ∃ now, apConfigOf rootPaths (some "ROBOT_ID=b\n".toList) none = .ok now :=
    ⟨_, rfl⟩
  obtain ⟨b', served, hl', hs, -, -, hprints, hsums⟩ :=
    Broadcast.honest_iff hp hr ha hrobot hap hnow
  obtain rfl : b = b' := Option.some.inj (hl.symm.trans hl')
  rw [hb, hb'] at hs hprints hsums
  refine ⟨w, served, ha, hrobot, hs, ?_, ?_⟩
  · exact fun h => not_sameNetwork_renamed (hprints.mp h)
  · exact fun h => not_sameNetwork_renamed (hsums.mp h)

end Example

end RobotCtl.Wifi
