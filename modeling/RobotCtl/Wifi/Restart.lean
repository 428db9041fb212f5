import RobotCtl.Systemd
import RobotCtl.Wifi.Exclusion

/-! # Stopping and restarting the WiFi

systemd restarts a supervisor that returned and reaps the children of one that it
ends, and `wifi stop` puts the interface down. Over any number of such lives the
radio has one user, and a supervisor that returns leaves none behind.
-/

namespace RobotCtl.Wifi

open Text Prog

/-- What the hook is told when the WiFi does not run at all. -/
def Hook.off : Str := "off".toList

def linkDown (interface : Str) : Fallible Unit :=
  run ip ["link".toList, "set".toList, interface, "down".toList]

/-- A supervisor that was started by hand is left alone. -/
def stopUnit (unit : Str) : Fallible Unit := do
  let state ← Systemd.isActive unit
  if state = "active".toList ∨ state = "activating".toList then Systemd.stop unit

/-- Backs `robotctl wifi stop`. -/
def stop (unit : Str) (paths : Paths) : Fallible Unit := do
  stopUnit unit
  liftM (Hook.notify paths.wifiStateHook Hook.off)
  if ← interfaceExists paths.wifiInterface then
    flushAddresses paths.wifiInterface
    linkDown paths.wifiInterface

/-- The children that are alive after a history of supervisors and `wifi stop` commands, one after
the other. A supervisor either returns, or systemd ends it and reaps its children. -/
inductive Lives (paths : Paths) : Children → Prop
  | boot : Lives paths fun _ => none
  | returned {pid : ℕ} {tuning : SuperviseTuning} {w w' : Children} {t : List (Event Sys)}
      {r : Except Error Unit} : Lives paths w → Returns (supervise pid paths tuning).run t r →
      Env.Runs children w t w' → Lives paths w'
  | ended {pid : ℕ} {tuning : SuperviseTuning} {w w' : Children} {t : List (Event Sys)} :
      Lives paths w → Partial (supervise pid paths tuning).run t →
      Env.Runs children w t w' → Lives paths fun _ => none
  | stopped {unit : Str} {w w' : Children} {t : List (Event Sys)} : Lives paths w →
      Partial (stop unit paths).run t → Env.Runs children w t w' → Lives paths w'

variable {pid : ℕ} {paths : Paths} {tuning : SuperviseTuning} {w w' : Children}

section Stop

/-- No daemon is started with one argument that is not an absolute path. -/
theorem Radio.command_ne_relative (r : Radio) (hook : Str) {arg : Str} (h : arg.head? ≠ some '/') :
    r.command paths ≠ (hook, [arg]) := by
  intro he
  have ha : r.args paths = [arg] := congrArg Prod.snd he
  cases r with
  | supplicant => exact absurd (congrArg List.length ha) (by simp [args])
  | dnsmasq => exact absurd (congrArg List.length ha) (by simp [args])
  | hostapd =>
    simp only [args, List.cons.injEq, and_true] at ha
    rw [← ha, FilePath.display] at h
    refine h ?_
    cases paths.wifiRunDir <;> simp [FilePath.join]

theorem isActive_plain (unit : Str) : (Systemd.isActive unit).Uses Plain := by
  refine ⟨trivial, ?_⟩
  rintro (err | result) <;> trivial

theorem stopUnit_plain (unit : Str) : (stopUnit unit).run.Uses Plain := by
  refine (isActive_plain unit).lift_bind fun state => ?_
  split
  · refine ⟨trivial, ?_⟩
    rintro (err | status) <;> trivial
  · trivial

/-- `wifi stop` starts nothing but the hook. -/
theorem stop_uses (unit : Str) (paths : Paths) :
    (stop unit paths).run.Uses (HookCall paths.wifiStateHook Hook.off) := by
  have hp {α : Type} {p : Prog Sys α} (h : p.Uses Plain) :
      p.Uses (HookCall paths.wifiStateHook Hook.off) := h.mono fun _ ho => Or.inl ho.aside
  refine (hp (stopUnit_plain unit)).try_bind fun _ => ?_
  refine (Hook.notify_uses _ _).lift_bind fun _ => ?_
  refine (hp (interfaceExists_plain _)).lift_bind fun found => ?_
  cases found with
  | false => trivial
  | true => exact hp ((run_plain _ _).try_bind fun _ => run_plain _ _)

/-- Whatever `wifi stop` does, no daemon comes to life. -/
theorem wp_wifiStop {unit : Str} (ho : Owned paths free w) :
    wp children (Owned paths free) (stop unit paths).run (fun _ w' => Owned paths free w') w := by
  refine (wp_of_uses (R := NoNew paths) (fun _ _ _ h => h) (fun h h' => h.trans h') ?_
    (stop_uses unit paths) ho).mono fun _ _ hi _ => hi
  intro o r w w' hc hw he
  have hn : NoNew paths w w' := by
    refine fun r' p hp => alive_of_children ?_ he hp
    rintro rfl
    rcases hc with hc | hc
    · exact hc.elim
    · obtain ⟨hprogram, hargs⟩ := SysOp.spawn.inj hc
      exact r'.command_ne_relative _ (by decide) (Prod.ext hprogram hargs)
  exact ⟨hn.owned hw, hn⟩

end Stop

section Lives

variable {s : Supervisor} {t : List (Event Sys)}

/-- A supervisor that is dropped leaves no daemon behind. -/
theorem wp_drop_free (hc : s.client = none) (ho : Owned paths s.owner w) :
    wp children (Exclusive paths) s.drop (fun _ w' => Owned paths free w') w := by
  obtain ⟨client, _ | ap⟩ := s
  · subst hc
    exact ⟨ho.exclusive (Or.inl rfl), ho⟩
  · subst hc
    exact wp_dropAp ho

/-- A supervisor that returns does so with an error, and leaves no daemon behind. -/
theorem wp_supervise_free (ho : Owned paths free w) :
    wp children (Exclusive paths) (supervise pid paths tuning).run
      (fun r w' => (∃ err, r = .error err) ∧ Owned paths free w') w := by
  apply wp_try_bind.mpr
  apply (wp_opening ho).mono
  rintro (err | _) u hi hu
  · exact ⟨hi, ⟨err, rfl⟩, hu⟩
  refine wp_try_bind.mpr (wp_lift.mpr (wp_loop (AtHead paths) ⟨rfl, hu⟩ fun head v h => ?_))
  apply (wp_iterate h).mono
  rintro (head' | ⟨s, err⟩) x hi h
  · exact h
  refine ⟨hi, wp_try_bind.mpr (wp_lift.mpr ((wp_drop_free h.1 h.2).mono fun _ y hi hy => ?_))⟩
  exact ⟨hi, ⟨err, rfl⟩, hy⟩

/-- Between two lives no daemon is alive. -/
theorem Lives.owned (h : Lives paths w) : Owned paths free w := by
  induction h with
  | boot => exact owned_none
  | returned _ ht hr ih => exact (wp_returns ht (wp_supervise_free ih) hr).2
  | ended _ _ _ _ => exact owned_none
  | stopped _ ht hr ih => exact wp_cut ht (wp_wifiStop ih) hr

/-- After any history the radio has one user at every moment of a supervisor's run, and none as soon
as the run returns, which it does with an error only. -/
theorem restarts_exclusive (h : Lives paths w) (ht : Env.Runs children w t w') :
    (Partial (supervise pid paths tuning).run t → Exclusive paths w') ∧
      ∀ r, Returns (supervise pid paths tuning).run t r →
        (∃ err, r = .error err) ∧ ∀ (radio : Radio) p, w' p ≠ some (radio.command paths) := by
  refine ⟨fun hp => wp_cut hp (wp_supervise_free h.owned) ht, fun r hr => ?_⟩
  obtain ⟨herr, ho⟩ := wp_returns hr (wp_supervise_free h.owned) ht
  refine ⟨herr, fun radio p hp => ?_⟩
  cases radio <;> cases ho _ p hp

end Lives

section Example

/-- What is left of a session whose hostapd has exited is stopped. -/
def clearing : List (Event Sys) :=
  ⟨.mark ApSession.dropped [8, 7], ()⟩ :: ⟨.tryWait 8, exited⟩ :: (stopping 7 ++
    [⟨.output ip (flushArgs "wlan0".toList), succeeded⟩, ⟨.tryWait 8, exited⟩,
      ⟨.tryWait 7, exited⟩])

theorem returns_clearing : Returns raised.drop clearing () := by
  have hgone : Returns raised.hostapd.stop [⟨.tryWait 8, exited⟩] () := .call _ (.ret _)
  refine returns_call_iff.mpr ⟨(), _, rfl, ?_⟩
  simp only [ret_bind, bind_eq]
  refine returns_bind_iff.mpr ⟨(), [_], _, rfl, hgone, ?_⟩
  refine returns_bind_iff.mpr ⟨(), stopping 7, _, rfl, returns_stopping raised.dnsmasq, ?_⟩
  exact .call _ (.call _ (.call _ (.ret _)))

/-- hostapd is found dead. -/
def crashing : List (Event Sys) :=
  ⟨.sleep (secs 10), ()⟩ :: ([⟨.tryWait 8, exited⟩, ⟨.tryWait 7, .ok none⟩] ++ clearing)

theorem returns_crashing :
    Returns (Supervisor.serveRound rootPaths defaultTuning 0 ⟨none, some raised⟩) crashing
      (.inr (.init, .apDied)) := by
  have hdied : Returns (Supervisor.apDied ⟨none, some raised⟩)
      [⟨.tryWait 8, exited⟩, ⟨.tryWait 7, .ok none⟩] true := .call _ (.call _ (.ret _))
  have hstop : Returns (Supervisor.stopAp ⟨none, some raised⟩) clearing .init :=
    returns_bind_iff.mpr ⟨(), clearing, [], (List.append_nil _).symm, returns_clearing, .ret _⟩
  refine returns_call_iff.mpr ⟨(), _, rfl, ?_⟩
  simp only [ret_bind, bind_eq]
  refine returns_bind_iff.mpr ⟨true, [_, _], clearing, rfl, hdied, ?_⟩
  exact returns_bind_iff.mpr ⟨.init, clearing, [], (List.append_nil _).symm, hstop, .ret _⟩

theorem runs_crashing : Env.Runs children raisedChildren (⟨.now, 0⟩ :: crashing) fun _ => none := by
  have h {w : Children} : Fewer w w := fun _ _ hp => hp
  have hstop := runs_stopping (w := Function.update raisedChildren 8 none) 7
  rw [update_raisedChildren] at hstop
  have hclear : Env.Runs children (Function.update raisedChildren 8 none) clearing fun _ => none :=
    .cons h (.cons ⟨Function.update_self .., h⟩ (Env.runs_append_iff.mpr ⟨_, hstop,
      .cons h (.cons ⟨rfl, h⟩ (.cons ⟨rfl, h⟩ (.nil _)))⟩))
  exact .cons h (.cons h (.cons ⟨Function.update_self .., fewer_update 8⟩ (.cons h hclear)))

/-- A supervisor whose access point dies cannot read the identity to raise it again. -/
theorem exists_crashed : ∃ t err,
    Returns (supervise 1 rootPaths defaultTuning).run t (.error err) ∧
    Env.Runs children (fun _ => none) t fun _ => none := by
  obtain ⟨t, h, hr⟩ := exists_raising
  obtain ⟨err, herr⟩ : ∃ err, Returns
      (iterate 1 rootPaths defaultTuning ⟨.init, .fallbackAp, true⟩)
      [⟨.readToString rootPaths.robotConf, .error ⟨.other, []⟩⟩] (.inr (.init, err)) :=
    ⟨_, .call _ (.ret _)⟩
  have hreach := reaches_fallingBack.step (returns_iterate_raised h returns_crashing)
  have hread : Env.Runs children (fun _ => none)
      [⟨.readToString rootPaths.robotConf, .error ⟨.other, []⟩⟩] fun _ => none :=
    runs_silent (by simp [Silent])
  exact ⟨_, err, hreach.returns herr (.ret _), Env.runs_append_iff.mpr ⟨_,
    Env.runs_append_iff.mpr ⟨_, runs_fallingBack, Env.runs_append_iff.mpr ⟨_, hr, runs_crashing⟩⟩,
    hread⟩⟩

/-- The first life is ended with a supplicant, the second one fails after its access point died, and
the third one raises its own. -/
theorem restarts_exclusive_crashed : ∃ t u err,
    Returns (supervise 1 rootPaths defaultTuning).run u (.error err) ∧
    Env.Runs children (fun _ => none) u (fun _ => none) ∧ Lives rootPaths (fun _ => none) ∧
    Reaches 1 rootPaths defaultTuning t ⟨⟨none, some raised⟩, .tryClient, true⟩ ∧
    Env.Runs children (fun _ => none) t raisedChildren ∧ Exclusive rootPaths raisedChildren := by
  obtain ⟨t, hreach, hr⟩ := exists_raised
  obtain ⟨u, err, hu, hru⟩ := exists_crashed
  have hended : Lives rootPaths fun _ => none :=
    .ended .boot (hreach.cut partial_retrying) (Env.runs_append_iff.mpr ⟨_, hr, runs_retrying⟩)
  have hcrashed : Lives rootPaths fun _ => none := .returned hended hu hru
  have hcut := hreach.cut (.nil _)
  rw [List.append_nil] at hcut
  exact ⟨t, u, err, hu, hru, hcrashed, hreach, hr, (restarts_exclusive hcrashed hr).1 hcut⟩

end Example

end RobotCtl.Wifi
