import RobotCtl.Wifi.Calls

/-! # The recovery access point is not interrupted for nothing

Whoever repairs the robot is connected to its access point. The history of a
run tells why a session is dropped: it was found dead, or a retry was due and
there was something to retry with.
-/

namespace RobotCtl.Wifi

open Text Prog Env

/-- The daemons of a session. -/
structure ApPids where
  hostapd : ℕ
  dnsmasq : ℕ

def ApSession.pids (session : ApSession) : ApPids := ⟨session.hostapd.pid, session.dnsmasq.pid⟩

/-- The mark of a session that is dropped. -/
def dropEvent (p : ApPids) : Event Sys := ⟨.mark ApSession.dropped [p.hostapd, p.dnsmasq], ()⟩

/-- Both daemons of a session have been started. -/
def Started (paths : Paths) (p : ApPids) (t : List (Event Sys)) : Prop :=
  ⟨.spawn "dnsmasq".toList ["--keep-in-foreground".toList,
    "--conf-file=".toList ++ (paths.wifiRunDir.join "dnsmasq.conf".toList).display],
    .ok p.dnsmasq⟩ ∈ t ∧
  ⟨.spawn "hostapd".toList [(paths.wifiRunDir.join "hostapd.conf".toList).display],
    .ok p.hostapd⟩ ∈ t

/-- The last calls are a health check that found a daemon of the session no longer running. -/
def FoundDead (p : ApPids) (t : List (Event Sys)) : Prop :=
  ∃ (b : List (Event Sys)) (r r' : Io (Option ExitStatus)),
    t = b ++ [⟨.tryWait p.hostapd, r⟩, ⟨.tryWait p.dnsmasq, r'⟩] ∧
      ¬ (r = .ok none ∧ r' = .ok none)

/-- The session was started, the retry interval went by after that, and the last check for
`client.conf`, made then, found a file. -/
def RetryDue (paths : Paths) (tuning : SuperviseTuning) (p : ApPids) (t : List (Event Sys)) :
    Prop :=
  ∃ (b : List (Event Sys)) (started : ℕ) (m : List (Event Sys)) (time : ℕ) (c : List (Event Sys)),
    t = b ++ ⟨.now, started⟩ :: m ++ [⟨.now, time⟩, ⟨.isFile paths.wifiClientConf, true⟩] ++ c ∧
      Started paths p b ∧ secs tuning.apRetrySec ≤ time - started ∧
      ∀ r, ⟨.isFile paths.wifiClientConf, r⟩ ∉ c

/-- Every session that was dropped was dropped for a reason. -/
def Justified (paths : Paths) (tuning : SuperviseTuning) (t : List (Event Sys)) : Prop :=
  ∀ b p c, t = b ++ dropEvent p :: c → FoundDead p b ∨ RetryDue paths tuning p b

variable {pid : ℕ} {paths : Paths} {tuning : SuperviseTuning} {t t' : List (Event Sys)}
  {p : ApPids} {s : Supervisor}

theorem dropEvent_inj {q : ApPids} (h : dropEvent p = dropEvent q) : p = q := by
  cases p
  cases q
  cases h
  rfl

theorem Started.mono (h : Started paths p t) (ht : t <+: t') : Started paths p t' :=
  ⟨ht.subset h.1, ht.subset h.2⟩

theorem RetryDue.mono (h : RetryDue paths tuning p t) (ht : Grows Unchecked t t') :
    RetryDue paths tuning p t' := by
  obtain ⟨b, started, m, time, c, rfl, hs, hd, hc⟩ := h
  obtain ⟨u, rfl, hu⟩ := ht
  refine ⟨b, started, m, time, c ++ u, List.append_assoc .., hs, hd, fun r hr => ?_⟩
  rcases List.mem_append.mp hr with hr | hr
  · exact hc r hr
  · exact hu _ hr

theorem justified_nil : Justified paths tuning [] := by
  intro b p c h
  exact absurd h (by simp)

theorem justified_concat {e : Event Sys} (h : Justified paths tuning t)
    (he : ∀ p, e = dropEvent p → FoundDead p t ∨ RetryDue paths tuning p t) :
    Justified paths tuning (t ++ [e]) := by
  intro b p c hc
  rcases List.eq_nil_or_concat c with rfl | ⟨c', e', rfl⟩
  · obtain ⟨rfl, he'⟩ := List.append_inj' hc rfl
    exact he p (List.cons.inj he').1
  · rw [List.concat_eq_append, ← List.cons_append, ← List.append_assoc] at hc
    exact h b p c' (List.append_inj' hc rfl).1

theorem justified_unmarked {e : Event Sys} (h : Justified paths tuning t) (he : Unmarked e.1) :
    Justified paths tuning (t ++ [e]) := by
  apply justified_concat h
  rintro p rfl
  exact he.elim

/-- The environment records every event, and keeps an invariant through those that drop no
session. -/
structure Recorder (env : Env Sys (List (Event Sys))) (I : List (Event Sys) → Prop) : Prop where
  records : ∀ {t e t'}, env t e t' → t' = t ++ [e]
  keeps : ∀ {t e t'}, env t e t' → Unmarked e.1 → I t → I t'

namespace Recorder

variable {env : Env Sys (List (Event Sys))} {I : List (Event Sys) → Prop}

theorem wp_uses {α : Type} {p : Prog Sys α} {allowed : SysOp → Prop} (h : Recorder env I)
    (ha : ∀ o, allowed o → Unmarked o) (hp : p.Uses allowed) (hi : I t) :
    wp env I p (fun _ t' => Grows allowed t t') t :=
  wp_record h.records (fun he ho => h.keeps he (ha _ ho)) hp hi

theorem wp_plain {α : Type} {p : Prog Sys α} (h : Recorder env I) (hp : p.Uses Plain)
    (hi : I t) : wp env I p (fun _ t' => t <+: t') t :=
  (h.wp_uses (fun _ => Plain.unmarked) hp hi).mono fun _ _ _ hg => hg.isPrefix

/-- One call that drops no session. -/
theorem wp_call {o : SysOp} (h : Recorder env I) (ho : Unmarked o) (hi : I t) :
    wp env I (.call o .ret) (fun r t' => t' = t ++ [⟨o, r⟩]) t := by
  refine ⟨hi, fun r t' he => ?_⟩
  exact ⟨h.keeps he ho hi, h.records he⟩

theorem wp_stopClient (h : Recorder env I) (hi : I t) :
    wp env I (s.stopClient paths) (fun s' t' => s'.ap = s.ap ∧ t <+: t') t := by
  obtain ⟨_ | client, ap⟩ := s
  · exact ⟨hi, rfl, List.prefix_refl t⟩
  · refine wp_bind.mpr ((h.wp_plain client.supplicant.stop_plain hi).mono fun _ u hi hu => ?_)
    refine wp_bind.mpr ((h.wp_plain (runBestEffort_plain _ _) hi).mono fun _ v hi hv => ?_)
    exact ⟨hi, rfl, hu.trans hv⟩

theorem wp_setClient (h : Recorder env I) (session : ClientSession) (hi : I t) :
    wp env I (s.setClient session) (fun s' _ => s'.ap = s.ap) t := by
  obtain ⟨_ | client, ap⟩ := s
  · exact ⟨hi, rfl⟩
  · refine wp_bind.mpr ((h.wp_plain client.supplicant.stop_plain hi).mono fun _ u hi _ => ?_)
    exact ⟨hi, rfl⟩

/-- The attempts to connect leave the access point alone. -/
theorem wp_tryAttempts (h : Recorder env I) (attempts : List ℕ) (hi : I t) :
    wp env I (s.tryAttempts paths tuning attempts) (fun x _ => x.1.ap = s.ap) t := by
  induction attempts generalizing s t with
  | nil => exact ⟨hi, rfl⟩
  | cons attempt rest ih =>
    apply wp_bind.mpr
    apply (h.wp_uses (fun _ ho => ho) (connect_unmarked _ _) hi).mono
    rintro ((path | err) | session) u hi -
    · exact ⟨hi, rfl⟩
    · refine wp_bind.mpr ((h.wp_stopClient hi).mono fun s' v hi hs => ?_)
      have ih {x : List (Event Sys)} (hi : I x) :
          wp env I (s'.tryAttempts paths tuning rest) (fun x _ => x.1.ap = s.ap) x :=
        (ih hi).mono fun _ _ _ hx => hx.trans hs.1
      split
      · exact wp_bind.mpr ((h.wp_plain (sleep_plain _) hi).mono fun _ _ hi _ => ih hi)
      · exact ih hi
    · refine wp_bind.mpr ((h.wp_setClient session hi).mono fun s' v hi hs => ?_)
      exact ⟨hi, hs⟩

theorem wp_watchClient (h : Recorder env I) (hi : I t) :
    wp env I (s.watchClient paths tuning) (fun x _ => x.1.ap = s.ap ∧ x.2 = .linkLost) t := by
  apply wp_loop (fun s' t => s'.ap = s.ap ∧ I t) ⟨rfl, hi⟩
  rintro s' t ⟨hs, hi⟩
  refine wp_bind.mpr ((h.wp_plain (sleep_plain _) hi).mono fun _ u hi _ => ?_)
  apply wp_bind.mpr
  apply (h.wp_plain (ipv4Address_plain _) hi).mono
  rintro (_ | address) v hi -
  · refine wp_bind.mpr ((h.wp_stopClient hi).mono fun s'' x hi hs' => ?_)
    exact ⟨hi, hi, hs'.1.trans hs, rfl⟩
  · exact ⟨hi, hs, hi⟩

theorem wp_spawnDaemons (h : Recorder env I) (interface : Str) (hi : I t) :
    wp env I (Ap.spawnDaemons paths.wifiRunDir interface).run
      (fun r t' => ∀ a, r = .ok a → Started paths a.pids t' ∧ t <+: t') t := by
  apply wp_try_bind.mpr
  apply wp_bind.mpr
  apply (h.wp_call (o := .spawn _ _) trivial hi).mono
  rintro (err | d) u hi rfl
  · exact ⟨hi, hi, nofun⟩
  refine ⟨hi, wp_try_bind.mpr (wp_lift.mpr (wp_bind.mpr
    ((h.wp_call (o := .spawn _ _) trivial hi).mono ?_)))⟩
  rintro (err | p) u hi rfl
  · refine ⟨hi, wp_try_bind.mpr (wp_lift.mpr ((h.wp_plain (Daemon.stop_plain _) hi).mono ?_))⟩
    exact fun _ v hi _ => ⟨hi, nofun⟩
  · refine ⟨hi, hi, ?_⟩
    rintro a ha
    cases ha
    refine ⟨⟨?_, ?_⟩, by simp⟩
    · exact List.mem_append_left _ (List.mem_append_right _ List.mem_cons_self)
    · exact List.mem_append_right _ List.mem_cons_self

/-- Afterwards there is a session, the one from before or one that has just been started. -/
theorem wp_raiseAp (h : Recorder env I) (hi : I t) :
    wp env I (s.raiseAp pid paths).run (fun r t' => ∀ s', r = .ok s' → t <+: t' ∧
      (s' = s ∨ s.ap = none ∧ ∃ a, s' = { s with ap := some a } ∧ Started paths a.pids t')) t := by
  obtain ⟨client, _ | ap⟩ := s
  · apply wp_try_bind.mpr
    apply (h.wp_plain (load_plain paths) hi).mono
    rintro (err | identity) u hi hu
    · exact ⟨hi, nofun⟩
    apply wp_try_bind.mpr
    apply (h.wp_plain (loadApConfig_plain paths _) hi).mono
    rintro (err | config) v hi hv
    · exact ⟨hi, nofun⟩
    apply wp_try_bind.mpr
    apply wp_try_bind.mpr
    apply (h.wp_plain (configure_plain ..) hi).mono
    rintro (err | _) x hi hx
    · exact ⟨hi, hi, nofun⟩
    apply (h.wp_spawnDaemons _ hi).mono
    rintro (err | a) y hi hy
    · exact ⟨hi, nofun⟩
    · obtain ⟨ha, hp⟩ := hy a rfl
      refine ⟨hi, ?_⟩
      rintro s' hs
      cases hs
      exact ⟨((hu.trans hv).trans hx).trans hp, Or.inr ⟨rfl, a, rfl, ha⟩⟩
  · refine ⟨hi, ?_⟩
    rintro s' hs
    cases hs
    exact ⟨List.prefix_refl t, Or.inl rfl⟩

theorem wp_isRunning (h : Recorder env I) (d : Daemon) (hi : I t) :
    wp env I d.isRunning (fun b t' => ∃ r, t' = t ++ [⟨.tryWait d.pid, r⟩] ∧
      (b = true ↔ r = .ok none)) t := by
  apply wp_bind.mpr
  apply (h.wp_call (o := .tryWait _) trivial hi).mono
  rintro (err | _ | status) u hi rfl
  · exact ⟨hi, _, rfl, by simp⟩
  · exact ⟨hi, _, rfl, by simp⟩
  · exact ⟨hi, _, rfl, by simp⟩

theorem wp_isHealthy (h : Recorder env I) (session : ApSession) (hi : I t) :
    wp env I session.isHealthy (fun b t' => t <+: t' ∧ (b = false → FoundDead session.pids t')) t
    := by
  apply wp_bind.mpr
  apply (h.wp_isRunning session.hostapd hi).mono
  rintro b u hi ⟨r, rfl, hr⟩
  apply wp_bind.mpr
  apply (h.wp_isRunning session.dnsmasq hi).mono
  rintro b' u hi ⟨r', rfl, hr'⟩
  rw [List.append_assoc] at hi ⊢
  refine ⟨hi, List.prefix_append _ _, fun hb => ⟨t, r, r', rfl, ?_⟩⟩
  rintro ⟨h₁, h₂⟩
  rw [hr.mpr h₁, hr'.mpr h₂] at hb
  cases hb

/-- An access point counts as dead only if a daemon of its session was found dead. -/
theorem wp_apDied (h : Recorder env I) (hi : I t) :
    wp env I s.apDied
      (fun b t' => t <+: t' ∧ (b = true → ∃ a, s.ap = some a ∧ FoundDead a.pids t')) t := by
  obtain ⟨client, _ | session⟩ := s
  · exact ⟨hi, List.prefix_refl t, nofun⟩
  refine wp_bind.mpr ((h.wp_isHealthy session hi).mono fun b u hi hu => ⟨hi, hu.1, fun hb => ?_⟩)
  exact ⟨session, rfl, hu.2 (by simpa using hb)⟩

end Recorder

namespace Recovery

theorem recorder_history : Recorder Env.history (Justified paths tuning) := by
  refine ⟨id, ?_⟩
  rintro t e t' rfl he hi
  exact justified_unmarked hi he

/-- A session can be dropped for a reason. -/
theorem wp_stopAp (hi : Justified paths tuning t)
    (ha : ∀ a, s.ap = some a → FoundDead a.pids t ∨ RetryDue paths tuning a.pids t) :
    wp Env.history (Justified paths tuning) s.stopAp (fun s' _ => s'.ap = none) t := by
  obtain ⟨client, _ | a⟩ := s
  · exact ⟨hi, rfl⟩
  refine wp_bind.mpr ⟨hi, ?_⟩
  rintro - u rfl
  have hu : Justified paths tuning (t ++ [dropEvent a.pids]) := by
    refine justified_concat hi fun q he => ?_
    rw [← dropEvent_inj he]
    exact ha a rfl
  have hr : Prog.Uses Plain (do
      a.hostapd.stop
      a.dnsmasq.stop
      runBestEffort ip (flushArgs a.interface)
      a.hostapd.stop
      a.dnsmasq.stop) :=
    a.hostapd.stop_plain.bind fun _ => a.dnsmasq.stop_plain.bind fun _ =>
      (runBestEffort_plain _ _).bind fun _ => a.hostapd.stop_plain.bind fun _ =>
        a.dnsmasq.stop_plain
  exact (recorder_history.wp_plain hr hu).mono fun _ _ hi _ => ⟨hi, rfl⟩

/-- The session was started before the clock was read. -/
def Since (paths : Paths) (started : ℕ) (ap : Option ApSession) (t : List (Event Sys)) : Prop :=
  ∃ b m, t = b ++ ⟨.now, started⟩ :: m ∧ ∀ a, ap = some a → Started paths a.pids b

theorem Since.mono {started : ℕ} {ap : Option ApSession} (h : Since paths started ap t)
    (ht : t <+: t') : Since paths started ap t' := by
  obtain ⟨b, m, rfl, ha⟩ := h
  obtain ⟨u, rfl⟩ := ht
  exact ⟨b, m ++ u, by simp, ha⟩

/-- What the state says about the session. -/
def Accounted (paths : Paths) (tuning : SuperviseTuning) (ap : Option ApSession)
    (t : List (Event Sys)) : State → Prop
  | .tryClient => ∀ a, ap = some a → RetryDue paths tuning a.pids t
  | .clientUp => ap = none
  | .fallbackAp => ∀ a, ap = some a → Started paths a.pids t

theorem accounted_none (state : State) : Accounted paths tuning none t state := by
  cases state with
  | clientUp => rfl
  | tryClient | fallbackAp => exact nofun

theorem Accounted.mono {ap : Option ApSession} {state : State}
    (h : Accounted paths tuning ap t state) (ht : Grows Unchecked t t') :
    Accounted paths tuning ap t' state := by
  cases state with
  | tryClient => exact fun a ha => (h a ha).mono ht
  | clientUp => exact h
  | fallbackAp => exact fun a ha => (h a ha).mono ht.isPrefix

/-- A round ends with a dead session, or with one that is up since the clock was read. -/
theorem wp_serveRound (started : ℕ) (hi : Justified paths tuning t)
    (hs : Since paths started s.ap t) :
    wp Env.history (Justified paths tuning) (s.serveRound paths tuning started)
      (Sum.elim (fun s' t' => Since paths started s'.ap t') fun x t' =>
        Accounted paths tuning x.1.ap t' (nextState .fallbackAp x.2)) t := by
  have hr : Recorder Env.history (Justified paths tuning) := recorder_history
  refine wp_bind.mpr ((hr.wp_plain (sleep_plain _) hi).mono fun _ u hi hu => ?_)
  apply wp_bind.mpr
  apply (hr.wp_apDied hi).mono
  rintro (_ | _) v hi ⟨hv, hd⟩
  · apply wp_bind.mpr
    apply (hr.wp_call (o := .now) trivial hi).mono
    rintro time x hi rfl
    have hs := hs.mono (hu.trans hv)
    split
    · exact ⟨hi, hs.mono (List.prefix_append _ _)⟩
    rename_i hle
    apply wp_bind.mpr
    apply (hr.wp_call (o := .isFile _) trivial hi).mono
    obtain ⟨b, m, rfl, ha⟩ := hs
    rintro (_ | _) y hi rfl
    · exact ⟨hi, fun a h => (ha a h).mono (by simp)⟩
    · refine ⟨hi, fun a h => ⟨b, started, m, time, [], by simp, ha a h, ?_, by simp⟩⟩
      exact Nat.le_of_not_lt hle
  · have hdead (a : ApSession) (ha : s.ap = some a) :
        FoundDead a.pids v ∨ RetryDue paths tuning a.pids v := by
      obtain ⟨a', ha', hf⟩ := hd rfl
      cases ha.symm.trans ha'
      exact Or.inl hf
    refine wp_bind.mpr ((wp_stopAp hi hdead).mono fun s' x hi hs' => ⟨hi, ?_⟩)
    simp only [Sum.elim_inr, hs']
    exact accounted_none _

theorem wp_serveAp (hi : Justified paths tuning t)
    (ha : Accounted paths tuning s.ap t .fallbackAp) :
    wp Env.history (Justified paths tuning) (s.serveAp pid paths tuning)
      (fun x t' => ∀ e, x.2 = .ok e →
        Accounted paths tuning x.1.ap t' (nextState .fallbackAp e)) t := by
  have hr : Recorder Env.history (Justified paths tuning) := recorder_history
  apply wp_bind.mpr
  apply (hr.wp_stopClient hi).mono
  rintro s' u hi ⟨hs, hu⟩
  apply wp_bind.mpr
  apply (hr.wp_raiseAp hi).mono
  rintro (err | s'') v hi hv
  · exact ⟨hi, nofun⟩
  obtain ⟨hp, h⟩ := hv s'' rfl
  have ha' : ∀ a, s''.ap = some a → Started paths a.pids v := by
    rintro a hsome
    rcases h with rfl | ⟨-, a', rfl, hst⟩
    · exact (ha a (hs.symm.trans hsome)).mono (hu.trans hp)
    · cases hsome
      exact hst
  apply wp_bind.mpr
  apply (hr.wp_call (o := .now) trivial hi).mono
  rintro started x hi rfl
  refine wp_loop (fun s t => Justified paths tuning t ∧ Since paths started s.ap t)
    ⟨hi, v, [], rfl, ha'⟩ ?_
  rintro s t ⟨hi, hsince⟩
  apply (wp_serveRound started hi hsince).mono
  rintro (s | x) u hi h
  · exact ⟨hi, h⟩
  · refine ⟨hi, fun e he => ?_⟩
    cases he
    exact h

theorem wp_step {state : State} (hi : Justified paths tuning t)
    (ha : Accounted paths tuning s.ap t state) :
    wp Env.history (Justified paths tuning) (s.step pid paths tuning state)
      (fun x t' => ∀ e, x.2 = .ok e → Accounted paths tuning x.1.ap t' (nextState state e)) t := by
  have hr : Recorder Env.history (Justified paths tuning) := recorder_history
  cases state with
  | tryClient =>
    apply wp_bind.mpr
    apply wp_bind.mpr
    apply (wp_stopAp hi fun a h => Or.inr (ha a h)).mono
    rintro s' u hi hs
    refine (hr.wp_tryAttempts _ hi).mono fun x v hi hx => ⟨hi, fun e _ => ?_⟩
    simp only [hx, hs]
    exact accounted_none _
  | clientUp =>
    refine wp_bind.mpr ((hr.wp_watchClient hi).mono fun x v hi hx => ⟨hi, fun e _ => ?_⟩)
    simp only [hx.1, show s.ap = none from ha]
    exact accounted_none _
  | fallbackAp => exact wp_serveAp hi ha

/-- What holds at the head of the loop: the state accounts for the session. -/
theorem wp_iterate {head : Head} (hi : Justified paths tuning t)
    (ha : Accounted paths tuning head.supervisor.ap t head.state) :
    wp Env.history (Justified paths tuning) (iterate pid paths tuning head)
      (Sum.elim (fun head' t' => Justified paths tuning t' ∧
        Accounted paths tuning head'.supervisor.ap t' head'.state) fun _ _ => True) t := by
  have hr : Recorder Env.history (Justified paths tuning) := recorder_history
  apply wp_bind.mpr
  apply (wp_step hi ha).mono
  rintro ⟨s, err | e⟩ u hi h
  · exact ⟨hi, trivial⟩
  refine wp_bind.mpr ((hr.wp_uses (fun _ ho => ho.unchecked.unmarked)
    (notifyChange_uses _ _ _) hi).mono fun _ v hi hv => ?_)
  refine wp_bind.mpr ((hr.wp_uses (fun _ => Aside.unmarked)
    (announceReady_aside _ _) hi).mono fun _ x hi hx => ⟨hi, hi, ?_⟩)
  have hv := (h e rfl).mono (hv.mono fun _ => HookCall.unchecked)
  exact hv.mono (hx.mono fun _ => Aside.unchecked)

theorem wp_superviseLoop {head : Head} (hi : Justified paths tuning t)
    (ha : Accounted paths tuning head.supervisor.ap t head.state) :
    wp Env.history (Justified paths tuning) (superviseLoop pid paths tuning head)
      (fun _ _ => True) t := by
  refine wp_loop (fun head t => Justified paths tuning t ∧
    Accounted paths tuning head.supervisor.ap t head.state) ⟨hi, ha⟩ ?_
  rintro head t ⟨hi, ha⟩
  apply (wp_iterate hi ha).mono
  rintro (head' | x) u hi h
  · exact h
  · exact ⟨hi, trivial⟩

/-- Before the loop no session is dropped. -/
theorem opening_unmarked (paths : Paths) : (opening paths).run.Uses Unmarked := by
  refine Uses.try_bind ((requireInterface_plain _).mono fun _ => Plain.unmarked) fun _ => ?_
  refine Uses.bind ?_ fun _ => trivial
  exact (Hook.notify_uses _ _).mono fun _ ho => ho.unchecked.unmarked

end Recovery

end RobotCtl.Wifi
