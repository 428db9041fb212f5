import RobotCtl.Wifi.Radio

/-! # The supervisor keeps the radio exclusive

At the head of the supervisor's loop the state tells which session can be
there. Between two heads every daemon that is started is owned at once.
-/

namespace RobotCtl.Wifi

open Text Conf Prog

variable {pid : ℕ} {paths : Paths} {tuning : SuperviseTuning} {w w' : Children}

/-- Nobody owns a daemon. -/
abbrev free : Owner := owner none none none

abbrev stationOwner (d : Daemon) : Owner := owner (some d.pid) none none

abbrev apOwner (hostapd dnsmasq : Daemon) : Owner :=
  owner none (some hostapd.pid) (some dnsmasq.pid)

section Sessions

theorem wp_stopSupplicant {d : Daemon} (ho : Owned paths (stationOwner d) w) :
    wp children (Exclusive paths) d.stop (fun _ w' => Owned paths free w') w := by
  refine (wp_stop d (ho.exclusive (Or.inr ⟨rfl, rfl⟩))).mono fun _ u _ hu => ?_
  refine (hu.1.owned ho).release fun r p hp => ?_
  cases r with
  | supplicant => cases hp; exact Or.inr hu.2
  | hostapd | dnsmasq => cases hp

theorem wp_plain_owned {α : Type} {p : Prog Sys α} {o : Owner} (h : p.Uses Plain)
    (hs : Separate o) (ho : Owned paths o w) :
    wp children (Exclusive paths) p (fun _ w' => Owned paths o w') w :=
  (wp_aside (h.mono fun _ => Plain.aside) (ho.exclusive hs)).mono fun _ _ _ hn => hn.owned ho

theorem wp_dropAp {session : ApSession}
    (ho : Owned paths (apOwner session.hostapd session.dnsmasq) w) :
    wp children (Exclusive paths) session.drop (fun _ w' => Owned paths free w') w := by
  have hs : Separate (apOwner session.hostapd session.dnsmasq) := Or.inl rfl
  refine ⟨ho.exclusive hs, fun _ u hu => ?_⟩
  have hu := (NoNew.of_fewer hu).owned ho
  simp only [ret_bind, bind_eq]
  refine wp_bind.mpr ((wp_stop _ (hu.exclusive hs)).mono fun _ v hi hv => ?_)
  have ho' : Owned paths (owner none none (some session.dnsmasq.pid)) v := by
    refine (hv.1.owned hu).release fun r p hp => ?_
    cases r with
    | supplicant => cases hp
    | hostapd => cases hp; exact Or.inr hv.2
    | dnsmasq => exact Or.inl hp
  refine wp_bind.mpr ((wp_stop _ hi).mono fun _ x _ hx => ?_)
  have hf : Owned paths free x := by
    refine (hx.1.owned ho').release fun r p hp => ?_
    cases r with
    | supplicant | hostapd => cases hp
    | dnsmasq => cases hp; exact Or.inr hx.2
  refine wp_plain_owned (Uses.bind (runBestEffort_plain _ _) fun _ => ?_) (Or.inl rfl) hf
  exact (session.hostapd.stop_plain).bind fun _ => session.dnsmasq.stop_plain

/-- Who owns the supplicant after an attempt. -/
def attemptOwner {ε : Type} : Except ε ClientSession → Owner
  | .ok session => stationOwner session.supplicant
  | .error _ => free

theorem wp_awaitLease {d : Daemon} (ho : Owned paths (stationOwner d) w) :
    wp children (Exclusive paths) (awaitLease tuning paths.wifiInterface d).run
      (fun r w' => Owned paths (attemptOwner r) w') w := by
  have hs : Separate (stationOwner d) := Or.inr ⟨rfl, rfl⟩
  apply wp_try_bind.mpr
  apply wp_lift.mpr
  apply (wp_plain_owned (run_plain _ _) hs ho).mono
  intro _ u _ hu
  apply wp_try_bind.mpr
  apply wp_lift.mpr
  apply (wp_plain_owned (ipv4Address_plain _) hs hu).mono
  rintro (_ | address) v hi hv
  · refine wp_try_bind.mpr (wp_lift.mpr ((wp_stopSupplicant hv).mono fun _ x hi hx => ?_))
    exact ⟨hi, hx⟩
  · exact ⟨hi, hv⟩

/-- The supplicant is owned as soon as it is alive, and gone when the attempt fails. -/
theorem wp_connect (ho : Owned paths free w) :
    wp children (Exclusive paths) (connect paths tuning)
      (fun r w' => Owned paths (attemptOwner r) w') w := by
  have hs : Separate free := Or.inl rfl
  refine ⟨ho.exclusive hs, fun found u he => ?_⟩
  have hu : Owned paths free u := (NoNew.of_fewer he).owned ho
  clear he
  cases found
  · exact ⟨hu.exclusive hs, hu⟩
  simp only [ret_bind, bind_eq, if_true]
  apply wp_bind.mpr
  have hr : wp children (Exclusive paths)
      (connectInner tuning paths.wifiInterface paths.wifiClientConf).run
      (fun r w' => Owned paths (attemptOwner r) w') u := by
    apply wp_try_bind.mpr
    apply (wp_plain_owned (prepareStation_plain _) hs hu).mono
    rintro (err | _) v hi hv
    · exact ⟨hi, hv⟩
    refine wp_try_bind.mpr ⟨hi, ?_⟩
    rintro (err | p) x hx
    · have hx := (NoNew.of_fewer hx).owned hv
      have hi := hx.exclusive hs
      exact ⟨hi, hi, hx⟩
    · have hx : Owned paths (stationOwner ⟨wpaSupplicant, p⟩) x := by
        refine hv.spawn (r := .supplicant) hx rfl fun r' q hq => ?_
        cases r' <;> cases hq
      have hi := hx.exclusive (Or.inr ⟨rfl, rfl⟩)
      exact ⟨hi, wp_awaitLease hx⟩
  refine hr.mono fun r v hi hv => ⟨hi, ?_⟩
  cases r <;> exact hv

end Sessions

section Steps

/-- The sessions that each state allows. -/
def Fits (s : Supervisor) : State → Prop
  | .tryClient => s.client = none
  | .clientUp => s.client.isSome ∧ s.ap = none
  | .fallbackAp => s.client = none

/-- Never both sessions. -/
def Supervisor.Single (s : Supervisor) : Prop := s.client = none ∨ s.ap = none

variable {s : Supervisor}

theorem Supervisor.Single.separate (h : s.Single) : Separate s.owner := by
  rcases h with h | h
  · exact Or.inl (by simp [Supervisor.owner, Wifi.owner, h])
  · exact Or.inr (by simp [Supervisor.owner, Wifi.owner, h])

theorem wp_stopClient (hs : s.Single) (ho : Owned paths s.owner w) :
    wp children (Exclusive paths) (s.stopClient paths)
      (fun s' w' => s' = { s with client := none } ∧ Owned paths s'.owner w') w := by
  obtain ⟨_ | client, ap⟩ := s
  · exact ⟨ho.exclusive hs.separate, rfl, ho⟩
  · obtain rfl : ap = none := hs.resolve_left nofun
    refine wp_bind.mpr ((wp_stopSupplicant ho).mono fun _ u _ hu => ?_)
    apply wp_bind.mpr
    apply (wp_plain_owned (runBestEffort_plain _ _) (Or.inl rfl) hu).mono
    exact fun _ v hi hv => ⟨hi, rfl, hv⟩

theorem wp_stopAp (hs : s.Single) (ho : Owned paths s.owner w) :
    wp children (Exclusive paths) s.stopAp
      (fun s' w' => s' = { s with ap := none } ∧ Owned paths s'.owner w') w := by
  obtain ⟨client, _ | ap⟩ := s
  · exact ⟨ho.exclusive hs.separate, rfl, ho⟩
  · obtain rfl : client = none := hs.resolve_right nofun
    exact wp_bind.mpr ((wp_dropAp ho).mono fun _ u hi hu => ⟨hi, rfl, hu⟩)

/-- An attempt starts with no session and ends with none, or with the only one. -/
theorem wp_tryAttempts (state : State) (attempts : List ℕ) (ho : Owned paths free w) :
    wp children (Exclusive paths) (Supervisor.tryAttempts paths tuning attempts .init)
      (fun x w' => Owned paths x.1.owner w' ∧ Fits x.1 (nextState state x.2)) w := by
  have hs : Separate free := Or.inl rfl
  induction attempts generalizing w with
  | nil => exact ⟨ho.exclusive hs, ho, rfl⟩
  | cons attempt rest ih =>
    apply wp_bind.mpr
    apply (wp_connect ho).mono
    rintro ((path | err) | session) u hi hu
    · exact ⟨hi, hu, rfl⟩
    · apply wp_bind.mpr
      apply (wp_stopClient (Or.inl rfl) hu).mono
      rintro _ v hi ⟨rfl, hv⟩
      split
      · refine ⟨hi, fun _ x hx => ih ((NoNew.of_fewer hx).owned hv)⟩
      · exact ih hv
    · exact ⟨hi, hu, rfl, rfl⟩

theorem wp_tryClient (state : State) (hc : s.client = none) (ho : Owned paths s.owner w) :
    wp children (Exclusive paths) (s.tryClient paths tuning)
      (fun x w' => Owned paths x.1.owner w' ∧ Fits x.1 (nextState state x.2)) w := by
  apply wp_bind.mpr
  apply (wp_stopAp (Or.inl hc) ho).mono
  rintro _ u _ ⟨rfl, hu⟩
  obtain ⟨client, ap⟩ := s
  subst hc
  exact wp_tryAttempts state _ hu

theorem wp_watchClient (state : State) (ha : s.ap = none) (ho : Owned paths s.owner w) :
    wp children (Exclusive paths) (s.watchClient paths tuning)
      (fun x w' => Owned paths x.1.owner w' ∧ Fits x.1 (nextState state x.2)) w := by
  refine ⟨fun s w => s.ap = none ∧ Owned paths s.owner w, ⟨ha, ho⟩, ?_⟩
  rintro s w ⟨ha, ho⟩
  have hs : s.Single := Or.inr ha
  refine ⟨ho.exclusive hs.separate, fun _ u hu => ?_⟩
  have hu := (NoNew.of_fewer hu).owned ho
  simp only [ret_bind, bind_eq]
  apply wp_bind.mpr
  apply (wp_plain_owned (ipv4Address_plain _) hs.separate hu).mono
  rintro (_ | address) v hi hv
  · apply wp_bind.mpr
    apply (wp_stopClient hs hv).mono
    rintro _ x hi ⟨rfl, hx⟩
    exact ⟨hi, hi, hx, rfl⟩
  · exact ⟨hi, ha, hv⟩

theorem wp_spawnDaemons (interface : Str) (ho : Owned paths free w) :
    wp children (Exclusive paths) (Ap.spawnDaemons paths.wifiRunDir interface).run
      (fun r w' => match r with
        | .ok session => Owned paths (apOwner session.hostapd session.dnsmasq) w'
        | .error _ => Owned paths free w') w := by
  have hs : Separate free := Or.inl rfl
  refine wp_try_bind.mpr ⟨ho.exclusive hs, ?_⟩
  rintro (err | d) u hu
  · have hu := (NoNew.of_fewer hu).owned ho
    have hi := hu.exclusive hs
    exact ⟨hi, hi, hu⟩
  have hu : Owned paths (owner none none (some d)) u := by
    refine ho.spawn (r := .dnsmasq) hu rfl fun r' q hq => ?_
    cases r' <;> cases hq
  have hi := hu.exclusive (Or.inl rfl)
  refine ⟨hi, wp_try_bind.mpr (wp_lift.mpr ⟨hi, ?_⟩)⟩
  rintro (err | h) v hv
  · have hv := (NoNew.of_fewer hv).owned hu
    have hi := hv.exclusive (Or.inl rfl)
    refine ⟨hi, wp_try_bind.mpr (wp_lift.mpr ((wp_stop _ hi).mono fun _ x hi hx => ?_))⟩
    refine ⟨hi, (hx.1.owned hv).release fun r p hp => ?_⟩
    cases r with
    | supplicant | hostapd => cases hp
    | dnsmasq => cases hp; exact Or.inr hx.2
  · have hv : Owned paths (owner none (some h) (some d)) v := by
      refine hu.spawn (r := .hostapd) hv rfl fun r' q hq => ?_
      cases r' with
      | supplicant | hostapd => cases hq
      | dnsmasq => exact hq
    have hi := hv.exclusive (Or.inl rfl)
    exact ⟨hi, hi, hv⟩

theorem wp_raiseAp (hc : s.client = none) (ho : Owned paths s.owner w) :
    wp children (Exclusive paths) (s.raiseAp pid paths).run
      (fun r w' => match r with
        | .ok s' => s'.client = none ∧ Owned paths s'.owner w'
        | .error _ => Owned paths s.owner w') w := by
  obtain ⟨client, _ | ap⟩ := s
  · subst hc
    have hs : Separate free := Or.inl rfl
    apply wp_try_bind.mpr
    apply (wp_plain_owned (load_plain paths) hs ho).mono
    rintro (err | identity) u hi hu
    · exact ⟨hi, hu⟩
    apply wp_try_bind.mpr
    apply (wp_plain_owned (loadApConfig_plain paths _) hs hu).mono
    rintro (err | config) v hi hv
    · exact ⟨hi, hv⟩
    apply wp_try_bind.mpr
    apply wp_try_bind.mpr
    apply (wp_plain_owned (configure_plain ..) hs hv).mono
    rintro (err | _) x hi hx
    · exact ⟨hi, hi, hx⟩
    apply (wp_spawnDaemons _ hx).mono
    rintro (err | session) y hi hy
    · exact ⟨hi, hy⟩
    · exact ⟨hi, rfl, hy⟩
  · exact ⟨ho.exclusive (Or.inl (by rw [Supervisor.owner, hc]; rfl)), hc, ho⟩

theorem wp_apDied (hs : s.Single) (ho : Owned paths s.owner w) :
    wp children (Exclusive paths) s.apDied (fun _ w' => Owned paths s.owner w') w := by
  refine wp_plain_owned ?_ hs.separate ho
  obtain ⟨client, _ | ap⟩ := s
  · trivial
  · exact (isHealthy_plain ap).bind fun _ => trivial

theorem wp_serveRound (state : State) (started : ℕ) (hc : s.client = none)
    (ho : Owned paths s.owner w) :
    wp children (Exclusive paths) (s.serveRound paths tuning started)
      (Sum.elim (fun s w' => s.client = none ∧ Owned paths s.owner w') fun x w' =>
        Owned paths x.1.owner w' ∧ Fits x.1 (nextState state x.2)) w := by
  have hs : s.Single := Or.inl hc
  refine wp_bind.mpr ((wp_plain_owned (sleep_plain _) hs.separate ho).mono fun _ u _ hu => ?_)
  apply wp_bind.mpr
  apply (wp_apDied hs hu).mono
  rintro (_ | _) v hi hv
  · refine wp_bind.mpr ((wp_plain_owned now_plain hs.separate hv).mono fun time x hi hx => ?_)
    split
    · exact ⟨hi, hc, hx⟩
    refine wp_bind.mpr ⟨hi, fun found y he => ?_⟩
    have hy : Owned paths s.owner y := (NoNew.of_fewer he).owned hx
    have hi := hy.exclusive hs.separate
    clear he
    cases found
    · exact ⟨hi, hi, hy, hc⟩
    · exact ⟨hi, hi, hy, hc⟩
  · apply wp_bind.mpr
    apply (wp_stopAp hs hv).mono
    rintro _ x hi ⟨rfl, hx⟩
    exact ⟨hi, hx, hc⟩

theorem wp_serveAp (state : State) (hc : s.client = none) (ho : Owned paths s.owner w) :
    wp children (Exclusive paths) (s.serveAp pid paths tuning)
      (fun x w' => Owned paths x.1.owner w' ∧ match x.2 with
        | .ok e => Fits x.1 (nextState state e)
        | .error _ => x.1.client = none) w := by
  apply wp_bind.mpr
  apply (wp_stopClient (Or.inl hc) ho).mono
  rintro _ u _ ⟨rfl, hu⟩
  apply wp_bind.mpr
  apply (wp_raiseAp rfl hu).mono
  rintro (err | s') v hi hv
  · exact ⟨hi, hv, rfl⟩
  obtain ⟨hc', hv⟩ := hv
  have hs : s'.Single := Or.inl hc'
  refine wp_bind.mpr ((wp_plain_owned now_plain hs.separate hv).mono fun started x hi hx => ?_)
  apply wp_loop (fun s w => s.client = none ∧ Owned paths s.owner w) ⟨hc', hx⟩
  rintro s w ⟨hc, ho⟩
  apply (wp_serveRound state started hc ho).mono
  rintro (s | x) u hi h
  · exact h
  · exact ⟨hi, h⟩

/-- One step keeps every daemon owned, and ends with sessions that fit the next state. -/
theorem wp_step {state : State} (hs : Fits s state) (ho : Owned paths s.owner w) :
    wp children (Exclusive paths) (s.step pid paths tuning state)
      (fun x w' => Owned paths x.1.owner w' ∧ match x.2 with
        | .ok e => Fits x.1 (nextState state e)
        | .error _ => x.1.client = none) w := by
  cases state with
  | tryClient => exact wp_bind.mpr ((wp_tryClient _ hs ho).mono fun _ _ hi h => ⟨hi, h⟩)
  | clientUp => exact wp_bind.mpr ((wp_watchClient _ hs.2 ho).mono fun _ _ hi h => ⟨hi, h⟩)
  | fallbackAp => exact wp_serveAp _ hs ho

end Steps

section Run

variable {s : Supervisor} {head : Head} {t : List (Event Sys)}

/-- What holds at the head of the supervisor's loop. -/
def AtHead (paths : Paths) (head : Head) (w : Children) : Prop :=
  Fits head.supervisor head.state ∧ Owned paths head.supervisor.owner w

theorem wp_notifyChange (state next : State) (hw : Exclusive paths w) :
    wp children (Exclusive paths) (notifyChange paths state next) (fun _ w' => NoNew paths w w')
      w := by
  unfold notifyChange
  split
  · exact ⟨hw, fun _ _ h => h⟩
  · exact wp_hook next hw

/-- One iteration keeps what holds at the head of the loop. -/
theorem wp_iterate (h : AtHead paths head w) :
    wp children (Exclusive paths) (iterate pid paths tuning head)
      (Sum.elim (AtHead paths) fun x w' => x.1.client = none ∧ Owned paths x.1.owner w') w := by
  apply wp_bind.mpr
  apply (wp_step h.1 h.2).mono
  rintro ⟨s, err | e⟩ u hi ⟨ho, hs⟩
  · exact ⟨hi, hs, ho⟩
  refine wp_bind.mpr ((wp_notifyChange _ _ hi).mono fun _ v hi hv => ?_)
  refine wp_bind.mpr ((wp_aside (announceReady_aside _ _) hi).mono fun _ x hi hx => ?_)
  exact ⟨hi, hs, hx.owned (hv.owned ho)⟩

theorem wp_drop (hc : s.client = none) (ho : Owned paths s.owner w) :
    wp children (Exclusive paths) s.drop (fun _ _ => True) w := by
  obtain ⟨client, _ | ap⟩ := s
  · subst hc
    exact ⟨ho.exclusive (Or.inl rfl), trivial⟩
  · subst hc
    exact (wp_dropAp ho).mono fun _ _ _ _ => trivial

/-- Before the loop nothing is started but the hook. -/
theorem wp_opening (ho : Owned paths free w) :
    wp children (Exclusive paths) (opening paths).run (fun _ w' => Owned paths free w') w := by
  apply wp_try_bind.mpr
  apply (wp_plain_owned (requireInterface_plain _) (Or.inl rfl) ho).mono
  rintro (err | _) u hi hu
  · exact ⟨hi, hu⟩
  · exact wp_lift.mpr ((wp_hook .tryClient hi).mono fun _ v _ hv => hv.owned hu)

theorem owned_none : Owned paths free fun _ => none := nofun

theorem wp_supervise (ho : Owned paths free w) :
    wp children (Exclusive paths) (supervise pid paths tuning).run (fun _ _ => True) w := by
  apply wp_try_bind.mpr
  apply (wp_opening ho).mono
  rintro (err | _) u hi hu
  · exact ⟨hi, trivial⟩
  refine wp_try_bind.mpr (wp_lift.mpr (wp_loop (AtHead paths) ⟨rfl, hu⟩ fun head v h => ?_))
  apply (wp_iterate h).mono
  rintro (head' | ⟨s, err⟩) x hi h
  · exact h
  refine ⟨hi, wp_try_bind.mpr (wp_lift.mpr ((wp_drop h.1 h.2).mono fun _ y hi _ => ?_))⟩
  exact ⟨hi, trivial⟩

/-- Whatever happens in a run of the supervisor, and however long it is, the radio has one user,
and the sessions at the head of the loop fit the state. -/
theorem radio_exclusive (ht : Env.Runs children (fun _ => none) t w) :
    (Partial (supervise pid paths tuning).run t → Exclusive paths w) ∧
      ∀ head, Reaches pid paths tuning t head → Fits head.supervisor head.state := by
  constructor
  · exact fun hp => wp_cut hp (wp_supervise owned_none) ht
  · rintro head ⟨t₁, t₂, rfl, h₁, h₂⟩
    obtain ⟨u, hr₁, hr₂⟩ := Env.runs_append_iff.mp ht
    have hu : Owned paths free u := wp_returns h₁ (wp_opening owned_none) hr₁
    exact (wp_iterates h₂ ⟨rfl, hu⟩ (fun _ _ => wp_iterate) hr₂).1

theorem Reaches.step {u : List (Event Sys)} {head' : Head} (h : Reaches pid paths tuning t head)
    (hu : Returns (iterate pid paths tuning head) u (.inl head')) :
    Reaches pid paths tuning (t ++ u) head' := by
  obtain ⟨t₁, t₂, rfl, h₁, h₂⟩ := h
  exact ⟨t₁, t₂ ++ u, List.append_assoc .., h₁, h₂.step hu⟩

/-- A run that has got to a head goes on with an iteration, wherever that is cut. -/
theorem Reaches.cut {u : List (Event Sys)} (h : Reaches pid paths tuning t head)
    (hu : Partial (iterate pid paths tuning head) u) :
    Partial (supervise pid paths tuning).run (t ++ u) := by
  obtain ⟨t₁, t₂, rfl, h₁, h₂⟩ := h
  rw [List.append_assoc]
  refine partial_try_bind_iff.mpr (Or.inr ⟨(), t₁, _, rfl, h₁, ?_⟩)
  refine partial_try_bind_iff.mpr (Or.inl (partial_lift_iff.mpr ?_))
  exact h₂.partial_loop (.body hu)

/-- A run ends with the iteration that ends in an error, once the sessions are dropped. -/
theorem Reaches.returns {u v : List (Event Sys)} {err : Error}
    (h : Reaches pid paths tuning t head)
    (hu : Returns (iterate pid paths tuning head) u (.inr (s, err))) (hv : Returns s.drop v ()) :
    Returns (supervise pid paths tuning).run (t ++ (u ++ v)) (.error err) := by
  obtain ⟨t₁, t₂, rfl, h₁, h₂⟩ := h
  have hloop : Returns (superviseLoop pid paths tuning .init) (t₂ ++ (u ++ [])) (s, err) :=
    h₂.returns_loop (.exit hu (.ret _))
  rw [List.append_nil] at hloop
  have htrace : t₁ ++ t₂ ++ (u ++ v) = t₁ ++ ((t₂ ++ u) ++ (v ++ [])) := by simp
  rw [htrace]
  refine h₁.try_bind (returns_lift_bind_iff.mpr ⟨_, _, _, rfl, hloop, ?_⟩)
  exact returns_lift_bind_iff.mpr ⟨_, _, _, rfl, hv, .ret _⟩

end Run

section Example

/-- A command that says nothing and succeeds. -/
def succeeded : Io Output := .ok ⟨⟨true, []⟩, [], []⟩

/-- A file that is not there. -/
def missing : Io Str := .error ⟨.notFound, []⟩

/-- Nothing to join, so the first iteration ends with the fallback. -/
def fallingBack : List (Event Sys) :=
  [⟨.output ip ["link".toList, "show".toList, "wlan0".toList], succeeded⟩,
    ⟨.isFile rootPaths.wifiClientConf, false⟩, ⟨.envVar "NOTIFY_SOCKET".toList, none⟩]

/-- The robot has no configuration, and the interface exists. -/
def loading : List (Event Sys) :=
  [⟨.readToString rootPaths.robotConf, missing⟩, ⟨.readToString rootPaths.wifiApConf, missing⟩,
    ⟨.output ip ["link".toList, "show".toList, "wlan0".toList], succeeded⟩]

def addressing (served : ApConfig) : List (Event Sys) :=
  [⟨.output ip (flushArgs "wlan0".toList), succeeded⟩,
    ⟨.output ip ["addr".toList, "add".toList,
      served.address.display ++ '/' :: decimal served.netmaskCidr, "dev".toList, "wlan0".toList],
      succeeded⟩,
    ⟨.output ip ["link".toList, "set".toList, "wlan0".toList, "up".toList], succeeded⟩]

def starting : List (Event Sys) :=
  [⟨.spawn (Radio.dnsmasq.command rootPaths).1 (Radio.dnsmasq.command rootPaths).2, .ok 7⟩,
    ⟨.spawn (Radio.hostapd.command rootPaths).1 (Radio.hostapd.command rootPaths).2, .ok 8⟩]

/-- The session that is raised. -/
def raised : ApSession := ⟨⟨Ap.hostapd, 8⟩, ⟨Ap.dnsmasq, 7⟩, "wlan0".toList⟩

/-- Without a configuration the network is the one of the defaults. -/
theorem exists_served : ∃ served, resolveApConfig rootPaths rootPaths.defaultRobotId [] =
    .ok served ∧ served.interface = "wlan0".toList := ⟨_, rfl, rfl⟩

/-- The children once the access point is up. -/
def raisedChildren : Children :=
  Function.update (Function.update (fun _ => none) 7 (some (Radio.dnsmasq.command rootPaths))) 8
    (some (Radio.hostapd.command rootPaths))

theorem returns_raising {served : ApConfig} {t t' : List (Event Sys)}
    (hs : resolveApConfig rootPaths rootPaths.defaultRobotId [] = .ok served)
    (hi : served.interface = "wlan0".toList)
    (h : Returns (writeAtomically 1 (Ap.hostapdConf []) (renderHostapdConf served)).run t (.ok ()))
    (h' : Returns (writeAtomically 1 (Ap.dnsmasqConf []) (renderDnsmasqConf served)).run t'
      (.ok ())) :
    Returns (Supervisor.init.raiseAp 1 rootPaths).run
      (loading ++ (t ++ (t' ++ (addressing served ++ starting)))) (.ok ⟨none, some raised⟩) := by
  have hload : Returns (Identity.load rootPaths).run [⟨.readToString rootPaths.robotConf, missing⟩]
      (.ok (Identity.resolve rootPaths none)) := .call _ (.ret _)
  have hap : Returns (loadApConfig rootPaths (Identity.resolve rootPaths none).robotId).run
      [⟨.readToString rootPaths.wifiApConf, missing⟩] (.ok served) := by
    apply Returns.call
    rw [← hs]
    exact .ret _
  have hconfigure : Returns (Ap.configure 1 [] served).run
      (⟨.output ip ["link".toList, "show".toList, "wlan0".toList], succeeded⟩ ::
        (t ++ (t' ++ addressing served))) (.ok ()) := by
    unfold Ap.configure
    rw [hi]
    apply Returns.try_bind (t := [_]) (a := ()) (.call _ (.ret _))
    apply (returns_withContext h).try_bind
    apply (returns_withContext h').try_bind
    exact .call _ (.call _ (.call _ (.ret _)))
  have hspawn : Returns (Ap.spawnDaemons [] served.interface).run starting (.ok raised) := by
    rw [hi]
    exact .call _ (.call _ (.ret _))
  have hstart : Returns (Ap.start 1 [] served).run
      (⟨.output ip ["link".toList, "show".toList, "wlan0".toList], succeeded⟩ ::
        (t ++ (t' ++ addressing served)) ++ starting) (.ok raised) := hconfigure.try_bind hspawn
  have htrace : loading ++ (t ++ (t' ++ (addressing served ++ starting))) =
      [⟨.readToString rootPaths.robotConf, missing⟩] ++
        ([⟨.readToString rootPaths.wifiApConf, missing⟩] ++
          ((⟨.output ip ["link".toList, "show".toList, "wlan0".toList], succeeded⟩ ::
            (t ++ (t' ++ addressing served)) ++ starting) ++ [])) := by
    simp [loading]
  rw [htrace]
  exact hload.try_bind (hap.try_bind (hstart.try_bind (.ret _)))

/-- The first iteration finds no network to join. -/
theorem returns_fallingBack : Returns (iterate 1 rootPaths defaultTuning .init) fallingBack.tail
    (.inl ⟨.init, .fallbackAp, true⟩) := .call _ (.call _ (.ret _))

theorem reaches_fallingBack :
    Reaches 1 rootPaths defaultTuning fallingBack ⟨.init, .fallbackAp, true⟩ :=
  ⟨fallingBack.take 1, _, rfl, .call _ (.ret _), (Iterates.refl _).step returns_fallingBack⟩

/-- The access point comes up, and then an iteration goes on in a way of its own. -/
theorem returns_serveAp {t u : List (Event Sys)} {s : Supervisor} {e : StepEvent} {started : ℕ}
    (h : Returns (Supervisor.init.raiseAp 1 rootPaths).run t (.ok ⟨none, some raised⟩))
    (hu : Returns (Supervisor.serveRound rootPaths defaultTuning started ⟨none, some raised⟩) u
      (.inr (s, e))) :
    Returns (Supervisor.init.step 1 rootPaths defaultTuning .fallbackAp)
      (t ++ ⟨.now, started⟩ :: u) (s, .ok e) := by
  have hstop : Returns (Supervisor.init.stopClient rootPaths) [] .init := .ret _
  have hexit : Returns (.loop (Supervisor.serveRound rootPaths defaultTuning started)
      ⟨none, some raised⟩ fun x => .ret (x.1, (.ok x.2 : Except Error StepEvent))) (u ++ [])
      (s, .ok e) := .exit hu (.ret _)
  rw [List.append_nil] at hexit
  exact returns_bind_iff.mpr ⟨.init, [], _, rfl, hstop, returns_bind_iff.mpr
    ⟨.ok ⟨none, some raised⟩, t, _, rfl, h, returns_call_iff.mpr ⟨started, u, rfl, hexit⟩⟩⟩

theorem returns_iterate_raised {t u : List (Event Sys)} {s : Supervisor} {e : StepEvent}
    {started : ℕ}
    (h : Returns (Supervisor.init.raiseAp 1 rootPaths).run t (.ok ⟨none, some raised⟩))
    (hu : Returns (Supervisor.serveRound rootPaths defaultTuning started ⟨none, some raised⟩) u
      (.inr (s, e))) :
    Returns (iterate 1 rootPaths defaultTuning ⟨.init, .fallbackAp, true⟩)
      (t ++ ⟨.now, started⟩ :: u) (.inl ⟨s, nextState .fallbackAp e, true⟩) := by
  have hstep := returns_serveAp h hu
  have hrest : Returns (iterate 1 rootPaths defaultTuning ⟨.init, .fallbackAp, true⟩)
      ((t ++ ⟨.now, started⟩ :: u) ++ []) (.inl ⟨s, nextState .fallbackAp e, true⟩) := by
    refine returns_bind_iff.mpr ⟨_, _, [], rfl, hstep, ?_⟩
    cases e <;> exact .ret _
  rwa [List.append_nil] at hrest

/-- The session is due for a retry, with a network to join now. -/
def dueRound : List (Event Sys) :=
  [⟨.sleep (secs 10), ()⟩, ⟨.tryWait 8, .ok none⟩, ⟨.tryWait 7, .ok none⟩, ⟨.now, secs 300⟩,
    ⟨.isFile rootPaths.wifiClientConf, true⟩]

theorem returns_dueRound :
    Returns (Supervisor.serveRound rootPaths defaultTuning 0 ⟨none, some raised⟩) dueRound
      (.inr (⟨none, some raised⟩, .apRetryDue)) := by
  have hdue : ¬ secs 300 - 0 < secs defaultTuning.apRetrySec := by decide
  refine returns_call_iff.mpr ⟨(), _, rfl, returns_call_iff.mpr ⟨.ok none, _, rfl,
    returns_call_iff.mpr ⟨.ok none, _, rfl, returns_call_iff.mpr ⟨secs 300, _, rfl, ?_⟩⟩⟩⟩
  simp only [ret_bind, if_neg hdue]
  exact .call _ (.ret _)

def exited : Io (Option ExitStatus) := .ok (some ⟨true, []⟩)

/-- A daemon exits when it is asked to. -/
def stopping (p : ℕ) : List (Event Sys) :=
  [⟨.tryWait p, .ok none⟩, ⟨.kill p .term, ()⟩, ⟨.now, secs 300⟩, ⟨.now, secs 300⟩,
    ⟨.tryWait p, exited⟩]

theorem returns_stopping (d : Daemon) : Returns d.stop (stopping d.pid) () := by
  have hround : Returns (d.awaitExit (secs 300 + Daemon.termGrace) ())
      [⟨.now, secs 300⟩, ⟨.tryWait d.pid, exited⟩] (.inr true) := by
    have hearly : secs 300 < secs 300 + Daemon.termGrace := by decide
    refine returns_call_iff.mpr ⟨secs 300, _, rfl, ?_⟩
    simp only [ret_bind, if_pos hearly]
    exact .call _ (.ret _)
  refine returns_call_iff.mpr ⟨.ok none, _, rfl, ?_⟩
  refine returns_call_iff.mpr ⟨(), _, rfl, returns_call_iff.mpr ⟨secs 300, _, rfl, ?_⟩⟩
  have hexit : Returns (d.exitOrKill (secs 300 + Daemon.termGrace))
      ([⟨.now, secs 300⟩, ⟨.tryWait d.pid, exited⟩] ++ []) () := .exit hround (.ret _)
  exact hexit

/-- Both daemons are stopped, and found gone where they are dropped as fields. -/
def dropping : List (Event Sys) :=
  ⟨.mark ApSession.dropped [8, 7], ()⟩ :: (stopping 8 ++ (stopping 7 ++
    [⟨.output ip (flushArgs "wlan0".toList), succeeded⟩, ⟨.tryWait 8, exited⟩,
      ⟨.tryWait 7, exited⟩]))

theorem returns_dropping : Returns raised.drop dropping () := by
  refine returns_call_iff.mpr ⟨(), _, rfl, ?_⟩
  simp only [ret_bind, bind_eq]
  refine returns_bind_iff.mpr ⟨(), stopping 8, _, rfl, returns_stopping raised.hostapd, ?_⟩
  refine returns_bind_iff.mpr ⟨(), stopping 7, _, rfl, returns_stopping raised.dnsmasq, ?_⟩
  exact .call _ (.call _ (.call _ (.ret _)))

/-- An attempt to connect, up to its supplicant. -/
def associating : List (Event Sys) :=
  [⟨.isFile rootPaths.wifiClientConf, true⟩,
    ⟨.output ip ["link".toList, "show".toList, "wlan0".toList], succeeded⟩,
    ⟨.output ip (flushArgs "wlan0".toList), succeeded⟩,
    ⟨.output ip ["link".toList, "set".toList, "wlan0".toList, "up".toList], succeeded⟩,
    ⟨.spawn wpaSupplicant (supplicantArgs "wlan0".toList rootPaths.wifiClientConf), .ok 9⟩]

theorem partial_associating : Partial (connect rootPaths defaultTuning) associating :=
  .call _ (.call _ (.call _ (.call _ (.call _ (.nil _)))))

theorem partial_retrying : Partial
    (iterate 1 rootPaths defaultTuning ⟨⟨none, some raised⟩, .tryClient, true⟩)
    (dropping ++ associating) := by
  have hstop : Returns (Supervisor.stopAp ⟨none, some raised⟩) dropping .init :=
    returns_bind_iff.mpr ⟨(), dropping, [], (List.append_nil _).symm, returns_dropping, .ret _⟩
  have htry : Partial (Supervisor.tryClient rootPaths defaultTuning ⟨none, some raised⟩)
      (dropping ++ associating) :=
    partial_bind_iff.mpr (Or.inr ⟨.init, dropping, _, rfl, hstop,
      partial_bind_iff.mpr (Or.inl partial_associating)⟩)
  exact partial_bind_iff.mpr (Or.inl (partial_bind_iff.mpr (Or.inl htry)))

/-- The event tells of no child that starts or is gone. -/
def Silent : Event Sys → Prop
  | ⟨.spawn _ _, .ok _⟩ | ⟨.tryWait _, .ok (some _)⟩ | ⟨.wait _, _⟩ => False
  | _ => True

theorem runs_silent {t : List (Event Sys)} {w : Children} (h : ∀ e ∈ t, Silent e) :
    Env.Runs children w t w := by
  have hstep (e : Event Sys) (he : Silent e) : children w e w := by
    have hw : Fewer w w := fun _ _ hp => hp
    obtain ⟨o, r⟩ := e
    cases o with
    | spawn program args =>
      cases r with
      | error err => exact hw
      | ok p => exact he.elim
    | tryWait p =>
      obtain err | _ | status := r
      · exact hw
      · exact hw
      · exact he.elim
    | wait p => exact he.elim
    | _ => exact hw
  induction t with
  | nil => exact .nil _
  | cons e t ih =>
    obtain ⟨he, ht⟩ := List.forall_mem_cons.mp h
    exact .cons (hstep e he) (ih ht)

theorem silent_of_fileCall {e : Event Sys} (h : FileCall e.1) : Silent e := by
  obtain ⟨o, r⟩ := e
  cases o with
  | spawn program args | tryWait p | wait p => exact h.elim
  | _ => trivial

theorem runs_starting : Env.Runs children (fun _ => none) starting raisedChildren :=
  .cons ⟨rfl, fun _ _ hp => hp⟩ (.cons ⟨rfl, fun _ _ hp => hp⟩ (.nil _))

theorem fewer_update {w : Children} (p : ℕ) : Fewer (Function.update w p none) w := by
  intro q c hq
  by_cases h : q = p
  · subst h
    rw [Function.update_self] at hq
    cases hq
  · rwa [Function.update_of_ne h] at hq

/-- A daemon that exits is no child any more. -/
theorem runs_stopping {w : Children} (p : ℕ) :
    Env.Runs children w (stopping p) (Function.update w p none) := by
  have h : Fewer w w := fun _ _ hp => hp
  exact .cons h (.cons h (.cons h (.cons h
    (.cons ⟨Function.update_self .., fewer_update p⟩ (.nil _)))))

theorem update_raisedChildren :
    Function.update (Function.update raisedChildren 8 none) 7 none = fun _ => none := by
  funext p
  by_cases h₇ : p = 7
  · rw [h₇, Function.update_self]
  · by_cases h₈ : p = 8
    · rw [Function.update_of_ne h₇, h₈, Function.update_self]
    · simp only [raisedChildren, Function.update_of_ne h₇, Function.update_of_ne h₈]

theorem runs_dropping : Env.Runs children raisedChildren dropping fun _ => none := by
  have hstop := runs_stopping (w := Function.update raisedChildren 8 none) 7
  rw [update_raisedChildren] at hstop
  have h {w : Children} : Fewer w w := fun _ _ hp => hp
  exact .cons h (Env.runs_append_iff.mpr ⟨_, runs_stopping 8, Env.runs_append_iff.mpr ⟨_, hstop,
    .cons h (.cons ⟨rfl, h⟩ (.cons ⟨rfl, h⟩ (.nil _)))⟩⟩)

/-- The children once the supplicant is up. -/
def associatedChildren : Children :=
  Function.update (fun _ => none) 9 (some (Radio.supplicant.command rootPaths))

theorem runs_associating : Env.Runs children (fun _ => none) associating associatedChildren := by
  have h {w : Children} : Fewer w w := fun _ _ hp => hp
  exact .cons h (.cons h (.cons h (.cons h (.cons ⟨rfl, h⟩ (.nil _)))))

theorem exists_raising : ∃ t,
    Returns (Supervisor.init.raiseAp 1 rootPaths).run t (.ok ⟨none, some raised⟩) ∧
    Env.Runs children (fun _ => none) t raisedChildren := by
  obtain ⟨served, hs, hi⟩ := exists_served
  have hw (name contents : Str) (hc : contents ≠ []) : ∃ t,
      Returns (writeAtomically 1 (FilePath.join [] name) contents).run t (.ok ()) ∧
        ∀ e ∈ t, Silent e := by
    have h := returns_writeAtomically_once 1 (FilePath.parent_join [] name) hc
    exact ⟨_, h, fun e he => silent_of_fileCall ((writeAtomically_uses _ _ _).returns h e he)⟩
  obtain ⟨t₁, h₁, hq₁⟩ := hw "hostapd.conf".toList (renderHostapdConf served)
    (by simp [renderHostapdConf, joinLines])
  obtain ⟨t₂, h₂, hq₂⟩ := hw "dnsmasq.conf".toList (renderDnsmasqConf served)
    (by simp [renderDnsmasqConf, joinLines])
  have hload : Env.Runs children (fun _ => none) loading fun _ => none :=
    runs_silent (by simp [loading, Silent])
  have haddress : Env.Runs children (fun _ => none) (addressing served) fun _ => none :=
    runs_silent (by simp [addressing, Silent])
  exact ⟨_, returns_raising hs hi h₁ h₂, Env.runs_append_iff.mpr ⟨_, hload,
    Env.runs_append_iff.mpr ⟨_, runs_silent hq₁, Env.runs_append_iff.mpr ⟨_, runs_silent hq₂,
      Env.runs_append_iff.mpr ⟨_, haddress, runs_starting⟩⟩⟩⟩⟩

theorem runs_fallingBack : Env.Runs children (fun _ => none) fallingBack fun _ => none :=
  runs_silent (by simp [fallingBack, Silent])

/-- The access point is raised, and is due for a retry. -/
theorem exists_raised : ∃ t, Reaches 1 rootPaths defaultTuning t
    ⟨⟨none, some raised⟩, .tryClient, true⟩ ∧
    Env.Runs children (fun _ => none) t raisedChildren := by
  obtain ⟨t, h, hr⟩ := exists_raising
  have hafter : Env.Runs children raisedChildren (⟨.now, 0⟩ :: dueRound) raisedChildren :=
    runs_silent (by simp [dueRound, Silent])
  exact ⟨_, reaches_fallingBack.step (returns_iterate_raised h returns_dueRound),
    Env.runs_append_iff.mpr ⟨_, runs_fallingBack, Env.runs_append_iff.mpr ⟨_, hr, hafter⟩⟩⟩

theorem runs_retrying :
    Env.Runs children raisedChildren (dropping ++ associating) associatedChildren :=
  Env.runs_append_iff.mpr ⟨_, runs_dropping, runs_associating⟩

/-- The access point gives way to the station. -/
theorem radio_exclusive_retrying : ∃ t,
    Reaches 1 rootPaths defaultTuning t ⟨⟨none, some raised⟩, .tryClient, true⟩ ∧
    Env.Runs children (fun _ => none) t raisedChildren ∧ Exclusive rootPaths raisedChildren ∧
    Fits ⟨none, some raised⟩ .tryClient ∧
    Partial (supervise 1 rootPaths defaultTuning).run (t ++ (dropping ++ associating)) ∧
    Exclusive rootPaths associatedChildren := by
  obtain ⟨t, hreach, hr⟩ := exists_raised
  have hcut := hreach.cut partial_retrying
  have hrun := Env.runs_append_iff.mpr ⟨_, hr, runs_retrying⟩
  have hbefore := hreach.cut (.nil _)
  rw [List.append_nil] at hbefore
  exact ⟨t, hreach, hr, (radio_exclusive hr).1 hbefore, (radio_exclusive hr).2 _ hreach, hcut,
    (radio_exclusive hrun).1 hcut⟩

end Example

end RobotCtl.Wifi
