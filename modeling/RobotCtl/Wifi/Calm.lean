import RobotCtl.Wifi.Recovery

/-! # The recovery access point is kept

While there is nothing to retry with and both daemons are alive, every round
of serving ends where it began: in the same state, with the same session.
-/

namespace RobotCtl.Wifi

open Text Prog Env

/-- Every health check found both daemons alive. -/
def Alive (p : ApPids) (t : List (Event Sys)) : Prop :=
  ∀ r, ⟨.tryWait p.hostapd, r⟩ ∈ t ∨ ⟨.tryWait p.dnsmasq, r⟩ ∈ t → r = .ok none

/-- Nothing to retry with at any check, and no daemon dead, neither of the session that was there
nor of one started since. -/
structure Calm (paths : Paths) (ap : Option ApSession) (t : List (Event Sys)) : Prop where
  absent : ∀ r, ⟨.isFile paths.wifiClientConf, r⟩ ∈ t → r = false
  alive : ∀ p, ap.map ApSession.pids = some p ∨ Started paths p t → Alive p t

namespace Calm

variable {pid : ℕ} {paths : Paths} {tuning : SuperviseTuning} {t t' : List (Event Sys)}
  {ap : Option ApSession} {s : Supervisor}

theorem anti (h : Calm paths ap t') (ht : t <+: t') : Calm paths ap t := by
  refine ⟨fun r hr => h.absent r (ht.subset hr), fun p hp r hr => h.alive p ?_ r ?_⟩
  · exact hp.imp_right fun hs => hs.mono ht
  · exact hr.imp (fun hr => ht.subset hr) fun hr => ht.subset hr

/-- The environment in which everything stays calm. -/
def env (paths : Paths) (ap : Option ApSession) : Env Sys (List (Event Sys)) :=
  fun t e t' => t' = t ++ [e] ∧ Calm paths ap t'

/-- A calm history in which no session was dropped. -/
structure Undropped (paths : Paths) (ap : Option ApSession) (t : List (Event Sys)) : Prop where
  calm : Calm paths ap t
  undropped : ∀ p, dropEvent p ∉ t

theorem runs_env (h : Calm paths ap (t ++ t')) : Env.Runs (env paths ap) t t' (t ++ t') := by
  induction t' generalizing t with
  | nil => rw [List.append_nil]; exact .nil t
  | cons e t' ih =>
    rw [List.append_cons] at h ⊢
    exact .cons ⟨rfl, h.anti (List.prefix_append _ _)⟩ (ih h)

theorem recorder : Recorder (env paths ap) (Undropped paths ap) := by
  refine ⟨And.left, ?_⟩
  rintro t e t' ⟨rfl, hc⟩ he hi
  refine ⟨hc, fun p hp => ?_⟩
  rcases List.mem_append.mp hp with hp | hp
  · exact hi.undropped p hp
  · rw [← List.mem_singleton.mp hp] at he
    exact he.elim

theorem not_foundDead {a : ApSession} (h : Calm paths ap t)
    (ha : ap.map ApSession.pids = some a.pids ∨ Started paths a.pids t) :
    ¬ FoundDead a.pids t := by
  rintro ⟨b, r, r', rfl, hn⟩
  have hl := h.alive a.pids ha
  exact hn ⟨hl r (Or.inl (by simp)), hl r' (Or.inr (by simp))⟩

/-- The session is the one that was there, or has been started since. -/
def Known (paths : Paths) (ap ap' : Option ApSession) (t : List (Event Sys)) : Prop :=
  ∀ a, ap' = some a → ap.map ApSession.pids = some a.pids ∨ Started paths a.pids t

theorem Known.mono {ap' : Option ApSession} (h : Known paths ap ap' t) (ht : t <+: t') :
    Known paths ap ap' t' := fun a ha => (h a ha).imp_right fun hs => hs.mono ht

/-- A round of serving keeps the session. -/
theorem wp_serveRound (started : ℕ) (hi : Undropped paths ap t) (hk : Known paths ap s.ap t) :
    wp (env paths ap) (Undropped paths ap) (s.serveRound paths tuning started)
      (Sum.elim (fun s' t' => s'.ap = s.ap ∧ t <+: t') fun x t' =>
        x.1.ap = s.ap ∧ x.2 = .apHeld ∧ t <+: t') t := by
  have hr : Recorder (env paths ap) (Undropped paths ap) := recorder
  refine wp_bind.mpr ((hr.wp_plain (sleep_plain _) hi).mono fun _ u hi hu => ?_)
  apply wp_bind.mpr
  apply (hr.wp_apDied hi).mono
  rintro (_ | _) v hi ⟨hv, hd⟩
  · have htv := hu.trans hv
    apply wp_bind.mpr
    apply (hr.wp_call (o := .now) trivial hi).mono
    rintro time x hi rfl
    split
    · exact ⟨hi, rfl, htv.trans (List.prefix_append _ _)⟩
    apply wp_bind.mpr
    apply (hr.wp_call (o := .isFile _) trivial hi).mono
    rintro (_ | _) y hi rfl
    · exact ⟨hi, rfl, rfl, htv.trans (by simp)⟩
    · exact absurd (hi.calm.absent true (by simp)) (by simp)
  · obtain ⟨a, ha, hf⟩ := hd rfl
    exact absurd hf (not_foundDead hi.calm (hk.mono (hu.trans hv) a ha))

theorem wp_serveAp (hi : Undropped paths ap t) (hk : Known paths ap s.ap t) :
    wp (env paths ap) (Undropped paths ap) (s.serveAp pid paths tuning)
      (fun x t' => ∀ e, x.2 = .ok e → e = .apHeld ∧ Known paths ap x.1.ap t' ∧
        ∀ a, s.ap = some a → x.1.ap = some a) t := by
  have hr : Recorder (env paths ap) (Undropped paths ap) := recorder
  apply wp_bind.mpr
  apply (hr.wp_stopClient hi).mono
  rintro s' u hi ⟨hs, hu⟩
  apply wp_bind.mpr
  apply (hr.wp_raiseAp hi).mono
  rintro (err | s'') v hi hv
  · exact ⟨hi, nofun⟩
  obtain ⟨hp, h⟩ := hv s'' rfl
  have hk' : Known paths ap s''.ap v := by
    rcases h with rfl | ⟨-, a', rfl, hst⟩
    · rw [hs]
      exact hk.mono (hu.trans hp)
    · rintro a ha
      cases ha
      exact Or.inr hst
  have hkeep : ∀ a, s.ap = some a → s''.ap = some a := by
    intro a ha
    rcases h with rfl | ⟨hn, -⟩
    · exact hs.trans ha
    · rw [← hs, hn] at ha
      cases ha
  apply wp_bind.mpr
  apply (hr.wp_call (o := .now) trivial hi).mono
  rintro started x hi rfl
  have hk' := hk'.mono (List.prefix_append v [⟨.now, started⟩])
  refine wp_loop (fun s t => Undropped paths ap t ∧ s.ap = s''.ap ∧ Known paths ap s.ap t)
    ⟨hi, rfl, hk'⟩ ?_
  rintro s₁ t ⟨hi, hs₁, hk₁⟩
  apply (wp_serveRound started hi hk₁).mono
  rintro (s₂ | x) u hi h
  · refine ⟨hi, h.1.trans hs₁, ?_⟩
    rw [h.1]
    exact hk₁.mono h.2
  · refine ⟨hi, fun e he => ?_⟩
    cases he
    simp only [h.1]
    exact ⟨h.2.1, hk₁.mono h.2.2, fun a ha => hs₁.trans (hkeep a ha)⟩

/-- What stays so at the heads of the loop. -/
structure Kept (paths : Paths) (ap : Option ApSession) (head : Head) (t : List (Event Sys)) :
    Prop where
  undropped : Undropped paths ap t
  state : head.state = .fallbackAp
  known : Known paths ap head.supervisor.ap t
  same : ∀ a, ap = some a → head.supervisor.ap = some a

theorem wp_iterate {head : Head} (h : Kept paths ap head t) :
    wp (env paths ap) (Undropped paths ap) (iterate pid paths tuning head)
      (Sum.elim (Kept paths ap) fun _ _ => True) t := by
  have hr : Recorder (env paths ap) (Undropped paths ap) := recorder
  obtain ⟨s, state, announced⟩ := head
  obtain rfl : state = .fallbackAp := h.state
  apply wp_bind.mpr
  apply (wp_serveAp h.undropped h.known).mono
  rintro ⟨s', err | e⟩ u hi hs
  · exact ⟨hi, trivial⟩
  obtain ⟨rfl, hk, hsame⟩ := hs e rfl
  refine wp_bind.mpr ((hr.wp_uses (fun _ ho => ho.unchecked.unmarked)
    (notifyChange_uses _ _ _) hi).mono fun _ v hi hv => ?_)
  refine wp_bind.mpr ((hr.wp_uses (fun _ => Aside.unmarked)
    (announceReady_aside _ _) hi).mono fun _ x hi hx => ⟨hi, ?_⟩)
  exact ⟨hi, rfl, hk.mono (hv.isPrefix.trans hx.isPrefix), fun a ha => hsame a (h.same a ha)⟩

theorem kept_nil {head : Head} (hs : head.state = .fallbackAp)
    (h : Calm paths head.supervisor.ap t) : Kept paths head.supervisor.ap head [] :=
  ⟨⟨h.anti List.nil_prefix, nofun⟩, hs, fun a ha => Or.inl (by rw [ha]; rfl), fun _ ha => ha⟩

theorem wp_superviseLoop {head : Head} (h : Kept paths ap head t) :
    wp (env paths ap) (Undropped paths ap) (superviseLoop pid paths tuning head)
      (fun _ _ => True) t := by
  refine wp_loop (Kept paths ap) h fun head t h => (wp_iterate h).mono ?_
  rintro (head' | x) u hi h
  · exact h
  · exact ⟨hi, trivial⟩

end Calm

/-- The run has just left its loop. -/
def Ended (pid : ℕ) (paths : Paths) (tuning : SuperviseTuning) (t : List (Event Sys)) : Prop :=
  ∃ t₁ t₂ x, t = t₁ ++ t₂ ∧ Returns (opening paths).run t₁ (.ok ()) ∧
    Returns (superviseLoop pid paths tuning .init) t₂ x

section Run

variable {pid : ℕ} {paths : Paths} {tuning : SuperviseTuning} {t : List (Event Sys)}

/-- Up to the end of the loop every session that is dropped is dropped for a reason. -/
theorem justified_or_ended (h : Partial (supervise pid paths tuning).run t) :
    ∃ u v, t = u ++ v ∧ Justified paths tuning u ∧ (v = [] ∨ Ended pid paths tuning u) := by
  have hopen {u : List (Event Sys)} (hu : Partial (opening paths).run u) :
      Justified paths tuning u :=
    wp_cut hu (Recovery.recorder_history.wp_uses (fun _ ho => ho)
      (Recovery.opening_unmarked paths) justified_nil) (Env.runs_history_iff.mpr rfl)
  rcases partial_try_bind_iff.mp h with h | ⟨_, t₁, t₂, rfl, h₁, h⟩
  · exact ⟨t, [], (List.append_nil t).symm, hopen h, Or.inl rfl⟩
  have hloop {u : List (Event Sys)} (hu : Partial (superviseLoop pid paths tuning .init) u) :
      Justified paths tuning (t₁ ++ u) :=
    wp_cut hu (Recovery.wp_superviseLoop (hopen h₁.cut) (Recovery.accounted_none _))
      (Env.runs_history_iff.mpr rfl)
  rcases partial_try_bind_iff.mp h with h | ⟨x, t₂, t₃, rfl, h₂, -⟩
  · exact ⟨t₁ ++ t₂, [], (List.append_nil _).symm, hloop (partial_lift_iff.mp h), Or.inl rfl⟩
  · obtain ⟨x', h₂, -⟩ := returns_lift_iff.mp h₂
    exact ⟨t₁ ++ t₂, t₃, (List.append_assoc ..).symm, hloop h₂.cut,
      Or.inr ⟨t₁, t₂, x', rfl, h₁, h₂⟩⟩

/-- In every run a session is dropped only if it was found dead, or a retry was due, or the
supervisor exits. While there is nothing to retry with and the daemons are alive, the supervisor
stays in its state and keeps the session. -/
theorem ap_kept (pid : ℕ) (paths : Paths) (tuning : SuperviseTuning) :
    (∀ t b p c, Partial (supervise pid paths tuning).run t → t = b ++ dropEvent p :: c →
      FoundDead p b ∨ RetryDue paths tuning p b ∨ ∃ u, u <+: b ∧ Ended pid paths tuning u) ∧
    ∀ head t, head.state = .fallbackAp → Calm paths head.supervisor.ap t →
      (∀ head', Iterates (iterate pid paths tuning) head t head' → head'.state = .fallbackAp ∧
        ∀ a, head.supervisor.ap = some a → head'.supervisor.ap = some a) ∧
      (Partial (superviseLoop pid paths tuning head) t → ∀ p, dropEvent p ∉ t) := by
  constructor
  · rintro t b p c h rfl
    obtain ⟨u, v, huv, hj, hv⟩ := justified_or_ended h
    rcases List.append_eq_append_iff.mp huv with ⟨m, rfl, hm⟩ | ⟨m, rfl, hm⟩
    · cases m with
      | nil =>
        rcases hv with rfl | he
        · simp at hm
        · exact Or.inr (Or.inr ⟨b, by simp, by simpa using he⟩)
      | cons e m =>
        obtain ⟨rfl, -⟩ := List.cons.inj hm
        exact (hj b p m rfl).imp_right Or.inl
    · rcases hv with rfl | he
      · simp at hm
      · exact Or.inr (Or.inr ⟨u, List.prefix_append u m, he⟩)
  · intro head t hs hc
    have hr := Calm.runs_env (t := []) hc
    constructor
    · intro head' h
      have hk := wp_iterates h (Calm.kept_nil hs hc) (fun _ _ => Calm.wp_iterate) hr
      exact ⟨hk.state, hk.same⟩
    · intro h
      exact (wp_cut h (Calm.wp_superviseLoop (Calm.kept_nil hs hc)) hr).undropped

end Run

section Example

def servingHead : Head :=
  ⟨⟨none, some ⟨⟨Ap.hostapd, 8⟩, ⟨Ap.dnsmasq, 9⟩, "wlan0".toList⟩⟩, .fallbackAp, true⟩

/-- A round in which the retry interval goes by and there is nothing to retry with. -/
def heldRound : List (Event Sys) :=
  [⟨.sleep (secs 10), ()⟩, ⟨.tryWait 8, .ok none⟩, ⟨.tryWait 9, .ok none⟩, ⟨.now, secs 300⟩,
    ⟨.isFile rootPaths.wifiClientConf, false⟩]

theorem returns_heldRound :
    Returns (servingHead.supervisor.serveRound rootPaths defaultTuning 0) heldRound
      (.inr (servingHead.supervisor, .apHeld)) := by
  have hdue : ¬ secs 300 - 0 < secs defaultTuning.apRetrySec := by decide
  refine returns_call_iff.mpr ⟨(), _, rfl, returns_call_iff.mpr ⟨.ok none, _, rfl,
    returns_call_iff.mpr ⟨.ok none, _, rfl, returns_call_iff.mpr ⟨secs 300, _, rfl, ?_⟩⟩⟩⟩
  simp only [ret_bind, if_neg hdue]
  exact .call _ (.ret _)

theorem ap_kept_heldRound : ∃ head, Iterates (iterate 1 rootPaths defaultTuning) servingHead
    (⟨.now, 0⟩ :: heldRound) head ∧ head.state = .fallbackAp ∧
      head.supervisor.ap = servingHead.supervisor.ap ∧
      ∀ p, dropEvent p ∉ (⟨.now, 0⟩ :: heldRound : List (Event Sys)) := by
  have hround : Returns (iterate 1 rootPaths defaultTuning servingHead) (⟨.now, 0⟩ :: heldRound)
      (.inl servingHead) := by
    refine returns_call_iff.mpr ⟨0, _, rfl, ?_⟩
    rw [← List.append_nil heldRound]
    exact .exit returns_heldRound (.ret _)
  have hcalm : Calm rootPaths servingHead.supervisor.ap (⟨.now, 0⟩ :: heldRound) := by
    have halive (q : ℕ) (r : Io (Option ExitStatus))
        (hr : ⟨.tryWait q, r⟩ ∈ (⟨.now, 0⟩ :: heldRound : List (Event Sys))) : r = .ok none := by
      simp only [heldRound, List.mem_cons, List.not_mem_nil, or_false] at hr
      rcases hr with h | h | h | h | h | h <;> cases h <;> rfl
    refine ⟨fun r hr => by simpa [heldRound] using hr, fun p _ r hr => ?_⟩
    exact hr.elim (halive _ r) (halive _ r)
  have hi := Iterates.step (.refl servingHead) hround
  have h := (ap_kept 1 rootPaths defaultTuning).2 servingHead _ rfl hcalm
  exact ⟨servingHead, hi, (h.1 _ hi).1, (h.1 _ hi).2 _ rfl, h.2 (.again hround (.nil _))⟩

end Example

end RobotCtl.Wifi
