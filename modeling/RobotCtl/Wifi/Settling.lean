import RobotCtl.Wifi.Announce
import RobotCtl.Wifi.Deadlines
import RobotCtl.Wifi.Lease

/-! # The supervisor settles

Every wait of the supervisor is bounded, so it goes on from one head of its loop
to the next, and announces its first settled state in time. What may last is
the connection that it watches.
-/

namespace RobotCtl.Wifi

open Text Prog

variable {α β σ ε : Type} {p : Prog Sys α} {o : SysOp} {t : List (Event Sys)}
  {w w' c c' n n' : ℕ}

section Steps

variable {pid : ℕ} {paths : Paths} {tuning : SuperviseTuning} {s s' : Supervisor}

theorem prepareStation_within (interface : Str) (w : ℕ) :
    Within 3 0 (prepareStation interface).run w :=
  (requireInterface_within interface w).try_bind fun _ _ u _ _ =>
    (run_within _ _ u).try_bind fun _ _ v _ _ => run_within _ _ v

theorem awaitLease_within (interface : Str) (supplicant : Daemon) (w : ℕ) :
    Within 159 Daemon.termGrace (awaitLease tuning interface supplicant).run w := by
  have hnone : ∀ w, Within 157 Daemon.termGrace (do
      liftM supplicant.stop
      throw ["associated but got no IPv4 address on ".toList ++ interface] :
        Fallible ClientSession).run w := fun w =>
    (supplicant.stop_within w).lift.try_bind fun _ _ _ _ _ => within_ret _
  refine ((run_within _ _ w).lift.try_bind fun _ _ u _ _ =>
    (ipv4Address_within interface u).lift.try_bind fun address _ v _ _ => ?_).mono
    (c := 1 + (1 + 157)) (n := 0 + (0 + Daemon.termGrace)) (by omega) (by omega)
  cases address with
  | none => exact hnone v
  | some address => exact (within_ret _).mono (by omega) (by omega)

theorem spawn_within (name program : Str) (args : List Str) (w : ℕ) :
    Within 1 0 (Daemon.spawn name program args).run w := by
  refine Within.step rfl fun r _ _ => ?_
  cases r with
  | error err => exact within_ret _
  | ok pid => exact within_ret _

/-- One attempt takes so long that its supplicant can be stopped, besides what its commands take. -/
theorem connect_within (w : ℕ) : Within 164 Daemon.termGrace (connect paths tuning) w := by
  have hinner : ∀ w, Within 163 Daemon.termGrace
      (connectInner tuning paths.wifiInterface paths.wifiClientConf).run w := fun w =>
    ((prepareStation_within _ w).try_bind fun _ _ u _ _ =>
      (spawn_within _ _ _ u).try_bind fun d _ v _ _ => awaitLease_within _ d v).mono
      (by omega) (by omega)
  refine Within.step rfl fun found u _ => ?_
  cases found
  · exact (within_ret _).mono (by omega) (by omega)
  · simp only [ret_bind, bind_eq, if_true]
    exact (hinner u).bind fun _ _ _ _ _ => within_ret _

theorem tryAttempts_within (attempts : List ℕ) (hc : s.client = none) (w : ℕ) :
    Within (165 * attempts.length) ((Daemon.termGrace + secs tuning.retrySec) * attempts.length)
      (s.tryAttempts paths tuning attempts) w := by
  have hstop : s.stopClient paths = .ret s := by rw [Supervisor.stopClient, hc]; rfl
  induction attempts generalizing w with
  | nil => exact (within_ret _).mono (by omega) (by omega)
  | cons attempt rest ih =>
    have hpause : ∀ w, Within (165 * rest.length + 1)
        ((Daemon.termGrace + secs tuning.retrySec) * rest.length + secs tuning.retrySec)
        ((Sys.sleep (secs tuning.retrySec)).bind fun _ => s.tryAttempts paths tuning rest) w :=
      fun _ => Within.call fun _ v _ => ih v
    rw [List.length_cons, Nat.mul_succ, Nat.mul_succ]
    refine ((connect_within w).bind fun r _ u _ _ => ?_).mono (c := 164 + (165 * rest.length + 1))
      (n := Daemon.termGrace + ((Daemon.termGrace + secs tuning.retrySec) * rest.length +
        secs tuning.retrySec)) (by omega) (by omega)
    rcases r with (path | err) | session
    · exact (within_ret _).mono (by omega) (by omega)
    · simp only [bind_eq, hstop, ret_bind]
      split
      · exact (hpause u).mono (by omega) (by omega)
      · exact (ih u).mono (by omega) (by omega)
    · simp only [bind_eq, Supervisor.setClient, hc]
      exact (within_ret _).mono (by omega) (by omega)

theorem drop_within (session : ApSession) (w : ℕ) :
    Within 630 (4 * Daemon.termGrace) session.drop w := by
  have hstop := fun (d : Daemon) w => d.stop_within w
  refine (Within.step rfl fun _ _ _ => (hstop session.hostapd _).bind fun _ _ _ _ _ =>
    (hstop session.dnsmasq _).bind fun _ _ _ _ _ => (runBestEffort_within _ _ _).bind
      fun _ _ _ _ _ => (hstop session.hostapd _).bind fun _ _ _ _ _ =>
        hstop session.dnsmasq _).mono (by omega) (by omega)

theorem stopAp_within (s : Supervisor) (w : ℕ) :
    Within 630 (4 * Daemon.termGrace) s.stopAp w := by
  obtain ⟨client, _ | ap⟩ := s
  · exact (within_ret _).mono (by omega) (by omega)
  · exact (drop_within ap w).bind fun _ _ _ _ _ => within_ret _

theorem stopClient_within (s : Supervisor) (w : ℕ) :
    Within 158 Daemon.termGrace (s.stopClient paths) w := by
  obtain ⟨_ | client, ap⟩ := s
  · exact (within_ret _).mono (by omega) (by omega)
  · exact (client.supplicant.stop_within w).bind fun _ _ u _ _ =>
      (runBestEffort_within _ _ u).bind fun _ _ _ _ _ => within_ret _

theorem stopAp_client (h : Returns s.stopAp t s') : s'.client = s.client := by
  obtain ⟨client, _ | ap⟩ := s
  · obtain ⟨-, rfl⟩ := returns_ret_iff.mp h
    rfl
  · obtain ⟨_, _, _, -, -, h⟩ := returns_bind_iff.mp h
    obtain ⟨-, rfl⟩ := returns_ret_iff.mp h
    rfl

theorem tryClient_within (hc : s.client = none) (w : ℕ) :
    Within (630 + 165 * tuning.clientAttempts)
      (4 * Daemon.termGrace + (Daemon.termGrace + secs tuning.retrySec) * tuning.clientAttempts)
      (s.tryClient paths tuning) w := by
  refine (stopAp_within s w).bind fun s' t u hs _ => ?_
  have hc' : s'.client = none := (stopAp_client hs).trans hc
  have hattempts : Within _ _ (s'.tryAttempts paths tuning
      (List.range' 1 tuning.clientAttempts)) u := tryAttempts_within _ hc' u
  rwa [List.length_range'] at hattempts

theorem now_within (w : ℕ) : Within 1 0 Sys.now w := Within.step rfl fun time _ _ => within_ret time

theorem apDied_within (s : Supervisor) (w : ℕ) : Within 2 0 s.apDied w := by
  have hrunning : ∀ (d : Daemon) w, Within 1 0 d.isRunning w := fun d w =>
    Within.step rfl fun r _ _ => by rcases r with err | _ | status <;> exact within_ret _
  obtain ⟨client, _ | ap⟩ := s
  · exact (within_ret _).mono (by omega) (by omega)
  · exact ((hrunning ap.hostapd w).bind fun _ _ u _ _ =>
      (hrunning ap.dnsmasq u).bind fun _ _ _ _ _ => within_ret _).bind
        fun _ _ _ _ _ => within_ret _

theorem serveRound_within (started : ℕ) (s : Supervisor) (w : ℕ) :
    Within 633 (4 * Daemon.termGrace + secs tuning.linkPollSec)
      (s.serveRound paths tuning started) w := by
  have hrest : ∀ w, Within 632 (4 * Daemon.termGrace) (do
      if ← s.apDied then
        let s ← s.stopAp
        pure (.inr (s, .apDied))
      else
        let time ← Sys.now
        if time - started < secs tuning.apRetrySec then pure (.inl s)
        else if ← Sys.isFile paths.wifiClientConf then pure (.inr (s, .apRetryDue))
        else pure (.inr (s, .apHeld)) : Prog Sys (Supervisor ⊕ Supervisor × StepEvent)) w := by
    intro w
    refine ((apDied_within s w).bind fun died _ u _ _ => ?_).mono (c := 2 + 630)
      (n := 0 + 4 * Daemon.termGrace) (by omega) (by omega)
    cases died
    · refine ((now_within u).bind fun time _ v _ _ => ?_).mono (c := 1 + 1) (n := 0 + 0)
        (by omega) (Nat.zero_le _)
      split
      · exact (within_ret _).mono (Nat.zero_le 1) (Nat.le_refl 0)
      · exact Within.step rfl fun found _ _ => by cases found <;> exact within_ret _
    · exact (stopAp_within s u).bind fun _ _ _ _ _ => within_ret _
  have hround : ∀ nanos, Within (632 + 1) (4 * Daemon.termGrace + nanos)
      (.call (.sleep nanos) fun _ => _) w := fun nanos => Within.call fun _ u _ => hrest u
  exact hround (secs tuning.linkPollSec)

/-- How many rounds of serving there are until it is time to retry the client. -/
def serveRounds (tuning : SuperviseTuning) : ℕ :=
  (tuning.apRetrySec + (tuning.linkPollSec - 1)) / tuning.linkPollSec

theorem retry_le_rounds (h : 0 < tuning.linkPollSec) :
    secs tuning.apRetrySec ≤ secs tuning.linkPollSec * serveRounds tuning := by
  have hmod := Nat.mod_lt (tuning.apRetrySec + (tuning.linkPollSec - 1)) h
  have hdiv := Nat.div_add_mod (tuning.apRetrySec + (tuning.linkPollSec - 1)) tuning.linkPollSec
  have hle : tuning.apRetrySec ≤ tuning.linkPollSec * serveRounds tuning := by
    unfold serveRounds
    omega
  have hsecs : secs tuning.linkPollSec * serveRounds tuning =
      tuning.linkPollSec * serveRounds tuning * 1000000000 := Nat.mul_right_comm ..
  rw [hsecs]
  exact Nat.mul_le_mul_right _ hle

/-- A round that goes on has checked the daemons and the time. -/
theorem serveRound_again {started : ℕ}
    (h : Returns (s.serveRound paths tuning started) t (.inl s')) (hr : Env.Runs clock w t w') :
    t.length ≤ 4 ∧ sleptIn t = secs tuning.linkPollSec ∧
      w + secs tuning.linkPollSec < started + secs tuning.apRetrySec := by
  obtain ⟨_, t₁, rfl, h₁⟩ := returns_call_iff.mp h
  rw [ret_bind] at h₁
  obtain ⟨died, t₂, t₃, rfl, h₂, h₃⟩ := returns_bind_iff.mp h₁
  obtain ⟨u, hu, hr⟩ := Env.runs_cons_iff.mp hr
  obtain ⟨v, hv, hr⟩ := Env.runs_append_iff.mp hr
  have hdied := (apDied_within s u).bounds h₂.cut hv
  have hpass := runs_clock_le hv
  have hslept := clock_le hu
  rw [slept_sleep] at hslept
  clear hu
  cases died
  · obtain ⟨time, _, t₄, rfl, hnow, h₄⟩ := returns_bind_iff.mp h₃
    obtain ⟨_, _, rfl, hret⟩ := returns_call_iff.mp hnow
    obtain ⟨rfl, rfl⟩ := returns_ret_iff.mp hret
    obtain ⟨x, hx, hr⟩ := Env.runs_cons_iff.mp hr
    have htime : v ≤ time := hx.1
    split at h₄
    · next hearly =>
      obtain ⟨rfl, -⟩ := returns_ret_iff.mp h₄
      have hzero : sleptIn [⟨.now, time⟩] = 0 := rfl
      rw [List.append_nil, List.length_cons, List.length_append, List.length_singleton,
        sleptIn_cons, slept_sleep, sleptIn_append]
      omega
    · obtain ⟨found, t₅, rfl, h₅⟩ := returns_call_iff.mp h₄
      cases found <;> cases (returns_ret_iff.mp h₅).2
  · obtain ⟨_, _, _, -, -, h₅⟩ := returns_bind_iff.mp h₃
    cases (returns_ret_iff.mp h₅).2

/-- The access point is served until a retry is due, and at most a poll longer. -/
theorem serve_within {started : ℕ} (hpoll : 0 < tuning.linkPollSec) (hs : started ≤ w) :
    Within (4 * serveRounds tuning + 633) (secs tuning.linkPollSec * serveRounds tuning +
        (4 * Daemon.termGrace + secs tuning.linkPollSec))
      (.loop (Supervisor.serveRound paths tuning started) s fun x => .ret (x.1, .ok x.2) :
        Prog Sys (Supervisor × Except Error StepEvent)) w := by
  refine Within.loop (fun _ i w => started + secs tuning.apRetrySec ≤
    w + secs tuning.linkPollSec * i) ?_ ?_ ?_ ?_
  · intro s i w _
    exact (serveRound_within started s w).mono (by omega) (by omega)
  · intro s i w t s' w' hd hb hr
    obtain ⟨hlen, hslept, hw⟩ := serveRound_again hb hr
    have hpass := runs_clock_le hr
    cases i with
    | zero => omega
    | succ j =>
      rw [Nat.mul_succ] at hd
      exact ⟨j, rfl, hlen, Nat.le_of_eq hslept, by omega⟩
  · intro s i w t x w' _ hb hr
    obtain ⟨hlen, hslept⟩ := (serveRound_within started s w).bounds hb.cut hr
    exact ⟨0, 0, hlen, hslept, within_ret _⟩
  · exact Nat.add_le_add hs (retry_le_rounds hpoll)

end Steps

section Unconnected

variable {pid : ℕ} {paths : Paths} {tuning : SuperviseTuning} {s s' : Supervisor} {e : StepEvent}
  {state : State} {head head' : Head}

theorem stopClient_client (h : Returns (s.stopClient paths) t s') : s'.client = none := by
  obtain ⟨_ | client, ap⟩ := s
  · obtain ⟨-, rfl⟩ := returns_ret_iff.mp h
    rfl
  · obtain ⟨_, _, _, -, -, h⟩ := returns_bind_iff.mp h
    obtain ⟨_, _, _, -, -, h⟩ := returns_bind_iff.mp h
    obtain ⟨-, rfl⟩ := returns_ret_iff.mp h
    rfl

theorem tryAttempts_client {attempts : List ℕ} (hc : s.client = none)
    (h : Returns (s.tryAttempts paths tuning attempts) t (s', e)) (he : e ≠ .clientConnected) :
    s'.client = none := by
  induction attempts generalizing s t with
  | nil =>
    obtain ⟨-, hx⟩ := returns_ret_iff.mp h
    rwa [(Prod.mk.inj hx).1]
  | cons attempt rest ih =>
    obtain ⟨r, t₁, t₂, rfl, -, h⟩ := returns_bind_iff.mp h
    rcases r with (path | err) | session
    · obtain ⟨-, hx⟩ := returns_ret_iff.mp h
      rwa [(Prod.mk.inj hx).1]
    · obtain ⟨s₁, t₃, t₄, rfl, hstop, h⟩ := returns_bind_iff.mp h
      have hc := stopClient_client hstop
      split at h
      · obtain ⟨_, t₅, t₆, rfl, -, h⟩ := returns_bind_iff.mp h
        exact ih hc h
      · exact ih hc h
    · obtain ⟨s₁, t₃, t₄, rfl, -, h⟩ := returns_bind_iff.mp h
      obtain ⟨-, hx⟩ := returns_ret_iff.mp h
      exact absurd (Prod.mk.inj hx).2 he

theorem watchClient_client (h : Returns (s.watchClient paths tuning) t (s', e)) :
    s'.client = none := by
  obtain ⟨s₁, y, t₁, t₂, hround, hy⟩ := h.loop_exit
  obtain ⟨-, rfl⟩ := returns_ret_iff.mp hy
  obtain ⟨_, t₃, t₄, rfl, -, hround⟩ := returns_bind_iff.mp hround
  obtain ⟨address, t₅, t₆, rfl, -, hround⟩ := returns_bind_iff.mp hround
  cases address with
  | none =>
    obtain ⟨s₂, t₇, t₈, rfl, hstop, hround⟩ := returns_bind_iff.mp hround
    obtain ⟨-, hx⟩ := returns_ret_iff.mp hround
    rw [(Prod.mk.inj (Sum.inr.inj hx)).1]
    exact stopClient_client hstop
  | some address =>
    obtain ⟨-, hx⟩ := returns_ret_iff.mp hround
    cases hx

theorem raiseAp_client (h : Returns (s.raiseAp pid paths).run t (.ok s')) :
    s'.client = s.client := by
  obtain ⟨client, _ | ap⟩ := s
  · obtain ⟨_, _, _, -, -, h⟩ := returns_try_bind_ok_iff.mp h
    obtain ⟨_, _, _, -, -, h⟩ := returns_try_bind_ok_iff.mp h
    obtain ⟨_, _, _, -, -, h⟩ := returns_try_bind_ok_iff.mp h
    obtain ⟨-, hx⟩ := returns_ret_iff.mp h
    rw [Except.ok.inj hx]
  · obtain ⟨-, hx⟩ := returns_ret_iff.mp h
    rw [Except.ok.inj hx]

theorem serveRound_client {started : ℕ} {x : Supervisor ⊕ Supervisor × StepEvent}
    (h : Returns (s.serveRound paths tuning started) t x) :
    (Sum.elim id Prod.fst x).client = s.client := by
  obtain ⟨_, t₁, t₂, rfl, -, h⟩ := returns_bind_iff.mp h
  obtain ⟨died, t₃, t₄, rfl, -, h⟩ := returns_bind_iff.mp h
  cases died with
  | true =>
    obtain ⟨s₁, t₅, t₆, rfl, hstop, h⟩ := returns_bind_iff.mp h
    obtain ⟨-, rfl⟩ := returns_ret_iff.mp h
    exact stopAp_client hstop
  | false =>
    obtain ⟨time, t₅, t₆, rfl, -, h⟩ := returns_bind_iff.mp h
    split at h
    · obtain ⟨-, rfl⟩ := returns_ret_iff.mp h
      rfl
    · obtain ⟨found, t₇, t₈, rfl, -, h⟩ := returns_bind_iff.mp h
      cases found with
      | true | false =>
        obtain ⟨-, rfl⟩ := returns_ret_iff.mp h
        rfl

theorem serveAp_client (h : Returns (s.serveAp pid paths tuning) t (s', .ok e)) :
    s'.client = none := by
  obtain ⟨s₁, t₁, t₂, rfl, hstop, h⟩ := returns_bind_iff.mp h
  obtain ⟨r, t₃, t₄, rfl, hraise, h⟩ := returns_bind_iff.mp h
  cases r with
  | error err =>
    obtain ⟨-, hx⟩ := returns_ret_iff.mp h
    cases hx
  | ok s₂ =>
    have hc : s₂.client = none := (raiseAp_client hraise).trans (stopClient_client hstop)
    obtain ⟨started, t₅, t₆, rfl, -, h⟩ := returns_bind_iff.mp h
    obtain ⟨s₃, y, u, t₇, t₈, -, hrounds, hround, hy⟩ := h.loop_rounds
    have hc : s₃.client = none := by
      clear hround hy h
      induction hrounds with
      | refl => exact hc
      | step _ hb ih => exact (serveRound_client hb).trans ih
    obtain ⟨-, hx⟩ := returns_ret_iff.mp hy
    rw [(Prod.mk.inj hx).1]
    exact (serveRound_client hround).trans hc

/-- But in the state that watches it there is no client session at the head of the loop. -/
def Unconnected (head : Head) : Prop := head.state ≠ .clientUp → head.supervisor.client = none

theorem unconnected_of_step (hi : state ≠ .clientUp → s.client = none)
    (h : Returns (s.step pid paths tuning state) t (s', .ok e))
    (hn : nextState state e ≠ .clientUp) : s'.client = none := by
  cases state with
  | tryClient =>
    obtain ⟨x, t₁, t₂, rfl, htry, hx⟩ := returns_bind_iff.mp h
    obtain ⟨-, hx⟩ := returns_ret_iff.mp hx
    obtain ⟨rfl, he⟩ := Prod.mk.inj hx
    obtain ⟨s₁, t₃, t₄, rfl, hstop, htry⟩ := returns_bind_iff.mp htry
    refine tryAttempts_client ((stopAp_client hstop).trans (hi nofun)) htry fun hconnected => ?_
    rw [Except.ok.inj he, hconnected] at hn
    exact hn rfl
  | clientUp =>
    obtain ⟨x, t₁, t₂, rfl, h, hx⟩ := returns_bind_iff.mp h
    obtain ⟨-, hx⟩ := returns_ret_iff.mp hx
    rw [(Prod.mk.inj hx).1]
    exact watchClient_client h
  | fallbackAp => exact serveAp_client h

theorem Unconnected.iterate (hi : Unconnected head)
    (h : Returns (iterate pid paths tuning head) t (.inl head')) : Unconnected head' := by
  obtain ⟨⟨s, r⟩, t₁, t₂, rfl, h₁, h₂⟩ := returns_bind_iff.mp h
  cases r with
  | error err =>
    obtain ⟨-, hx⟩ := returns_ret_iff.mp h₂
    cases hx
  | ok e =>
    obtain ⟨u, t₃, t₄, rfl, h₃, h₄⟩ := returns_bind_iff.mp h₂
    obtain ⟨announced, t₅, t₆, rfl, h₅, h₆⟩ := returns_bind_iff.mp h₄
    obtain ⟨rfl, hx⟩ := returns_ret_iff.mp h₆
    obtain rfl := Sum.inl.inj hx
    exact unconnected_of_step hi h₁

theorem unconnected_of_reaches (h : Reaches pid paths tuning t head) : Unconnected head := by
  obtain ⟨t₁, t₂, rfl, -, h₂⟩ := h
  induction h₂ with
  | refl => exact fun _ => rfl
  | step _ hb ih => exact ih.iterate hb

end Unconnected

section After

/-- Up to a rest within the bounds, a trace is one of those that may take any time. -/
def After {α : Type} (held : List (Event Sys) → Prop) (calls nanos : ℕ) (p : Prog Sys α) (w : ℕ) :
    Prop :=
  ∀ t w', Partial p t → Env.Runs clock w t w' → ∃ t₁ t₂, t = t₁ ++ t₂ ∧ held t₁ ∧
    t₂.length ≤ calls ∧ sleptIn t₂ ≤ nanos

variable {held : List (Event Sys) → Prop}

theorem Within.after (h : Within c n p w) (hh : held []) : After held c n p w := by
  intro t w' hp hr
  exact ⟨[], t, rfl, hh, h.bounds hp hr⟩

theorem After.bind {f : α → Prog Sys β} (h : After held c n p w)
    (hf : ∀ a w', Within c' n' (f a) w') : After held (c + c') (n + n') (p.bind f) w := by
  intro t w' hp hr
  rcases partial_bind_iff.mp hp with hp | ⟨a, t₁, t₂, rfl, h₁, h₂⟩
  · obtain ⟨t₁, t₂, rfl, hh, hlen, hs⟩ := h t w' hp hr
    exact ⟨t₁, t₂, rfl, hh, by omega, by omega⟩
  · obtain ⟨u, hr₁, hr₂⟩ := Env.runs_append_iff.mp hr
    obtain ⟨t₃, t₄, rfl, hh, hlen, hs⟩ := h t₁ u h₁.cut hr₁
    have hrest := (hf a u).bounds h₂ hr₂
    refine ⟨t₃, t₄ ++ t₂, List.append_assoc .., hh, ?_, ?_⟩
    · rw [List.length_append]
      omega
    · rw [sleptIn_append]
      omega

theorem After.map {f : α → β} (h : After held c n p w) :
    After held c n (p.bind fun a => .ret (f a)) w := h.bind fun _ _ => within_ret _

/-- The first part of a sequence may take any time. -/
theorem after_first {f : α → Prog Sys β} (hf : ∀ a w', Within c n (f a) w') :
    After (Partial p) c n (p.bind f) w := by
  intro t w' hp hr
  rcases partial_bind_iff.mp hp with hp | ⟨a, t₁, t₂, rfl, h₁, h₂⟩
  · exact ⟨t, [], (List.append_nil t).symm, hp, Nat.zero_le c, Nat.zero_le n⟩
  · obtain ⟨u, -, hr⟩ := Env.runs_append_iff.mp hr
    exact ⟨t₁, t₂, rfl, h₁.cut, (hf a u).bounds h₂ hr⟩

end After

section Iterations

variable {pid : ℕ} {paths : Paths} {tuning : SuperviseTuning} {s s' : Supervisor} {head : Head}
  {state : State}

/-- Whole rounds of watching a connection, in each of which it had an address. -/
inductive Watched (paths : Paths) (tuning : SuperviseTuning) : List (Event Sys) → Prop
  | nil : Watched paths tuning []
  | round {t : List (Event Sys)} {result : Output} {line address : Str} :
      Watched paths tuning t → result.status.success = true → line ∈ lines result.stdout →
      ShowsAddress line address →
      Watched paths tuning (t ++ [⟨.sleep (secs tuning.linkPollSec), ()⟩,
        ⟨.output ipCommand (showArgs paths.wifiInterface), .ok result⟩])

/-- An address that is found is shown by a command that succeeds. -/
theorem exists_shown {program : Str} {args : List Str} {r : Io Output} {address : Str}
    (h : ipv4AddressOf (outputResult program args r) = some address) :
    ∃ result, r = .ok result ∧ result.status.success = true ∧
      ∃ line ∈ lines result.stdout, ShowsAddress line address := by
  cases r with
  | error err => cases h
  | ok result =>
    rw [outputResult] at h
    split at h
    · next hok => exact ⟨result, rfl, hok, exists_showsAddress h⟩
    · cases h

theorem Watched.of_iterates (h : Iterates (Supervisor.watchRound paths tuning) s t s') :
    Watched paths tuning t := by
  induction h with
  | refl => exact .nil
  | step _ hround ih =>
    obtain ⟨_, t₁, rfl, hb⟩ := returns_call_iff.mp hround
    rw [ret_bind] at hb
    obtain ⟨address, t₂, t₃, rfl, haddress, hb⟩ := returns_bind_iff.mp hb
    obtain ⟨_, t₄, t₅, rfl, houtput, haddress⟩ := returns_bind_iff.mp haddress
    obtain ⟨r, rfl, rfl⟩ := returns_output_iff.mp houtput
    obtain ⟨rfl, hr⟩ := returns_ret_iff.mp haddress
    cases address with
    | none =>
      obtain ⟨_, _, _, -, -, hb⟩ := returns_bind_iff.mp hb
      cases (returns_ret_iff.mp hb).2
    | some address =>
      obtain ⟨rfl, -⟩ := returns_ret_iff.mp hb
      obtain ⟨result, rfl, hok, line, hline, hshows⟩ := exists_shown hr.symm
      exact ih.round hok hline hshows

theorem watchRound_within (s : Supervisor) (w : ℕ) :
    Within 160 (Daemon.termGrace + secs tuning.linkPollSec) (s.watchRound paths tuning) w := by
  refine Within.sleep (c := 159) fun _ u => ?_
  refine ((ipv4Address_within _ u).bind fun address _ v _ _ => ?_).mono (c := 1 + 158)
    (n := 0 + Daemon.termGrace) (by omega) (by omega)
  cases address with
  | none => exact (stopClient_within s v).bind fun _ _ _ _ _ => within_ret _
  | some address => exact (within_ret _).mono (Nat.zero_le _) (Nat.zero_le _)

/-- A connection is watched for as long as it has an address. -/
theorem watchClient_after (s : Supervisor) (w : ℕ) : After (Watched paths tuning) 160
    (Daemon.termGrace + secs tuning.linkPollSec) (s.watchClient paths tuning) w := by
  intro t w' hp hr
  obtain ⟨s', u, t', rfl, hu, hrest⟩ := hp.loop_rounds
  obtain ⟨v, -, hr⟩ := Env.runs_append_iff.mp hr
  refine ⟨u, t', rfl, .of_iterates hu, ?_⟩
  rcases hrest with hp | ⟨b, t₁, t₂, rfl, hb, hk⟩
  · exact (watchRound_within s' v).bounds hp hr
  · cases hk
    rw [List.append_nil] at hr ⊢
    exact (watchRound_within s' v).bounds hb.cut hr

/-- An access point is served for a bounded time, but starting it writes files of any length. -/
theorem serveAp_after (hpoll : 0 < tuning.linkPollSec) (hc : s.client = none) (w : ℕ) :
    After (Partial (s.raiseAp pid paths).run) (4 * serveRounds tuning + 634)
      (secs tuning.linkPollSec * serveRounds tuning +
        (4 * Daemon.termGrace + secs tuning.linkPollSec)) (s.serveAp pid paths tuning) w := by
  have hstop : s.stopClient paths = .ret s := by rw [Supervisor.stopClient, hc]; rfl
  rw [Supervisor.serveAp, hstop]
  refine after_first fun r u => ?_
  cases r with
  | error err => exact (within_ret _).mono (Nat.zero_le _) (Nat.zero_le _)
  | ok s' =>
    refine ((now_within u).bind fun started t v hnow hr => ?_).mono
      (c := 1 + (4 * serveRounds tuning + 633)) (by omega) (Nat.le_of_eq (Nat.zero_add _))
    obtain ⟨_, _, rfl, hret⟩ := returns_call_iff.mp hnow
    obtain ⟨rfl, rfl⟩ := returns_ret_iff.mp hret
    obtain ⟨x, hx, hr⟩ := Env.runs_cons_iff.mp hr
    obtain rfl := Env.runs_nil_iff.mp hr
    exact serve_within hpoll hx.2

/-- What may take any time in an iteration: a connection that is there, and starting the access
point. -/
def Held (pid : ℕ) (paths : Paths) (tuning : SuperviseTuning) (head : Head)
    (t : List (Event Sys)) : Prop :=
  match head.state with
  | .tryClient => t = []
  | .clientUp => Watched paths tuning t
  | .fallbackAp => Partial (head.supervisor.raiseAp pid paths).run t

def stepCalls (tuning : SuperviseTuning) : State → ℕ
  | .tryClient => 630 + 165 * tuning.clientAttempts
  | .clientUp => 160
  | .fallbackAp => 4 * serveRounds tuning + 634

def stepNanos (tuning : SuperviseTuning) : State → ℕ
  | .tryClient =>
    4 * Daemon.termGrace + (Daemon.termGrace + secs tuning.retrySec) * tuning.clientAttempts
  | .clientUp => Daemon.termGrace + secs tuning.linkPollSec
  | .fallbackAp => secs tuning.linkPollSec * serveRounds tuning +
      (4 * Daemon.termGrace + secs tuning.linkPollSec)

theorem announceReady_within (announced : Bool) (next : State) (w : ℕ) :
    Within 2 0 (announceReady announced next) w := by
  have hready : ∀ w, Within 2 0 (notifyReady next) w := by
    intro w
    refine Within.step rfl fun value u _ => ?_
    rw [ret_bind]
    cases systemdNotifySocket value with
    | none => exact (within_ret _).mono (Nat.zero_le _) (Nat.zero_le _)
    | some socket => exact Within.step rfl fun _ _ _ => within_ret _
  unfold announceReady
  split
  · exact (hready w).bind fun _ _ _ _ _ => within_ret _
  · exact (within_ret _).mono (Nat.zero_le _) (Nat.zero_le _)

theorem notifyChange_within (state next : State) (w : ℕ) :
    Within 2110 (Hook.runLimit + Hook.termGrace) (notifyChange paths state next) w := by
  unfold notifyChange
  split
  · exact (within_ret _).mono (Nat.zero_le _) (Nat.zero_le _)
  · exact Hook.notify_within _ _ w

def roundCalls (tuning : SuperviseTuning) (state : State) : ℕ := stepCalls tuning state + 2112

def roundNanos (tuning : SuperviseTuning) (state : State) : ℕ :=
  stepNanos tuning state + (Hook.runLimit + Hook.termGrace)

theorem After.iterate {held : List (Event Sys) → Prop}
    (h : After held c n (head.supervisor.step pid paths tuning head.state) w) :
    After held (c + 2112) (n + (Hook.runLimit + Hook.termGrace)) (iterate pid paths tuning head)
      w := by
  refine h.bind fun x u => ?_
  obtain ⟨s, err | e⟩ := x
  · exact (within_ret _).mono (Nat.zero_le _) (Nat.zero_le _)
  · exact (notifyChange_within _ _ u).bind fun _ _ v _ _ =>
      (announceReady_within _ _ v).bind fun _ _ _ _ _ => within_ret _

/-- In the state that tries the client nothing takes any time. -/
theorem tryClient_after (hc : s.client = none) (w : ℕ) :
    After (· = []) (stepCalls tuning .tryClient) (stepNanos tuning .tryClient)
      (s.step pid paths tuning .tryClient) w := by
  have htry : After (· = []) _ _ (s.tryClient paths tuning) w := (tryClient_within hc w).after rfl
  simp only [stepCalls, stepNanos]
  exact htry.map

theorem iterate_after (hpoll : 0 < tuning.linkPollSec) (hi : Unconnected head) (w : ℕ) :
    After (Held pid paths tuning head) (roundCalls tuning head.state) (roundNanos tuning head.state)
      (iterate pid paths tuning head) w := by
  apply After.iterate
  obtain ⟨s, state, announced⟩ := head
  cases state with
  | tryClient => exact tryClient_after (hi nofun) w
  | clientUp =>
    simp only [stepCalls, stepNanos]
    exact (watchClient_after s w).map
  | fallbackAp =>
    simp only [stepCalls, stepNanos]
    exact serveAp_after hpoll (hi nofun) w

end Iterations

section Run

variable {pid : ℕ} {paths : Paths} {tuning : SuperviseTuning} {head : Head} {δ : ℕ}
  {t' : List (Event Sys)}

/-- From every head of its loop that it reaches, the supervisor goes on to the next one within
bounded calls and a bounded time, but for as long as a watched connection keeps its address and
the access point is being started. -/
theorem never_stalls (hpoll : 0 < tuning.linkPollSec) (h : Reaches pid paths tuning t head)
    (hp : Partial (iterate pid paths tuning head) t') (hr : Env.Runs (paced δ) w t' w') :
    ∃ t₁ t₂ u, t' = t₁ ++ t₂ ∧ Held pid paths tuning head t₁ ∧ Env.Runs (paced δ) w t₁ u ∧
      t₂.length ≤ roundCalls tuning head.state ∧
      w' ≤ u + roundNanos tuning head.state + δ * roundCalls tuning head.state := by
  obtain ⟨hclock, -⟩ := clock_of_paced hr
  obtain ⟨t₁, t₂, rfl, hheld, hlen, hs⟩ :=
    iterate_after hpoll (unconnected_of_reaches h) w t' w' hp hclock
  obtain ⟨u, hr₁, hr₂⟩ := Env.runs_append_iff.mp hr
  have hle := (clock_of_paced hr₂).2
  have hδ := Nat.mul_le_mul_left δ hlen
  exact ⟨t₁, t₂, u, rfl, hheld, hr₁, hlen, by omega⟩

/-- How many calls there are at most until readiness is announced. -/
def settleCalls (tuning : SuperviseTuning) : ℕ := 2111 + roundCalls tuning .tryClient

def settleNanos (tuning : SuperviseTuning) : ℕ :=
  Hook.runLimit + Hook.termGrace + roundNanos tuning .tryClient

theorem opening_within (w : ℕ) :
    Within 2111 (Hook.runLimit + Hook.termGrace) (opening paths).run w :=
  ((requireInterface_within _ w).try_bind fun _ _ u _ _ => (Hook.notify_within _ _ u).lift).mono
    (by omega) (by omega)

/-- The first iteration is over in a bounded time. -/
theorem firstRound_bounds (hp : Partial (iterate pid paths tuning .init) t)
    (hr : Env.Runs clock w t w') :
    t.length ≤ roundCalls tuning .tryClient ∧ sleptIn t ≤ roundNanos tuning .tryClient := by
  have hround : After (· = []) _ _ (iterate pid paths tuning .init) w :=
    After.iterate (tryClient_after rfl w)
  obtain ⟨t₁, t₂, rfl, rfl, hlen, hs⟩ := hround t w' hp hr
  exact ⟨hlen, hs⟩

/-- A loop that is cut is cut in its first round, or has made it. -/
theorem firstRound_of_partial (hp : Partial (superviseLoop pid paths tuning .init) t) :
    Partial (iterate pid paths tuning .init) t ∨ ∃ x t₁ t₂, t = t₁ ++ t₂ ∧
      Returns (iterate pid paths tuning .init) t₁ x := by
  cases hp with
  | nil => exact Or.inl (.nil _)
  | body hb => exact Or.inl hb
  | again hb _ => exact Or.inr ⟨_, _, _, rfl, hb⟩
  | exit hb _ => exact Or.inr ⟨_, _, _, rfl, hb⟩

/-- The first iteration announces the state that it enters, and the hook hears of it before. -/
theorem announced_of_firstRound (ho : Returns (opening paths).run t (.ok ()))
    {x : Head ⊕ Supervisor × Error} (h : Returns (iterate pid paths tuning .init) t' x) :
    ∃ a b head, t' = a ++ b ∧ (head.state = .clientUp ∨ head.state = .fallbackAp) ∧
      Visits pid paths tuning (t ++ (a ++ b)) [.tryClient, head.state] head ∧
      notifications paths.wifiStateHook (t ++ a) =
        (if paths.wifiStateHook = [] then [] else [.tryClient, head.state]) ∧
      Announcement head.state b := by
  rcases x with head | ⟨s, err⟩
  · obtain ⟨t₁, t₂, t₃, rfl, -, hedge, -, h₃⟩ := returns_iterate h
    have hsettled : head.state = .clientUp ∨ head.state = .fallbackAp := by
      generalize head.state = next at hedge
      cases hedge with
      | connect => exact Or.inl rfl
      | fallBack => exact Or.inr rfl
    have ha : Announcement head.state t₃ := (announced_first hsettled h₃).1
    have hv : Visits pid paths tuning (t ++ (t₁ ++ t₂ ++ t₃)) [.tryClient, head.state] head :=
      (Visits.opening ho).iterate h
    refine ⟨t₁ ++ t₂, t₃, head, rfl, hsettled, hv, ?_, ha⟩
    have hn := hv.notifications_eq
    rw [← List.append_assoc, notifications_append, ha.notifications_eq, List.append_nil] at hn
    rw [hn]
    rcases hsettled with hs | hs <;> rw [hs] <;> rfl
  · -- An attempt to be a client does not fail.
    obtain ⟨⟨s', r⟩, t₁, t₂, rfl, h₁, h₂⟩ := returns_bind_iff.mp h
    obtain ⟨_, _, _, -, -, h₁⟩ := returns_bind_iff.mp h₁
    obtain ⟨-, hr⟩ := returns_ret_iff.mp h₁
    obtain rfl := (Prod.mk.inj hr).2
    obtain ⟨_, _, _, -, -, h₂⟩ := returns_bind_iff.mp h₂
    obtain ⟨_, _, _, -, -, h₂⟩ := returns_bind_iff.mp h₂
    cases (returns_ret_iff.mp h₂).2

/-- A run that is cut behind the opening is cut in the first iteration, or has made it. -/
theorem partial_supervise_cases (hp : Partial (supervise pid paths tuning).run t) :
    Partial (opening paths).run t ∨ ∃ t₁ t₂, t = t₁ ++ t₂ ∧
      Returns (opening paths).run t₁ (.ok ()) ∧ (Partial (iterate pid paths tuning .init) t₂ ∨
        ∃ x t₃ t₄, t₂ = t₃ ++ t₄ ∧ Returns (iterate pid paths tuning .init) t₃ x) := by
  rcases partial_try_bind_iff.mp hp with hp | ⟨_, t₁, t₂, rfl, h₁, h₂⟩
  · exact Or.inl hp
  refine Or.inr ⟨t₁, t₂, rfl, h₁, ?_⟩
  rcases partial_try_bind_iff.mp h₂ with h₂ | ⟨x, t₃, t₄, rfl, h₃, -⟩
  · exact firstRound_of_partial (partial_lift_iff.mp h₂)
  · obtain ⟨y, hloop, -⟩ := returns_lift_iff.mp h₃
    cases hloop with
    | again hb _ => exact Or.inr ⟨_, _, _, List.append_assoc .., hb⟩
    | exit hb _ => exact Or.inr ⟨_, _, _, List.append_assoc .., hb⟩

/-- The supervisor settles: in every run that goes on for longer than the bounds, or makes more
calls, readiness has been announced in time, with the state that the first iteration enters, and
after the hook heard of it. -/
theorem settles (hp : Partial (supervise pid paths tuning).run t) (hr : Env.Runs (paced δ) w t w')
    (hlate : settleCalls tuning < t.length ∨
      w + settleNanos tuning + δ * settleCalls tuning < w') :
    ∃ a b c head u, t = a ++ (b ++ c) ∧ (head.state = .clientUp ∨ head.state = .fallbackAp) ∧
      Visits pid paths tuning (a ++ b) [.tryClient, head.state] head ∧
      notifications paths.wifiStateHook a =
        (if paths.wifiStateHook = [] then [] else [.tryClient, head.state]) ∧
      Announcement head.state b ∧
      Env.Runs (paced δ) w (a ++ b) u ∧ u ≤ w + settleNanos tuning + δ * settleCalls tuning := by
  have hbounds : ∀ {t w'}, Env.Runs (paced δ) w t w' → t.length ≤ settleCalls tuning →
      sleptIn t ≤ settleNanos tuning →
      w' ≤ w + settleNanos tuning + δ * settleCalls tuning := by
    intro t w' hr hlen hs
    have hle := (clock_of_paced hr).2
    have hδ := Nat.mul_le_mul_left δ hlen
    omega
  have hin : ¬ (t.length ≤ settleCalls tuning ∧ sleptIn t ≤ settleNanos tuning) := by
    rintro ⟨hlen, hs⟩
    have hle := hbounds hr hlen hs
    omega
  obtain ⟨hclock, -⟩ := clock_of_paced hr
  rcases partial_supervise_cases hp with ho | ⟨t₁, t₂, rfl, ho, hrest⟩
  · obtain ⟨hlen, hs⟩ := (opening_within w).bounds ho hclock
    exact absurd ⟨hlen.trans (Nat.le_add_right _ _), hs.trans (Nat.le_add_right _ _)⟩ hin
  obtain ⟨u, hr₁, hr₂⟩ := Env.runs_append_iff.mp hclock
  obtain ⟨hlen₁, hs₁⟩ := (opening_within w).bounds ho.cut hr₁
  have hsum : ∀ {t}, t.length ≤ roundCalls tuning .tryClient ∧
      sleptIn t ≤ roundNanos tuning .tryClient →
      (t₁ ++ t).length ≤ settleCalls tuning ∧ sleptIn (t₁ ++ t) ≤ settleNanos tuning := by
    rintro t ⟨hlen, hs⟩
    rw [List.length_append, sleptIn_append]
    exact ⟨Nat.add_le_add hlen₁ hlen, Nat.add_le_add hs₁ hs⟩
  rcases hrest with hp | ⟨x, t₃, t₄, rfl, h₃⟩
  · exact absurd (hsum (firstRound_bounds hp hr₂)) hin
  · obtain ⟨a, b, head, rfl, hsettled, hv, hn, ha⟩ := announced_of_firstRound ho h₃
    obtain ⟨v, hr₃, -⟩ := Env.runs_append_iff.mp hr₂
    obtain ⟨hlen, hs⟩ := hsum (firstRound_bounds h₃.cut hr₃)
    rw [← List.append_assoc] at hr
    obtain ⟨x, hx, -⟩ := Env.runs_append_iff.mp hr
    rw [← List.append_assoc] at hv hx hlen hs
    exact ⟨t₁ ++ a, b, t₄, head, x, by simp, hsettled, hv, hn, ha, hx, hbounds hx hlen hs⟩

end Run

section Example

/-- An access point that is due for a retry gives way to the station. -/
def dueHead : Head := ⟨⟨none, some raised⟩, .tryClient, true⟩

theorem never_stalls_retrying : ∃ t, Reaches 1 rootPaths defaultTuning t dueHead ∧
    ∃ t₁ t₂ u, dropping ++ associating = t₁ ++ t₂ ∧
      Held 1 rootPaths defaultTuning dueHead t₁ ∧ Env.Runs (paced 0) (secs 300) t₁ u ∧
      t₂.length ≤ roundCalls defaultTuning .tryClient ∧
      secs 300 ≤ u + roundNanos defaultTuning .tryClient +
        0 * roundCalls defaultTuning .tryClient := by
  obtain ⟨t, hreach, -⟩ := exists_raised
  have hr : Env.Runs (paced 0) (secs 300) (dropping ++ associating) (secs 300) :=
    runs_instant (by simp [dropping, stopping, associating, Instant, slept])
  exact ⟨t, hreach, never_stalls (by decide) hreach partial_retrying hr⟩

/-- One attempt, and a link that is seldom looked at. -/
def slowTuning : SuperviseTuning := ⟨45, 1, 0, 100, 300⟩

def addressed : Io Output := .ok ⟨⟨true, []⟩, "    inet 10.0.0.2/24".toList, []⟩

/-- A first iteration that ends with a connection. -/
def connecting : List (Event Sys) := associating ++
  [⟨.output "udhcpc".toList (dhcpArgs "wlan0".toList (dhcpAttempts slowTuning)), succeeded⟩,
    ⟨.output ip ["-4".toList, "addr".toList, "show".toList, "dev".toList, "wlan0".toList],
      addressed⟩,
    ⟨.spawn "led".toList ["client-up".toList], .error ⟨.notFound, []⟩⟩,
    ⟨.envVar "NOTIFY_SOCKET".toList, some "/run/systemd/notify".toList⟩,
    ⟨.sendTo "/run/systemd/notify".toList (readiness .clientUp), .ok ()⟩]

/-- The wait for the first look at the link. -/
def waiting : List (Event Sys) := [⟨.sleep (secs slowTuning.linkPollSec), ()⟩]

theorem settles_connected : ∃ a b c head u, openingTrace ++ connecting ++ waiting = a ++ (b ++ c) ∧
    (head.state = .clientUp ∨ head.state = .fallbackAp) ∧
    Visits 1 hookPaths slowTuning (a ++ b) [.tryClient, head.state] head ∧
    notifications hookPaths.wifiStateHook a = [.tryClient, head.state] ∧
    Announcement head.state b ∧ Env.Runs (paced 0) 0 (a ++ b) u ∧
    u ≤ 0 + settleNanos slowTuning + 0 * settleCalls slowTuning := by
  have hround : Returns (iterate 1 hookPaths slowTuning .init) connecting
      (.inl ⟨⟨some ⟨⟨wpaSupplicant, 9⟩, "10.0.0.2/24".toList⟩, none⟩, .clientUp, true⟩) :=
    .call _ (.call _ (.call _ (.call _ (.call _ (.call _ (.call _ (.call _ (.call _
      (.call _ (.ret _))))))))))
  have hp : Partial (supervise 1 hookPaths slowTuning).run
      (openingTrace ++ connecting ++ waiting) :=
    .call _ (.call _ (.again hround (.body (.body (.call _ (.nil _))))))
  have hr : Env.Runs (paced 0) 0 (openingTrace ++ connecting ++ waiting)
      (0 + secs slowTuning.linkPollSec) := by
    refine Env.runs_append_iff.mpr ⟨0, runs_instant ?_, .cons ⟨?_, ?_⟩ (.nil _)⟩
    · simp [openingTrace, connecting, associating, Instant, slept]
    · exact Nat.le_refl _
    · exact Nat.le_refl _
  exact settles hp hr (Or.inr (by decide))

end Example

end RobotCtl.Wifi
