import Mathlib.Tactic.Ring
import RobotCtl.Library.Cost
import RobotCtl.Wifi.Net
import RobotCtl.Wifi.Daemon

/-! # Deadlines

Waiting for a child polls it until a deadline. Against a clock that never goes
back, and that a sleep moves on by at least its length, every such wait ends
after so many polls, whatever the child does.
-/

namespace RobotCtl.Wifi

open Text Prog

/-- How long a call sleeps. -/
def slept : SysOp → ℕ
  | .sleep nanos => nanos
  | _ => 0

/-- How long the calls of a trace sleep together. -/
def sleptIn (t : List (Event Sys)) : ℕ := (t.map fun e => slept e.1).sum

@[simp] theorem slept_sleep (nanos : ℕ) : slept (.sleep nanos) = nanos := rfl

theorem sleptIn_cons (e : Event Sys) (t : List (Event Sys)) :
    sleptIn (e :: t) = slept e.1 + sleptIn t := by simp [sleptIn]

theorem sleptIn_append (t t' : List (Event Sys)) :
    sleptIn (t ++ t') = sleptIn t + sleptIn t' := by simp [sleptIn]

/-- Time never goes back, is read as it is, and passes while a call sleeps. -/
def clock : Env Sys ℕ
  | w, ⟨.now, time⟩, w' => w ≤ time ∧ time ≤ w'
  | w, ⟨o, _⟩, w' => w + slept o ≤ w'

/-- A cost for each call, and one for each nanosecond of sleep. -/
def tally (a b : ℕ) (e : Event Sys) : ℕ := a + b * slept e.1

/-- The program makes at most so many calls, and sleeps at most so long. -/
def Within {α : Type} (calls nanos : ℕ) (p : Prog Sys α) (w : ℕ) : Prop :=
  ∀ a b, Spends clock (tally a b) (a * calls + b * nanos) p w

variable {α β σ ε : Type} {p : Prog Sys α} {o : SysOp} {t : List (Event Sys)}
  {w w' c c' n n' : ℕ}

section Within

theorem price_tally (a b : ℕ) (t : List (Event Sys)) :
    price (tally a b) t = a * t.length + b * sleptIn t := by
  induction t with
  | nil => rfl
  | cons e t ih =>
    rw [price_cons, ih, sleptIn_cons, tally, List.length_cons]
    ring

theorem clock_le {r : SysReply o} (h : clock w ⟨o, r⟩ w') : w + slept o ≤ w' := by
  cases o with
  | now => exact Nat.le_trans h.1 h.2
  | _ => exact h

theorem runs_clock_le (h : Env.Runs clock w t w') : w + sleptIn t ≤ w' := by
  induction h with
  | nil w => exact Nat.le_refl w
  | @cons w u w' e t he _ ih =>
    rw [sleptIn_cons]
    have hu := clock_le he
    omega

theorem Within.mono (h : Within c n p w) (hc : c ≤ c') (hn : n ≤ n') : Within c' n' p w :=
  fun a b => (h a b).mono (Nat.add_le_add (Nat.mul_le_mul_left a hc) (Nat.mul_le_mul_left b hn))

theorem within_ret (x : α) : Within 0 0 (.ret x) w := fun _ _ => spends_ret x

theorem Within.call {k : SysReply o → Prog Sys α}
    (h : ∀ r w', clock w ⟨o, r⟩ w' → Within c n (k r) w') :
    Within (c + 1) (n + slept o) (.call o k) w := by
  intro a b
  have hcost : ∀ r : SysReply o, tally a b ⟨o, r⟩ ≤ a + b * slept o := fun _ => Nat.le_refl _
  refine (Spends.call hcost fun r w' he => h r w' he a b).mono (Nat.le_of_eq ?_)
  ring

theorem Within.sleep {nanos : ℕ} {k : Unit → Prog Sys α}
    (h : ∀ r w', Within c n (k r) w') : Within (c + 1) (n + nanos) (.call (.sleep nanos) k) w :=
  Within.call fun r w' _ => h r w'

theorem Within.bind {f : α → Prog Sys β} (h : Within c n p w)
    (hf : ∀ a t w', Returns p t a → Env.Runs clock w t w' → Within c' n' (f a) w') :
    Within (c + c') (n + n') (p.bind f) w := by
  intro a b
  have hb := (h a b).bind fun x t w' hx hr => hf x t w' hx hr a b
  refine hb.mono (Nat.le_of_eq ?_)
  ring

theorem Within.try_bind {x : ExceptT ε (Prog Sys) α} {f : α → ExceptT ε (Prog Sys) β}
    (h : Within c n x.run w) (hf : ∀ a t w', Returns x.run t (.ok a) →
      Env.Runs clock w t w' → Within c' n' (f a).run w') :
    Within (c + c') (n + n') (x >>= f).run w := by
  intro a b
  have hb := (h a b).try_bind fun x t w' hx hr => hf x t w' hx hr a b
  refine hb.mono (Nat.le_of_eq ?_)
  ring

theorem Within.lift (h : Within c n p w) :
    Within c n (liftM p : ExceptT ε (Prog Sys) α).run w := fun a b => (h a b).lift

/-- The bounds of a program are bounds of its traces. -/
theorem Within.bounds (h : Within c n p w) (hp : Partial p t) (hr : Env.Runs clock w t w') :
    t.length ≤ c ∧ sleptIn t ≤ n := by
  have hc := h 1 0 t w' hp hr
  have hn := h 0 1 t w' hp hr
  simp only [price_tally] at hc hn
  omega

end Within

section Polls

/-- A loop whose rounds count down, with a share of the bounds for each round. -/
theorem Within.loop {body : σ → Prog Sys (σ ⊕ β)} {k : β → Prog Sys α} (J : σ → ℕ → ℕ → Prop)
    (hcut : ∀ {s i w}, J s i w → Within (c * i + c') (n * i + n') (body s) w)
    (hagain : ∀ {s i w t s' w'}, J s i w → Returns (body s) t (.inl s') → Env.Runs clock w t w' →
      ∃ j, i = j + 1 ∧ t.length ≤ c ∧ sleptIn t ≤ n ∧ J s' j w')
    (hexit : ∀ {s i w t x w'}, J s i w → Returns (body s) t (.inr x) → Env.Runs clock w t w' →
      ∃ m m', t.length + m ≤ c' ∧ sleptIn t + m' ≤ n' ∧ Within m m' (k x) w')
    {s : σ} {i : ℕ} (h : J s i w) : Within (c * i + c') (n * i + n') (.loop body s k) w := by
  intro a b
  have hsplit : ∀ i, a * (c * i + c') + b * (n * i + n') =
      (a * c + b * n) * i + (a * c' + b * n') := fun i => by ring
  have hle : ∀ {x y z z'}, x ≤ z → y ≤ z' → a * x + b * y ≤ a * z + b * z' := fun hx hy =>
    Nat.add_le_add (Nat.mul_le_mul_left a hx) (Nat.mul_le_mul_left b hy)
  rw [hsplit]
  refine Spends.loop J (fun {s i w} hj => ?_) ?_ ?_ h
  · exact (hcut hj a b).mono (Nat.le_of_eq (hsplit i))
  · intro s i w t s' w' hj hb hr
    obtain ⟨j, rfl, hc, hn, hj'⟩ := hagain hj hb hr
    exact ⟨j, rfl, by rw [price_tally]; exact hle hc hn, hj'⟩
  · intro s i w t x w' hj hb hr
    obtain ⟨m, m', hc, hn, hk⟩ := hexit hj hb hr
    refine ⟨_, ?_, hk a b⟩
    calc price (tally a b) t + (a * m + b * m') = a * (t.length + m) + b * (sleptIn t + m') := by
          rw [price_tally]; ring
      _ ≤ a * c' + b * n' := hle hc hn

/-- A loop that polls until a deadline: a round that goes on was begun before it, and sleeps. -/
theorem within_poll {body : σ → Prog Sys (σ ⊕ β)} {k : β → Prog Sys α} {s : σ}
    {poll deadline rounds : ℕ}
    (hlate : ∀ s w, deadline ≤ w → Within 2 0 (body s) w)
    (hround : ∀ s w, Within 3 poll (body s) w)
    (hagain : ∀ s w t s' w', Returns (body s) t (.inl s') → Env.Runs clock w t w' →
      w < deadline ∧ sleptIn t = poll)
    (hexit : ∀ s w t b w', Returns (body s) t (.inr b) → Env.Runs clock w t w' →
      t.length ≤ 2 ∧ sleptIn t = 0 ∧ Within c n (k b) w')
    (h : deadline ≤ w + poll * rounds) :
    Within (3 * rounds + (2 + c)) (poll * rounds + n) (.loop body s k) w := by
  refine Within.loop (fun _ i w => deadline ≤ w + poll * i) ?_ ?_ ?_ h
  · rintro s (_ | i) w hd
    · exact (hlate s w (by omega)).mono (by omega) (by omega)
    · refine (hround s w).mono (by omega) ?_
      have hle := Nat.le_mul_of_pos_right poll (Nat.add_one_pos i)
      omega
  · rintro s i w t s' w' hd hb hr
    obtain ⟨hw, hs⟩ := hagain s w t s' w' hb hr
    have hpass := runs_clock_le hr
    cases i with
    | zero => omega
    | succ j =>
      rw [Nat.mul_succ] at hd
      have hb := (hround s w).bounds hb.cut hr
      exact ⟨j, rfl, hb.1, hb.2, by omega⟩
  · intro s i w t x w' _ hb hr
    obtain ⟨hlen, hs, hk⟩ := hexit s w t x w' hb hr
    exact ⟨c, n, by omega, by omega, hk⟩

end Polls

section Commands

theorem output_within (program : Str) (args : List Str) (w : ℕ) :
    Within 1 0 (output program args).run w := Within.call fun _ _ _ => within_ret _

theorem run_within (program : Str) (args : List Str) (w : ℕ) :
    Within 1 0 (run program args).run w :=
  (output_within program args w).try_bind fun _ _ _ _ _ => within_ret _

theorem runBestEffort_within (program : Str) (args : List Str) (w : ℕ) :
    Within 1 0 (runBestEffort program args) w :=
  (run_within program args w).bind fun _ _ _ _ _ => within_ret _

theorem ipv4Address_within (interface : Str) (w : ℕ) : Within 1 0 (ipv4Address interface) w :=
  (output_within _ _ w).bind fun _ _ _ _ _ => within_ret _

theorem requireInterface_within (interface : Str) (w : ℕ) :
    Within 1 0 (requireInterface interface).run w := by
  have hexists : Within 1 0 (interfaceExists interface) w :=
    (output_within _ _ w).bind fun _ _ _ _ _ => within_ret _
  have hrun : Within (1 + 0) (0 + 0) (requireInterface interface).run w :=
    hexists.lift.try_bind fun found _ _ _ _ => by cases found <;> exact within_ret _
  exact hrun

end Commands

section Waits

/-- A call that is no sleep, and what follows it. -/
theorem Within.step {k : SysReply o → Prog Sys α} (ho : slept o = 0)
    (h : ∀ r w', clock w ⟨o, r⟩ w' → Within c n (k r) w') : Within (c + 1) n (.call o k) w := by
  have hcall := Within.call h
  rwa [ho, Nat.add_zero] at hcall

theorem waitRound_cases {pid deadline : ℕ} {u : Unit} {x : Unit ⊕ Hook.Wait}
    (h : Returns (Hook.waitRound pid deadline u) t x) :
    (∃ r time, t = [⟨.tryWait pid, r⟩, ⟨.now, time⟩, ⟨.sleep Hook.poll, ()⟩] ∧ time < deadline ∧
      x = .inl ()) ∨ (∃ y, x = .inr y) ∧ t.length ≤ 2 ∧ sleptIn t = 0 := by
  obtain ⟨r, t₁, rfl, h₁⟩ := returns_call_iff.mp h
  rcases r with err | _ | status
  · obtain ⟨rfl, rfl⟩ := returns_ret_iff.mp h₁
    exact Or.inr ⟨⟨_, rfl⟩, by simp, rfl⟩
  · obtain ⟨time, t₂, rfl, h₂⟩ := returns_call_iff.mp h₁
    simp only [ret_bind] at h₂
    split at h₂
    · obtain ⟨rfl, rfl⟩ := returns_ret_iff.mp h₂
      exact Or.inr ⟨⟨_, rfl⟩, by simp, rfl⟩
    · next htime =>
      obtain ⟨_, t₃, rfl, h₃⟩ := returns_call_iff.mp h₂
      obtain ⟨rfl, rfl⟩ := returns_ret_iff.mp h₃
      exact Or.inl ⟨_, time, rfl, Nat.lt_of_not_le htime, rfl⟩
  · obtain ⟨rfl, rfl⟩ := returns_ret_iff.mp h₁
    exact Or.inr ⟨⟨_, rfl⟩, by simp, rfl⟩

/-- A child is waited for up to the deadline, and no longer. -/
theorem Hook.waitUntil_within {pid deadline rounds : ℕ} (h : deadline ≤ w + Hook.poll * rounds) :
    Within (3 * rounds + 2) (Hook.poll * rounds) (Hook.waitUntil pid deadline) w := by
  have hround : ∀ u w, Within 3 Hook.poll (Hook.waitRound pid deadline u) w := by
    intro u w
    refine Within.step rfl fun r v _ => ?_
    rcases r with err | _ | status
    · exact (within_ret _).mono (by omega) (by omega)
    · refine Within.step rfl fun time x _ => ?_
      simp only [ret_bind]
      split
      · exact (within_ret _).mono (by omega) (by omega)
      · have hsleep : Within (0 + 1) (0 + Hook.poll)
            ((Sys.sleep Hook.poll).bind fun _ => .ret (.inl ()) : Prog Sys (Unit ⊕ Hook.Wait)) x :=
          Within.call fun _ _ _ => within_ret _
        exact hsleep.mono (by omega) (by omega)
    · exact (within_ret _).mono (by omega) (by omega)
  have hlate : ∀ u w, deadline ≤ w → Within 2 0 (Hook.waitRound pid deadline u) w := by
    intro u w hd
    refine Within.step rfl fun r v hv => ?_
    have hv := clock_le hv
    rcases r with err | _ | status
    · exact (within_ret _).mono (by omega) (by omega)
    · refine Within.step rfl fun time x hx => ?_
      have htime : deadline ≤ time := Nat.le_trans (Nat.le_trans hd (by omega)) hx.1
      simp only [ret_bind, if_pos htime]
      exact within_ret _
    · exact (within_ret _).mono (by omega) (by omega)
  have hagain : ∀ u w t u' w', Returns (Hook.waitRound pid deadline u) t (.inl u') →
      Env.Runs clock w t w' → w < deadline ∧ sleptIn t = Hook.poll := by
    intro u w t u' w' hb hr
    rcases waitRound_cases hb with ⟨r, time, rfl, htime, -⟩ | ⟨⟨y, hy⟩, -⟩
    · obtain ⟨v, hv, hr⟩ := Env.runs_cons_iff.mp hr
      obtain ⟨x, hx, -⟩ := Env.runs_cons_iff.mp hr
      have hbefore : w ≤ v := Nat.le_trans (Nat.le_add_right w _) (clock_le hv)
      exact ⟨Nat.lt_of_le_of_lt (Nat.le_trans hbefore hx.1) htime, by simp [sleptIn, slept]⟩
    · cases hy
  have hexit : ∀ u w t y w', Returns (Hook.waitRound pid deadline u) t (.inr y) →
      Env.Runs clock w t w' → t.length ≤ 2 ∧ sleptIn t = 0 ∧
        Within 0 0 (.ret y : Prog Sys Hook.Wait) w' := by
    intro u w t y w' hb hr
    rcases waitRound_cases hb with ⟨_, _, -, -, hy⟩ | ⟨-, hlen, hs⟩
    · cases hy
    · exact ⟨hlen, hs, within_ret y⟩
  have hloop := within_poll (s := ()) hlate hround hagain hexit h
  exact hloop.mono (by omega) (by omega)

theorem Hook.terminate_within {pid grace rounds : ℕ} (h : grace = Hook.poll * rounds) :
    Within (3 * rounds + 6) (Hook.poll * rounds) (Hook.terminate pid grace) w := by
  have hkill : ∀ w, Within 2 0 ((Sys.kill pid .kill).bind fun _ =>
      (Sys.wait pid).bind fun _ => .ret ()) w := fun w =>
    Within.step rfl fun _ _ _ => Within.step rfl fun _ _ _ => within_ret ()
  refine Within.step rfl fun _ u _ => Within.step rfl fun time v hv => ?_
  have hd : time + grace ≤ v + Hook.poll * rounds := by
    rw [h]
    exact Nat.add_le_add_right hv.2 _
  refine ((Hook.waitUntil_within hd).bind fun x _ w' _ _ => ?_).mono (c := 3 * rounds + 2 + 2)
    (n := Hook.poll * rounds + 0) (by omega) (Nat.le_refl _)
  cases x with
  | running => exact hkill w'
  | exited _ | unwaitable _ => exact (within_ret ()).mono (by omega) (by omega)

theorem Hook.notifyWithin_within (hook state : Str) {limit grace rounds rounds' : ℕ}
    (h : limit = Hook.poll * rounds) (h' : grace = Hook.poll * rounds') :
    Within (3 * rounds + 3 * rounds' + 10) (Hook.poll * rounds + Hook.poll * rounds')
      (Hook.notifyWithin hook state limit grace) w := by
  unfold Hook.notifyWithin
  split
  · exact (within_ret ()).mono (by omega) (by omega)
  refine Within.step rfl fun r u _ => ?_
  rcases r with err | pid
  · exact (within_ret ()).mono (by omega) (by omega)
  refine Within.step rfl fun time v hv => ?_
  have hd : time + limit ≤ v + Hook.poll * rounds := by
    rw [h]
    exact Nat.add_le_add_right hv.2 _
  refine ((Hook.waitUntil_within hd).bind fun x _ w' _ _ => ?_).mono
    (c := 3 * rounds + 2 + (3 * rounds' + 6)) (by omega) (Nat.le_refl _)
  cases x with
  | running => exact Hook.terminate_within h'
  | exited _ | unwaitable _ => exact (within_ret ()).mono (by omega) (by omega)

/-- At worst the run limit and the grace period after it. -/
theorem Hook.notify_within (hook state : Str) (w : ℕ) :
    Within 2110 (Hook.runLimit + Hook.termGrace) (Hook.notify hook state) w := by
  have hlimit : Hook.runLimit = Hook.poll * 500 := by decide
  have hgrace : Hook.termGrace = Hook.poll * 200 := by decide
  have hn := Hook.notifyWithin_within (w := w) hook state hlimit hgrace
  rw [← hlimit, ← hgrace] at hn
  exact hn

theorem awaitExit_cases {daemon : Daemon} {deadline : ℕ} {u : Unit} {x : Unit ⊕ Bool}
    (h : Returns (daemon.awaitExit deadline u) t x) :
    (∃ r time, t = [⟨.now, time⟩, ⟨.tryWait daemon.pid, r⟩, ⟨.sleep Daemon.termPoll, ()⟩] ∧
      time < deadline ∧ x = .inl ()) ∨ (∃ y, x = .inr y) ∧ t.length ≤ 2 ∧ sleptIn t = 0 := by
  obtain ⟨time, t₁, rfl, h₁⟩ := returns_call_iff.mp h
  simp only [ret_bind] at h₁
  split at h₁
  · next htime =>
    obtain ⟨r, t₂, rfl, h₂⟩ := returns_call_iff.mp h₁
    simp only [ret_bind] at h₂
    split at h₂
    · obtain ⟨rfl, rfl⟩ := returns_ret_iff.mp h₂
      exact Or.inr ⟨⟨_, rfl⟩, by simp, rfl⟩
    · obtain ⟨_, t₃, rfl, h₃⟩ := returns_call_iff.mp h₂
      obtain ⟨rfl, rfl⟩ := returns_ret_iff.mp h₃
      exact Or.inl ⟨r, time, rfl, htime, rfl⟩
  · obtain ⟨rfl, rfl⟩ := returns_ret_iff.mp h₁
    exact Or.inr ⟨⟨_, rfl⟩, by simp, rfl⟩

/-- A daemon is waited for up to the deadline, and then killed. -/
theorem Daemon.exitOrKill_within (daemon : Daemon) {deadline rounds : ℕ}
    (h : deadline ≤ w + Daemon.termPoll * rounds) :
    Within (3 * rounds + 4) (Daemon.termPoll * rounds) (daemon.exitOrKill deadline) w := by
  have hround : ∀ u w, Within 3 Daemon.termPoll (daemon.awaitExit deadline u) w := by
    intro u w
    refine Within.step rfl fun time v _ => ?_
    simp only [ret_bind]
    split
    · refine Within.step rfl fun r x _ => ?_
      simp only [ret_bind]
      split
      · exact (within_ret _).mono (by omega) (by omega)
      · have hsleep : Within (0 + 1) (0 + Daemon.termPoll)
            ((Sys.sleep Daemon.termPoll).bind fun _ => .ret (.inl ()) :
              Prog Sys (Unit ⊕ Bool)) x := Within.call fun _ _ _ => within_ret _
        exact hsleep.mono (by omega) (by omega)
    · exact (within_ret _).mono (by omega) (by omega)
  have hlate : ∀ u w, deadline ≤ w → Within 2 0 (daemon.awaitExit deadline u) w := by
    intro u w hd
    refine Within.step rfl fun time v hv => ?_
    have htime : ¬time < deadline := Nat.not_lt.mpr (Nat.le_trans hd hv.1)
    simp only [ret_bind, if_neg htime]
    exact (within_ret _).mono (by omega) (by omega)
  have hagain : ∀ u w t u' w', Returns (daemon.awaitExit deadline u) t (.inl u') →
      Env.Runs clock w t w' → w < deadline ∧ sleptIn t = Daemon.termPoll := by
    intro u w t u' w' hb hr
    rcases awaitExit_cases hb with ⟨r, time, rfl, htime, -⟩ | ⟨⟨y, hy⟩, -⟩
    · obtain ⟨v, hv, -⟩ := Env.runs_cons_iff.mp hr
      exact ⟨Nat.lt_of_le_of_lt hv.1 htime, by simp [sleptIn, slept]⟩
    · cases hy
  unfold Daemon.exitOrKill
  refine (within_poll (s := ()) (c := 2) (n := 0) hlate hround hagain ?_ h).mono (by omega)
    (Nat.le_refl _)
  intro u w t y w' hb _
  rcases awaitExit_cases hb with ⟨_, _, -, -, hy⟩ | ⟨-, hlen, hs⟩
  · cases hy
  · refine ⟨hlen, hs, ?_⟩
    cases y
    · exact Within.step rfl fun _ _ _ => Within.step rfl fun _ _ _ => within_ret ()
    · exact (within_ret ()).mono (by omega) (by omega)

theorem Daemon.stop_within (daemon : Daemon) (w : ℕ) :
    Within 157 Daemon.termGrace daemon.stop w := by
  have hgrace : Daemon.termGrace = Daemon.termPoll * 50 := by decide
  refine Within.step rfl fun r u _ => ?_
  simp only [ret_bind]
  split
  · exact (within_ret ()).mono (by omega) (by omega)
  · refine Within.step rfl fun _ v _ => Within.step rfl fun time x hx => ?_
    have hd : time + Daemon.termGrace ≤ x + Daemon.termPoll * 50 := by
      rw [hgrace]
      exact Nat.add_le_add_right hx.2 _
    have hk := Daemon.exitOrKill_within daemon hd
    rw [← hgrace] at hk
    exact hk

end Waits

section Paced

variable {δ : ℕ}

/-- The clock, where a call takes at most so long besides what it sleeps. -/
def paced (δ : ℕ) : Env Sys ℕ := fun w e w' => clock w e w' ∧ w' ≤ w + slept e.1 + δ

theorem clock_of_paced (h : Env.Runs (paced δ) w t w') :
    Env.Runs clock w t w' ∧ w' ≤ w + sleptIn t + δ * t.length := by
  induction h with
  | nil w => exact ⟨.nil w, Nat.le_refl w⟩
  | cons he _ ih =>
    refine ⟨.cons he.1 ih.1, ?_⟩
    rw [sleptIn_cons, List.length_cons, Nat.mul_succ]
    have hle := he.2
    omega

/-- Within its bounds a program is done in time. -/
theorem Within.elapsed (h : Within c n p w) (hp : Partial p t)
    (hr : Env.Runs (paced δ) w t w') : t.length ≤ c ∧ w' ≤ w + n + δ * c := by
  obtain ⟨hclock, hle⟩ := clock_of_paced hr
  obtain ⟨hlen, hs⟩ := h.bounds hp hclock
  have hδ := Nat.mul_le_mul_left δ hlen
  exact ⟨hlen, by omega⟩

/-- The call takes no time. -/
def Instant (w : ℕ) : Event Sys → Prop
  | ⟨.now, time⟩ => time = w
  | ⟨o, _⟩ => slept o = 0

theorem runs_instant (h : ∀ e ∈ t, Instant w e) : Env.Runs (paced δ) w t w := by
  induction t with
  | nil => exact .nil w
  | cons e t ih =>
    obtain ⟨he, ht⟩ := List.forall_mem_cons.mp h
    obtain ⟨o, r⟩ := e
    have hclock : clock w ⟨o, r⟩ w := by
      cases o with
      | now => exact ⟨Nat.le_of_eq (Eq.symm he), Nat.le_of_eq he⟩
      | _ => exact Nat.le_of_eq (by rw [show slept _ = 0 from he, Nat.add_zero])
    exact .cons ⟨hclock, by omega⟩ (ih ht)

/-- A hook, whatever it does, holds the supervisor up for at most the run limit and the grace
period, besides the calls that this takes. -/
theorem hook_bounded {hook state : Str} (hp : Partial (Hook.notify hook state) t)
    (hr : Env.Runs (paced δ) w t w') :
    t.length ≤ 2110 ∧ w' ≤ w + (Hook.runLimit + Hook.termGrace) + δ * 2110 :=
  (Hook.notify_within hook state w).elapsed hp hr

/-- Rounds of waiting for a child that does not exit, from a moment to the deadline. -/
def polling (p : ℕ) : ℕ → ℕ → List (Event Sys)
  | 0, time => [⟨.tryWait p, .ok none⟩, ⟨.now, time⟩]
  | n + 1, time => [⟨.tryWait p, .ok none⟩, ⟨.now, time⟩, ⟨.sleep Hook.poll, ()⟩] ++
      polling p n (time + Hook.poll)

theorem returns_polling {p n time deadline : ℕ} (h : time + Hook.poll * n = deadline) :
    Returns (Hook.waitUntil p deadline) (polling p n time) .running := by
  induction n generalizing time with
  | zero =>
    have hlate : deadline ≤ time := Nat.le_of_eq h.symm
    have hround : Returns (Hook.waitRound p deadline ()) (polling p 0 time) (.inr .running) := by
      refine returns_call_iff.mpr ⟨.ok none, _, rfl, returns_call_iff.mpr ⟨time, _, rfl, ?_⟩⟩
      simp only [ret_bind, if_pos hlate]
      exact .ret _
    rw [← List.append_nil (polling p 0 time)]
    exact .exit hround (.ret _)
  | succ n ih =>
    have hnext : time + Hook.poll + Hook.poll * n = deadline := by
      rw [← h, Nat.mul_succ]
      omega
    have hearly : ¬ deadline ≤ time := by
      have hpoll : 0 < Hook.poll := by decide
      rw [← h, Nat.mul_succ]
      omega
    have hround : Returns (Hook.waitRound p deadline ())
        [⟨.tryWait p, .ok none⟩, ⟨.now, time⟩, ⟨.sleep Hook.poll, ()⟩] (.inl ()) := by
      refine returns_call_iff.mpr ⟨.ok none, _, rfl, returns_call_iff.mpr ⟨time, _, rfl, ?_⟩⟩
      simp only [ret_bind, if_neg hearly]
      exact .call _ (.ret _)
    exact .again hround (ih hnext)

theorem runs_polling (p n time : ℕ) :
    Env.Runs (paced 0) time (polling p n time) (time + Hook.poll * n) := by
  have hwait {time : ℕ} : paced 0 time ⟨.tryWait p, .ok none⟩ time :=
    ⟨Nat.le_refl _, Nat.le_refl _⟩
  have hnow {time : ℕ} : paced 0 time ⟨.now, time⟩ time :=
    ⟨⟨Nat.le_refl _, Nat.le_refl _⟩, Nat.le_refl _⟩
  induction n generalizing time with
  | zero => exact .cons hwait (.cons hnow (.nil _))
  | succ n ih =>
    have hsleep : paced 0 time ⟨.sleep Hook.poll, ()⟩ (time + Hook.poll) :=
      ⟨Nat.le_refl _, Nat.le_refl _⟩
    have hrest := ih (time + Hook.poll)
    rw [Nat.add_assoc, Nat.add_comm Hook.poll, ← Nat.mul_succ] at hrest
    exact .cons hwait (.cons hnow (.cons hsleep hrest))

/-- What a hook that does not heed the signal does from the run limit on. -/
def terminating : List (Event Sys) :=
  ⟨.kill 7 .term, ()⟩ :: ⟨.now, secs 5⟩ :: (polling 7 200 (secs 5) ++
    [⟨.kill 7 .kill, ()⟩, ⟨.wait 7, .ok ⟨false, []⟩⟩])

/-- A hook that neither ends nor heeds the signal, on a system whose calls take no time. -/
def hanging : List (Event Sys) :=
  ⟨.spawn "led".toList ["off".toList], .ok 7⟩ :: ⟨.now, (0 : ℕ)⟩ ::
    (polling 7 500 0 ++ terminating)

theorem returns_hanging : Returns (Hook.notify "led".toList "off".toList) hanging () := by
  have hlimit : Returns (Hook.waitUntil 7 (0 + Hook.runLimit)) (polling 7 500 0) .running :=
    returns_polling (by decide)
  have hgrace : Returns (Hook.waitUntil 7 (secs 5 + Hook.termGrace)) (polling 7 200 (secs 5))
      .running := returns_polling (by decide)
  have hterminate : Returns (Hook.terminate 7 Hook.termGrace) terminating () := by
    refine returns_call_iff.mpr ⟨(), _, rfl, returns_call_iff.mpr ⟨secs 5, _, rfl, ?_⟩⟩
    simp only [ret_bind]
    exact returns_bind_iff.mpr ⟨_, _, _, rfl, hgrace, .call _ (.call _ (.ret _))⟩
  have hne : "led".toList ≠ [] := by decide
  rw [Hook.notify, Hook.notifyWithin, if_neg hne]
  refine returns_call_iff.mpr ⟨.ok 7, _, rfl, returns_call_iff.mpr ⟨(0 : ℕ), _, rfl, ?_⟩⟩
  simp only [ret_bind]
  exact returns_bind_iff.mpr ⟨_, _, _, rfl, hlimit, hterminate⟩

theorem runs_hanging : Env.Runs (paced 0) 0 hanging (secs 7) := by
  have hquick {w : ℕ} : w + 0 ≤ w ∧ w ≤ w + 0 + 0 := ⟨Nat.le_refl w, Nat.le_refl w⟩
  have hnow {w : ℕ} : paced 0 w ⟨.now, w⟩ w := ⟨⟨Nat.le_refl w, Nat.le_refl w⟩, Nat.le_refl w⟩
  have hlimit : Env.Runs (paced 0) 0 (polling 7 500 0) (secs 5) := runs_polling 7 500 0
  have hgrace : Env.Runs (paced 0) (secs 5) (polling 7 200 (secs 5)) (secs 7) :=
    runs_polling 7 200 (secs 5)
  exact .cons hquick (.cons hnow (Env.runs_append_iff.mpr ⟨_, hlimit, .cons hquick (.cons hnow
    (Env.runs_append_iff.mpr ⟨_, hgrace, .cons hquick (.cons hquick (.nil _))⟩))⟩))

/-- The hook is waited for up to the limit, asked to exit, waited for again and killed. -/
theorem hook_bounded_hanging : Returns (Hook.notify "led".toList "off".toList) hanging () ∧
    hanging.length ≤ 2110 ∧ secs 7 ≤ 0 + (Hook.runLimit + Hook.termGrace) + 0 * 2110 :=
  ⟨returns_hanging, hook_bounded returns_hanging.cut runs_hanging⟩

end Paced

end RobotCtl.Wifi
