import RobotCtl.Wifi.Ap

/-! # Signals to child processes

While the most recent check of a child says that it is still running, its
process ID is reserved, and a signal reaches no other process. The hook is
signalled only then. A daemon is signalled also after a check that failed, so
the signals of a stop are safe exactly if the checks they rest on did not fail:
its first one and its last one.
-/

namespace RobotCtl.Wifi

open Text Prog

/-- The reply to a check of the child. -/
def checkOf (pid : ℕ) : Event Sys → Option (Io (Option ExitStatus))
  | ⟨.tryWait p, r⟩ => if p = pid then some r else none
  | _ => none

/-- What the checks of the child have said, in order. -/
def checks (pid : ℕ) (t : List (Event Sys)) : List (Io (Option ExitStatus)) :=
  t.filterMap (checkOf pid)

/-- The most recent check says that the child is still running. -/
def Running (pid : ℕ) (t : List (Event Sys)) : Prop := (checks pid t).getLast? = some (.ok none)

/-- Every signal is sent to a child that is still running. -/
def SignalsOwn (t : List (Event Sys)) : Prop :=
  ∀ t₁ t₂ pid signal, t = t₁ ++ ⟨.kill pid signal, ()⟩ :: t₂ → Running pid t₁

/-- Neither the first check of the child nor the last one failed. -/
structure Checked (pid : ℕ) (t : List (Event Sys)) : Prop where
  first : ∀ err, (checks pid t).head? ≠ some (.error err)
  last : ∀ err, (checks pid t).getLast? ≠ some (.error err)

/-- The call sends no signal. -/
def NoSignal : SysOp → Prop
  | .kill _ _ => False
  | _ => True

variable {t u : List (Event Sys)} {e : Event Sys} {pid : ℕ} {daemon : Daemon}

section Traces

@[simp] theorem checks_nil (pid : ℕ) : checks pid [] = [] := rfl

@[simp] theorem checks_append (pid : ℕ) (t u : List (Event Sys)) :
    checks pid (t ++ u) = checks pid t ++ checks pid u := List.filterMap_append

theorem checks_cons_tryWait (pid : ℕ) (r : Io (Option ExitStatus))
    (t : List (Event Sys)) : checks pid (⟨.tryWait pid, r⟩ :: t) = r :: checks pid t :=
  List.filterMap_cons_some (if_pos rfl)

/-- Earlier checks do not matter after another one. -/
theorem running_append (h : checks pid u ≠ []) : Running pid (t ++ u) ↔ Running pid u := by
  rw [Running, Running, checks_append, List.getLast?_append_of_ne_nil _ h]

theorem signalsOwn_nil : SignalsOwn [] := fun _ _ _ _ h => by
  simp at h

theorem SignalsOwn.of_prefix (h : SignalsOwn t) (hu : u <+: t) : SignalsOwn u := by
  obtain ⟨v, rfl⟩ := hu
  rintro t₁ t₂ pid signal rfl
  exact h t₁ (t₂ ++ v) pid signal (by simp)

theorem signalsOwn_concat_iff : SignalsOwn (t ++ [e]) ↔
    SignalsOwn t ∧ ∀ pid signal, e = ⟨.kill pid signal, ()⟩ → Running pid t := by
  constructor
  · intro h
    refine ⟨h.of_prefix (List.prefix_append t _), ?_⟩
    rintro pid signal rfl
    exact h t [] pid signal rfl
  · rintro ⟨h, he⟩ t₁ t₂ pid signal ht
    rcases List.eq_nil_or_concat t₂ with rfl | ⟨v, e', rfl⟩
    · obtain ⟨rfl, hk⟩ := List.append_inj' ht rfl
      exact he pid signal (List.cons.inj hk).1
    · rw [List.concat_eq_append, ← List.cons_append, ← List.append_assoc] at ht
      exact h t₁ v pid signal (List.append_inj' ht rfl).1

theorem signalsOwn_concat_kill {signal : Signal} :
    SignalsOwn (t ++ [⟨.kill pid signal, ()⟩]) ↔ SignalsOwn t ∧ Running pid t := by
  rw [signalsOwn_concat_iff]
  refine and_congr_right fun _ => ⟨fun h => h pid signal rfl, ?_⟩
  rintro h p s he
  cases he
  exact h

theorem signalsOwn_concat_noSignal (h : NoSignal e.1) : SignalsOwn (t ++ [e]) ↔ SignalsOwn t := by
  rw [signalsOwn_concat_iff]
  refine and_iff_left ?_
  rintro p s rfl
  exact h.elim

theorem SignalsOwn.concat (h : SignalsOwn t) (e : Event Sys) (he : NoSignal e.1) :
    SignalsOwn (t ++ [e]) := (signalsOwn_concat_noSignal he).mpr h

theorem signalsOwn_concat_tryWait {r : Io (Option ExitStatus)} :
    SignalsOwn (t ++ [⟨.tryWait pid, r⟩]) ↔ SignalsOwn t := signalsOwn_concat_noSignal trivial

theorem signalsOwn_concat_wait {r : Io ExitStatus} :
    SignalsOwn (t ++ [⟨.wait pid, r⟩]) ↔ SignalsOwn t := signalsOwn_concat_noSignal trivial

theorem signalsOwn_append_noSignal (h : ∀ e ∈ u, NoSignal e.1) :
    SignalsOwn (t ++ u) ↔ SignalsOwn t := by
  induction u using List.reverseRecOn with
  | nil => rw [List.append_nil]
  | append_singleton u e ih =>
    obtain ⟨hu, he⟩ := List.forall_mem_append.mp h
    rw [← List.append_assoc, signalsOwn_concat_noSignal (he e (List.mem_singleton_self e)), ih hu]

end Traces

namespace Daemon

/-- Waiting for a daemon that has not exited. -/
structure Awaits (pid : ℕ) (t : List (Event Sys)) : Prop where
  noSignal : ∀ e ∈ t, NoSignal e.1
  alive : ∀ r ∈ checks pid t, hasExited r = false

theorem Awaits.append (h : Awaits pid t) (h' : Awaits pid u) : Awaits pid (t ++ u) := by
  refine ⟨List.forall_mem_append.mpr ⟨h.noSignal, h'.noSignal⟩, ?_⟩
  rw [checks_append]
  exact List.forall_mem_append.mpr ⟨h.alive, h'.alive⟩

theorem awaits_now (time : ℕ) : Awaits pid [⟨.now, time⟩] :=
  ⟨by simp [NoSignal], by simp [checks, checkOf]⟩

/-- Only a round that checks the daemon and finds it exited ends with an exit. -/
theorem returns_awaitExit {deadline : ℕ} {x : Unit ⊕ Bool}
    (h : Returns (daemon.awaitExit deadline ()) t x) :
    Awaits daemon.pid t ∧ x ≠ .inr true ∨
      x = .inr true ∧ ∃ time r, hasExited r = true ∧
        t = [⟨.now, time⟩, ⟨.tryWait daemon.pid, r⟩] := by
  obtain ⟨time, t₁, rfl, h₁⟩ := returns_call_iff.mp h
  rw [ret_bind] at h₁
  by_cases hd : time < deadline
  · rw [if_pos hd] at h₁
    obtain ⟨r, t₂, rfl, h₂⟩ := returns_call_iff.mp h₁
    rw [ret_bind] at h₂
    cases hr : hasExited r with
    | true =>
      rw [if_pos hr] at h₂
      obtain ⟨rfl, rfl⟩ := returns_ret_iff.mp h₂
      exact Or.inr ⟨rfl, time, r, hr, rfl⟩
    | false =>
      rw [if_neg (by simp [hr])] at h₂
      obtain ⟨_, t₃, rfl, h₃⟩ := returns_call_iff.mp h₂
      obtain ⟨rfl, rfl⟩ := returns_ret_iff.mp h₃
      refine Or.inl ⟨⟨by simp [NoSignal], ?_⟩, by simp⟩
      simpa [checks, checkOf] using hr
  · rw [if_neg hd] at h₁
    obtain ⟨rfl, rfl⟩ := returns_ret_iff.mp h₁
    exact Or.inl ⟨awaits_now time, by simp⟩

theorem awaits_of_iterates {deadline : ℕ} {a b : Unit}
    (h : Iterates (daemon.awaitExit deadline) a t b) : Awaits daemon.pid t := by
  induction h with
  | refl => exact ⟨by simp, by simp⟩
  | step _ hr ih =>
    rcases returns_awaitExit hr with ⟨ha, -⟩ | ⟨he, -⟩
    · exact ih.append ha
    · cases he

/-- Waiting ends with an exit, or the daemon is killed. -/
theorem returns_exitOrKill {deadline : ℕ} (h : Returns (daemon.exitOrKill deadline) t ()) :
    ∃ u, Awaits daemon.pid u ∧
      ((∃ r, hasExited r = true ∧ t = u ++ [⟨.tryWait daemon.pid, r⟩]) ∨
        ∃ r, t = u ++ [⟨.kill daemon.pid .kill, ()⟩, ⟨.wait daemon.pid, r⟩]) := by
  obtain ⟨s, b, u, t₁, t₂, rfl, hu, hb, hk⟩ := h.loop_rounds
  have hrounds := awaits_of_iterates hu
  rcases returns_awaitExit hb with ⟨ha, hne⟩ | ⟨he, time, r, hr, rfl⟩
  · obtain rfl : b = false := by simpa using hne
    obtain ⟨_, t₃, rfl, hk₁⟩ := returns_call_iff.mp hk
    obtain ⟨r, t₄, rfl, hk₂⟩ := returns_call_iff.mp hk₁
    obtain ⟨rfl, -⟩ := returns_ret_iff.mp hk₂
    exact ⟨u ++ t₁, hrounds.append ha, Or.inr ⟨r, by simp⟩⟩
  · obtain rfl := Sum.inr.inj he
    obtain ⟨rfl, -⟩ := returns_ret_iff.mp hk
    exact ⟨u ++ [⟨.now, time⟩], hrounds.append (awaits_now time), Or.inl ⟨r, hr, by simp⟩⟩

/-- A check of a daemon that has not exited, and the signal that asks it to. -/
def asked (pid : ℕ) (r : Io (Option ExitStatus)) : List (Event Sys) :=
  [⟨.tryWait pid, r⟩, ⟨.kill pid .term, ()⟩]

/-- A daemon has exited, or it is asked to, awaited and killed if it does not. -/
theorem returns_stop (h : Returns daemon.stop t ()) :
    ∃ r, hasExited r = true ∧ t = [⟨.tryWait daemon.pid, r⟩] ∨
      hasExited r = false ∧ ∃ u, Awaits daemon.pid u ∧
        ((∃ r', hasExited r' = true ∧ t = asked daemon.pid r ++ u ++ [⟨.tryWait daemon.pid, r'⟩]) ∨
          ∃ r', t = asked daemon.pid r ++ u ++
            [⟨.kill daemon.pid .kill, ()⟩, ⟨.wait daemon.pid, r'⟩]) := by
  obtain ⟨r, t₁, rfl, h₁⟩ := returns_call_iff.mp h
  rw [ret_bind] at h₁
  refine ⟨r, ?_⟩
  cases hr : hasExited r with
  | true =>
    rw [if_pos hr] at h₁
    obtain ⟨rfl, -⟩ := returns_ret_iff.mp h₁
    exact Or.inl ⟨rfl, rfl⟩
  | false =>
    rw [if_neg (by simp [hr])] at h₁
    obtain ⟨_, t₂, rfl, h₂⟩ := returns_call_iff.mp h₁
    obtain ⟨time, t₃, rfl, h₃⟩ := returns_call_iff.mp h₂
    obtain ⟨u, hu, hend⟩ := returns_exitOrKill h₃
    refine Or.inr ⟨rfl, ⟨.now, time⟩ :: u, (awaits_now time).append hu, ?_⟩
    rcases hend with ⟨r', hr', rfl⟩ | ⟨r', rfl⟩
    · exact Or.inl ⟨r', hr', rfl⟩
    · exact Or.inr ⟨r', rfl⟩

/-- A check that found no exit saw the daemon running, unless it failed. -/
theorem eq_ok_none_iff {r : Io (Option ExitStatus)} (h : hasExited r = false) :
    r = .ok none ↔ ∀ err, r ≠ .error err := by
  rcases r with err | _ | status
  · exact iff_of_false nofun fun hn => hn err rfl
  · exact iff_of_true rfl nofun
  · cases h

theorem running_iff (hne : checks pid t ≠ []) (h : ∀ r ∈ checks pid t, hasExited r = false) :
    Running pid t ↔ ∀ err, (checks pid t).getLast? ≠ some (.error err) := by
  have hlast := h _ (List.getLast_mem hne)
  simp only [Running, List.getLast?_eq_some_getLast hne, Option.some.injEq, ne_eq]
  exact eq_ok_none_iff hlast

theorem checks_asked_append (pid : ℕ) (r : Io (Option ExitStatus)) (u : List (Event Sys)) :
    checks pid (asked pid r ++ u) = r :: checks pid u := by
  rw [asked, List.cons_append, checks_cons_tryWait]
  rfl

theorem signalsOwn_asked {r : Io (Option ExitStatus)} (hr : hasExited r = false)
    (hu : ∀ e ∈ u, NoSignal e.1) : SignalsOwn (t ++ (asked pid r ++ u)) ↔
      SignalsOwn t ∧ ∀ err, r ≠ .error err := by
  have ht : t ++ (asked pid r ++ u) =
      t ++ [⟨.tryWait pid, r⟩] ++ [⟨.kill pid .term, ()⟩] ++ u := by simp [asked]
  have hc : checks pid [⟨.tryWait pid, r⟩] = [r] := checks_cons_tryWait pid r []
  have hrunning : Running pid (t ++ [⟨.tryWait pid, r⟩]) ↔ ∀ err, r ≠ .error err := by
    rw [running_append (by simp [hc]), Running, hc, ← eq_ok_none_iff hr]
    exact Option.some_inj
  rw [ht, signalsOwn_append_noSignal hu, signalsOwn_concat_kill,
    signalsOwn_concat_tryWait, hrunning]

theorem checked_iff {r : Io (Option ExitStatus)} {rs : List (Io (Option ExitStatus))}
    (h : checks pid t = r :: rs) : Checked pid t ↔
      (∀ err, r ≠ .error err) ∧ ∀ err, (r :: rs).getLast? ≠ some (.error err) := by
  have hhead : ∀ err, (checks pid t).head? ≠ some (.error err) ↔ r ≠ .error err := by
    intro err
    rw [h, List.head?_cons, ne_eq, Option.some_inj]
  constructor
  · rintro ⟨hf, hl⟩
    exact ⟨fun err => (hhead err).mp (hf err), h ▸ hl⟩
  · rintro ⟨hf, hl⟩
    exact ⟨fun err => (hhead err).mpr (hf err), h ▸ hl⟩

theorem running_asked {r : Io (Option ExitStatus)} (hr : hasExited r = false)
    (hu : Awaits pid u) : Running pid (t ++ (asked pid r ++ u)) ↔
      ∀ err, (r :: checks pid u).getLast? ≠ some (.error err) := by
  have hc := checks_asked_append pid r u
  have hne : checks pid (asked pid r ++ u) ≠ [] := by simp [hc]
  rw [running_append hne, running_iff hne (hc ▸ List.forall_mem_cons.mpr ⟨hr, hu.alive⟩), hc]

/-- The kill rests on the last check. -/
theorem signalsOwn_killed {r : Io (Option ExitStatus)} {v : List (Event Sys)}
    (hr : hasExited r = false) (hu : Awaits pid u) (hv : ∀ e ∈ v, NoSignal e.1)
    (hc : checks pid v = []) :
    SignalsOwn (t ++ (asked pid r ++ u ++ ([⟨.kill pid .kill, ()⟩] ++ v))) ↔
      SignalsOwn t ∧ Checked pid (asked pid r ++ u ++ ([⟨.kill pid .kill, ()⟩] ++ v)) := by
  have hchecks : checks pid (asked pid r ++ u ++ ([⟨.kill pid .kill, ()⟩] ++ v)) =
      r :: checks pid u := by
    rw [checks_append, checks_append pid [_], hc, checks_asked_append]
    exact List.append_nil _
  rw [checked_iff hchecks, ← List.append_assoc, ← List.append_assoc,
    signalsOwn_append_noSignal hv, signalsOwn_concat_kill, signalsOwn_asked hr hu.noSignal,
    running_asked hr hu, and_assoc]

theorem ne_error_of_hasExited {r : Io (Option ExitStatus)} (h : hasExited r = true)
    (err : IoError) : some r ≠ some (.error err) := by
  rintro ⟨⟩
  cases h

/-- The signals of a stop are safe exactly if the checks that they rest on did not fail. -/
theorem signalsOwn_append_stop (h : Returns daemon.stop u ()) :
    SignalsOwn (t ++ u) ↔ SignalsOwn t ∧ Checked daemon.pid u := by
  obtain ⟨r, ⟨hr, rfl⟩ | ⟨hr, v, hv, hend⟩⟩ := returns_stop h
  · have hc : checks daemon.pid [⟨.tryWait daemon.pid, r⟩] = [r] := checks_cons_tryWait _ r []
    rw [signalsOwn_concat_tryWait]
    exact (and_iff_left ⟨hc ▸ ne_error_of_hasExited hr, hc ▸ ne_error_of_hasExited hr⟩).symm
  · have hv' := checks_asked_append daemon.pid r v
    rcases hend with ⟨r', hr', rfl⟩ | ⟨r', rfl⟩
    · -- The last check saw the exit, so that only the first one matters.
      have hc : checks daemon.pid (asked daemon.pid r ++ v ++ [⟨.tryWait daemon.pid, r'⟩]) =
          r :: (checks daemon.pid v ++ [r']) := by
        rw [checks_append, hv', checks_cons_tryWait, checks_nil, List.cons_append]
      have hlast : ∀ err, (r :: (checks daemon.pid v ++ [r'])).getLast? ≠ some (.error err) := by
        intro err
        rw [← List.cons_append, List.getLast?_concat]
        exact ne_error_of_hasExited hr' err
      rw [← List.append_assoc, signalsOwn_concat_tryWait, signalsOwn_asked hr hv.noSignal,
        checked_iff hc]
      exact and_congr_right fun _ => (and_iff_left hlast).symm
    · exact signalsOwn_killed (v := [⟨.wait daemon.pid, r'⟩]) hr hv (by simp [NoSignal]) rfl

/-- What was added to a history is safe if its checks are. -/
def Safe (pid : ℕ) (w w' : List (Event Sys)) : Prop :=
  ∀ u, w' = w ++ u → Checked pid u → SignalsOwn w'

variable {w : List (Event Sys)} {r : Io (Option ExitStatus)}

theorem safe_append (h : Checked pid u → SignalsOwn (w ++ u)) : Safe pid w (w ++ u) := by
  intro v hv hc
  obtain rfl := List.append_cancel_left hv
  exact h hc

theorem safe_asked (hw : SignalsOwn w) (hr : hasExited r = false) (hu : ∀ e ∈ u, NoSignal e.1) :
    Safe pid w (w ++ (asked pid r ++ u)) :=
  safe_append fun hc => (signalsOwn_asked hr hu).mpr
    ⟨hw, ((checked_iff (checks_asked_append pid r u)).mp hc).1⟩

theorem safe_killed {v : List (Event Sys)} (hw : SignalsOwn w) (hr : hasExited r = false)
    (hu : Awaits pid u) (hv : ∀ e ∈ v, NoSignal e.1) (hc : checks pid v = []) :
    Safe pid w (w ++ (asked pid r ++ u ++ ([⟨.kill pid .kill, ()⟩] ++ v))) :=
  safe_append fun h => (signalsOwn_killed hr hu hv hc).mpr ⟨hw, h⟩

theorem wp_exitOrKill (deadline : ℕ) (hw : SignalsOwn w) (hr : hasExited r = false)
    (hu : Awaits daemon.pid u) : wp Env.history (Safe daemon.pid w) (daemon.exitOrKill deadline)
      (fun _ _ => True) (w ++ (asked daemon.pid r ++ u)) := by
  refine wp_loop (fun _ w' => ∃ u, Awaits daemon.pid u ∧ w' = w ++ (asked daemon.pid r ++ u))
    ⟨u, hu, rfl⟩ ?_
  rintro _ _ ⟨u, hu, rfl⟩
  refine ⟨safe_asked hw hr hu.noSignal, ?_⟩
  rintro time _ rfl
  have hnow := hu.append (awaits_now time)
  rw [List.append_assoc, List.append_assoc]
  simp only [ret_bind]
  split
  · refine ⟨safe_asked hw hr hnow.noSignal, ?_⟩
    rintro r' _ rfl
    rw [List.append_assoc, List.append_assoc]
    have hchecked : ∀ e ∈ u ++ [⟨.now, time⟩] ++ [⟨.tryWait daemon.pid, r'⟩], NoSignal e.1 :=
      List.forall_mem_append.mpr ⟨hnow.noSignal, by simp [NoSignal]⟩
    have hsafe : Safe daemon.pid w _ := safe_asked hw hr hchecked
    simp only [ret_bind]
    split
    · exact ⟨hsafe, hsafe, trivial⟩
    · next hr' =>
      have hround : Awaits daemon.pid [⟨.tryWait daemon.pid, r'⟩, ⟨.sleep termPoll, ()⟩] :=
        ⟨by simp [NoSignal], by simpa [checks, checkOf] using hr'⟩
      have hnext := hnow.append hround
      refine ⟨hsafe, ?_⟩
      rintro _ _ rfl
      have ht : w ++ (asked daemon.pid r ++ (u ++ [⟨.now, time⟩] ++
          [⟨.tryWait daemon.pid, r'⟩])) ++ [⟨.sleep termPoll, ()⟩] =
          w ++ (asked daemon.pid r ++ (u ++ [⟨.now, time⟩] ++
            [⟨.tryWait daemon.pid, r'⟩, ⟨.sleep termPoll, ()⟩])) := by simp
      exact ⟨ht ▸ safe_asked hw hr hnext.noSignal, _, hnext, ht⟩
  · refine ⟨safe_asked hw hr hnow.noSignal, safe_asked hw hr hnow.noSignal, ?_⟩
    rintro _ _ rfl
    refine ⟨?_, ?_⟩
    · have hsafe := safe_killed (v := []) hw hr hnow (by simp) rfl
      simpa using hsafe
    · rintro r' _ rfl
      have hsafe := safe_killed (v := [⟨.wait daemon.pid, r'⟩]) hw hr hnow (by simp [NoSignal]) rfl
      exact ⟨by simpa using hsafe, trivial⟩

/-- A stop that is cut is safe as well if its checks are. -/
theorem wp_stop (hw : SignalsOwn w) :
    wp Env.history (Safe daemon.pid w) daemon.stop (fun _ _ => True) w := by
  have hnil : Safe daemon.pid w w := fun _ _ _ => hw
  refine ⟨hnil, ?_⟩
  rintro r _ rfl
  have hfirst : Safe daemon.pid w (w ++ [⟨.tryWait daemon.pid, r⟩]) :=
    safe_append fun _ => signalsOwn_concat_tryWait.mpr hw
  simp only [ret_bind]
  split
  · exact ⟨hfirst, trivial⟩
  · next hr =>
    have hr : hasExited r = false := by simpa using hr
    refine ⟨hfirst, ?_⟩
    rintro _ _ rfl
    have ht : w ++ [⟨.tryWait daemon.pid, r⟩] ++ [⟨.kill daemon.pid .term, ()⟩] =
        w ++ (asked daemon.pid r ++ []) := by simp [asked]
    rw [ht]
    refine ⟨safe_asked hw hr (by simp), ?_⟩
    rintro time _ rfl
    rw [List.append_assoc, List.append_assoc]
    exact wp_exitOrKill _ hw hr (awaits_now time)

theorem signalsOwn_of_cut (h : Partial daemon.stop u) (hc : Checked daemon.pid u)
    (hw : SignalsOwn w) : SignalsOwn (w ++ u) :=
  wp_cut h (wp_stop hw) (Env.runs_history_iff.mpr rfl) u rfl hc

end Daemon

namespace Hook

variable {w : List (Event Sys)}

/-- A wait that times out has just seen the child running. -/
theorem wp_waitUntil (deadline : ℕ) (hw : SignalsOwn w) :
    wp Env.history SignalsOwn (waitUntil pid deadline)
      (fun x w' => x = .running → Running pid w') w := by
  refine wp_loop (fun _ => SignalsOwn) hw ?_
  rintro _ w hw
  refine ⟨hw, ?_⟩
  rintro r _ rfl
  have hchecked : SignalsOwn (w ++ [⟨.tryWait pid, r⟩]) := signalsOwn_concat_tryWait.mpr hw
  rcases r with err | _ | status
  · exact ⟨hchecked, hchecked, nofun⟩
  · refine ⟨hchecked, ?_⟩
    rintro time _ rfl
    have hnow := hchecked.concat ⟨.now, time⟩ trivial
    simp only [ret_bind]
    split
    · refine ⟨hnow, hnow, fun _ => ?_⟩
      have hc : checks pid [⟨.tryWait pid, .ok none⟩, ⟨.now, time⟩] = [.ok none] :=
        checks_cons_tryWait pid (.ok none) _
      rw [List.append_assoc, running_append (by simp [hc])]
      exact congrArg List.getLast? hc
    · refine ⟨hnow, ?_⟩
      rintro _ _ rfl
      have hslept := hnow.concat ⟨.sleep poll, ()⟩ trivial
      exact ⟨hslept, hslept⟩
  · exact ⟨hchecked, hchecked, nofun⟩

theorem wp_terminate (grace : ℕ) (hw : SignalsOwn w) (hr : Running pid w) :
    wp Env.history SignalsOwn (terminate pid grace) (fun _ _ => True) w := by
  refine ⟨hw, ?_⟩
  rintro _ _ rfl
  have hterm : SignalsOwn (w ++ [⟨.kill pid .term, ()⟩]) := signalsOwn_concat_kill.mpr ⟨hw, hr⟩
  refine ⟨hterm, ?_⟩
  rintro time _ rfl
  have hnow := hterm.concat ⟨.now, time⟩ trivial
  simp only [ret_bind, wp_bind]
  refine (wp_waitUntil _ hnow).mono ?_
  rintro (status | _ | err) w hw hx
  · exact ⟨hw, trivial⟩
  · have hkill : SignalsOwn (w ++ [⟨.kill pid .kill, ()⟩]) :=
      signalsOwn_concat_kill.mpr ⟨hw, hx rfl⟩
    refine ⟨hw, ?_⟩
    rintro _ _ rfl
    refine ⟨hkill, ?_⟩
    rintro r _ rfl
    exact ⟨signalsOwn_concat_wait.mpr hkill, trivial⟩
  · exact ⟨hw, trivial⟩

/-- The hook is signalled only while it is seen running. -/
theorem wp_notifyWithin (hook state : Str) (limit grace : ℕ) (hw : SignalsOwn w) :
    wp Env.history SignalsOwn (notifyWithin hook state limit grace) (fun _ _ => True) w := by
  unfold notifyWithin
  split
  · exact ⟨hw, trivial⟩
  refine ⟨hw, ?_⟩
  rintro r _ rfl
  have hspawn := hw.concat ⟨.spawn hook [state], r⟩ trivial
  rcases r with err | pid
  · exact ⟨hspawn, trivial⟩
  refine ⟨hspawn, ?_⟩
  rintro time _ rfl
  have hnow := hspawn.concat ⟨.now, time⟩ trivial
  simp only [ret_bind, wp_bind]
  refine (wp_waitUntil _ hnow).mono ?_
  rintro (status | _ | err) w hw hx
  · exact ⟨hw, trivial⟩
  · exact wp_terminate grace hw (hx rfl)
  · exact ⟨hw, trivial⟩

end Hook

section Runs

variable {daemons : List Daemon} {ts : List (List (Event Sys))} {w : List (Event Sys)}

/-- The traces of stops, one after the other. -/
def Stops : List Daemon → List (List (Event Sys)) → Prop :=
  List.Forall₂ fun daemon t => Returns daemon.stop t ()

/-- Every stop among them has its checks. -/
def AllChecked : List Daemon → List (List (Event Sys)) → Prop :=
  List.Forall₂ fun daemon t => Checked daemon.pid t

theorem signalsOwn_append_stops (h : Stops daemons ts) :
    SignalsOwn (w ++ ts.flatten) ↔ SignalsOwn w ∧ AllChecked daemons ts := by
  induction h generalizing w with
  | nil =>
    rw [List.flatten_nil, List.append_nil]
    exact (and_iff_left .nil).symm
  | cons hstop _ ih =>
    rw [List.flatten_cons, ← List.append_assoc, ih, Daemon.signalsOwn_append_stop hstop, and_assoc,
      AllChecked, List.forall₂_cons]

theorem runBestEffort_noSignal (program : Str) (args : List Str) :
    (runBestEffort program args).Uses NoSignal := by
  have hrun : (run program args).run.Uses NoSignal :=
    Uses.try_bind ⟨trivial, fun _ => trivial⟩ fun _ => trivial
  exact hrun.bind fun _ => trivial

/-- A session that is dropped stops each of its daemons twice. -/
theorem returns_drop {session : ApSession} (h : Returns session.drop t ()) :
    ∃ t₁ t₂ u t₃ t₄, (∀ e ∈ u, NoSignal e.1) ∧
      t = [⟨.mark ApSession.dropped [session.hostapd.pid, session.dnsmasq.pid], ()⟩] ++
        [t₁, t₂].flatten ++ u ++ [t₃, t₄].flatten ∧
      Stops [session.hostapd, session.dnsmasq] [t₁, t₂] ∧
      Stops [session.hostapd, session.dnsmasq] [t₃, t₄] := by
  obtain ⟨_, v₀, v₁, rfl, h₀, h₁⟩ := returns_bind_iff.mp h
  obtain rfl := returns_perform_iff.mp h₀
  obtain ⟨_, t₁, v₂, rfl, hs₁, h₂⟩ := returns_bind_iff.mp h₁
  obtain ⟨_, t₂, v₃, rfl, hs₂, h₃⟩ := returns_bind_iff.mp h₂
  obtain ⟨_, u, v₄, rfl, hu, h₄⟩ := returns_bind_iff.mp h₃
  obtain ⟨_, t₃, t₄, rfl, hs₃, hs₄⟩ := returns_bind_iff.mp h₄
  refine ⟨t₁, t₂, u, t₃, t₄, (runBestEffort_noSignal _ _).returns hu, by simp,
    .cons hs₁ (.cons hs₂ .nil), .cons hs₃ (.cons hs₄ .nil)⟩

theorem signalsOwn_drop {session : ApSession} {t₁ t₂ t₃ t₄ : List (Event Sys)} {m : List ℕ}
    (hu : ∀ e ∈ u, NoSignal e.1)
    (h : Stops [session.hostapd, session.dnsmasq] [t₁, t₂])
    (h' : Stops [session.hostapd, session.dnsmasq] [t₃, t₄]) :
    SignalsOwn ([⟨.mark ApSession.dropped m, ()⟩] ++ [t₁, t₂].flatten ++ u ++ [t₃, t₄].flatten) ↔
      AllChecked [session.hostapd, session.dnsmasq] [t₁, t₂] ∧
        AllChecked [session.hostapd, session.dnsmasq] [t₃, t₄] := by
  have hm : SignalsOwn ([] ++ [⟨.mark ApSession.dropped m, ()⟩]) :=
    signalsOwn_nil.concat _ trivial
  rw [signalsOwn_append_stops h', signalsOwn_append_noSignal hu, signalsOwn_append_stops h]
  exact and_congr_left fun _ => and_iff_right hm

/-- The hook is signalled only while it is seen running. Stops, and the drop of a session, send
their signals safely exactly if in each stop neither the first check nor the last one fails. A stop
that is cut is safe then too. -/
theorem signals_own_iff (h : Stops daemons ts) :
    (SignalsOwn ts.flatten ↔ AllChecked daemons ts) ∧
    (∀ (daemon : Daemon) t, AllChecked daemons ts → Partial daemon.stop t →
      Checked daemon.pid t → SignalsOwn (ts.flatten ++ t)) ∧
    (∀ (session : ApSession) t, Returns session.drop t () → ∃ t₁ t₂ u t₃ t₄,
      t = [⟨.mark ApSession.dropped [session.hostapd.pid, session.dnsmasq.pid], ()⟩] ++
        [t₁, t₂].flatten ++ u ++ [t₃, t₄].flatten ∧
      Stops [session.hostapd, session.dnsmasq] [t₁, t₂] ∧
      Stops [session.hostapd, session.dnsmasq] [t₃, t₄] ∧
      (SignalsOwn t ↔ AllChecked [session.hostapd, session.dnsmasq] [t₁, t₂] ∧
        AllChecked [session.hostapd, session.dnsmasq] [t₃, t₄])) ∧
    ∀ hook state limit grace t, Partial (Hook.notifyWithin hook state limit grace) t →
      SignalsOwn t := by
  have hiff := (signalsOwn_append_stops (w := []) h).trans (and_iff_right signalsOwn_nil)
  refine ⟨hiff, ?_, ?_, ?_⟩
  · intro daemon t hc ht hct
    exact Daemon.signalsOwn_of_cut ht hct (hiff.mpr hc)
  · intro session t h
    obtain ⟨t₁, t₂, u, t₃, t₄, hu, rfl, h₁, h₂⟩ := returns_drop h
    exact ⟨t₁, t₂, u, t₃, t₄, rfl, h₁, h₂, signalsOwn_drop hu h₁ h₂⟩
  · intro hook state limit grace t h
    exact wp_cut h (Hook.wp_notifyWithin hook state limit grace signalsOwn_nil)
      (Env.runs_history_iff.mpr rfl)

def hostapd : Daemon := ⟨Ap.hostapd, 7⟩

def killed : ExitStatus := ⟨false, "signal: 9 (SIGKILL)".toList⟩

/-- A daemon that does not exit in time, and the same daemon when it is dropped. -/
def stubborn : List (List (Event Sys)) :=
  [[⟨.tryWait 7, .ok none⟩, ⟨.kill 7 .term, ()⟩, ⟨.now, 0⟩, ⟨.now, Daemon.termGrace⟩,
    ⟨.kill 7 .kill, ()⟩, ⟨.wait 7, .ok killed⟩], [⟨.tryWait 7, .ok (some killed)⟩]]

/-- A first check without an exit, and a clock that is past the deadline when it is read next. -/
theorem returns_stop_late {r : Io (Option ExitStatus)} (hr : Daemon.hasExited r = false)
    (r' : Io ExitStatus) : Returns hostapd.stop [⟨.tryWait 7, r⟩, ⟨.kill 7 .term, ()⟩, ⟨.now, 0⟩,
      ⟨.now, Daemon.termGrace⟩, ⟨.kill 7 .kill, ()⟩, ⟨.wait 7, r'⟩] () := by
  have hround : Returns (hostapd.awaitExit (0 + Daemon.termGrace) ())
      [⟨.now, Daemon.termGrace⟩] (.inr false) := .call _ (.ret _)
  have hkill : Returns (hostapd.exitOrKill (0 + Daemon.termGrace))
      ([⟨.now, Daemon.termGrace⟩] ++ [⟨.kill 7 .kill, ()⟩, ⟨.wait 7, r'⟩]) () :=
    .exit hround (.call _ (.call _ (.ret _)))
  refine returns_call_iff.mpr ⟨r, _, rfl, ?_⟩
  rw [ret_bind, if_neg (by simp [hr])]
  exact .call _ (.call _ hkill)

theorem signals_own_stubborn : SignalsOwn stubborn.flatten := by
  have hstops : Stops [hostapd, hostapd] stubborn :=
    .cons (returns_stop_late rfl _) (.cons (.call _ (.ret _)) .nil)
  have hfirst : Checked 7 (stubborn.headD []) := (Daemon.checked_iff rfl).mpr ⟨nofun, nofun⟩
  have hsecond : Checked 7 [⟨.tryWait 7, .ok (some killed)⟩] :=
    (Daemon.checked_iff rfl).mpr ⟨nofun, nofun⟩
  exact (signals_own_iff hstops).1.mpr (.cons hfirst (.cons hsecond .nil))

def noChild : IoError := ⟨.other, "No child processes".toList⟩

/-- A daemon that cannot be checked, because its exit was collected elsewhere. -/
def uncheckable : List (Event Sys) :=
  [⟨.tryWait 7, .error noChild⟩, ⟨.kill 7 .term, ()⟩, ⟨.now, 0⟩, ⟨.now, Daemon.termGrace⟩,
    ⟨.kill 7 .kill, ()⟩, ⟨.wait 7, .error noChild⟩]

theorem not_signals_own : ¬ ∀ (daemon : Daemon) t, Returns daemon.stop t () → SignalsOwn t := by
  intro h
  have hr := h hostapd uncheckable (returns_stop_late rfl _) [_] _ 7 .term rfl
  cases hr

end Runs

end RobotCtl.Wifi
