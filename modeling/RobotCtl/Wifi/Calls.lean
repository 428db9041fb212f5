import RobotCtl.Wifi.Supervise

/-! # What the supervisor's parts call

Most parts of the supervisor run commands, handle files and wait for children.
They start no child, drop no session and do not look for `client.conf`.
-/

namespace RobotCtl.Wifi

open Text Conf Prog

/-- The call is none of those that the state of the supervisor depends on. -/
def Aside : SysOp → Prop
  | .spawn _ _ | .mark _ _ | .isFile _ => False
  | _ => True

/-- The call runs a command, handles a file or a child, or waits. -/
def Plain : SysOp → Prop
  | .spawn _ _ | .mark _ _ | .isFile _ | .envVar _ | .sendTo _ _ => False
  | _ => True

theorem Plain.aside {o : SysOp} (h : Plain o) : Aside o := by
  cases o <;> trivial

/-- The call starts the hook, or is aside. -/
def HookCall (hook state : Str) (o : SysOp) : Prop := Aside o ∨ o = .spawn hook [state]

theorem sleep_plain (nanos : ℕ) : (Sys.sleep nanos).Uses Plain := ⟨trivial, fun _ => trivial⟩

theorem now_plain : Sys.now.Uses Plain := ⟨trivial, fun _ => trivial⟩

theorem output_plain (program : Str) (args : List Str) : (output program args).run.Uses Plain :=
  ⟨trivial, fun _ => trivial⟩

theorem run_plain (program : Str) (args : List Str) : (run program args).run.Uses Plain :=
  (output_plain program args).try_bind fun _ => trivial

theorem runBestEffort_plain (program : Str) (args : List Str) :
    (runBestEffort program args).Uses Plain := (run_plain program args).bind fun _ => trivial

theorem interfaceExists_plain (interface : Str) : (interfaceExists interface).Uses Plain :=
  (output_plain _ _).bind fun _ => trivial

theorem requireInterface_plain (interface : Str) : (requireInterface interface).run.Uses Plain := by
  refine (interfaceExists_plain interface).lift_bind fun b => ?_
  cases b <;> trivial

theorem ipv4Address_plain (interface : Str) : (ipv4Address interface).Uses Plain :=
  (output_plain _ _).bind fun _ => trivial

namespace Daemon

theorem isRunning_plain (daemon : Daemon) : daemon.isRunning.Uses Plain :=
  ⟨trivial, fun r => match r with
    | .ok none | .ok (some _) | .error _ => trivial⟩

theorem awaitExit_plain (daemon : Daemon) (deadline : ℕ) (u : Unit) :
    (daemon.awaitExit deadline u).Uses Plain := by
  refine ⟨trivial, fun time => ?_⟩
  simp only [Prog.ret_bind]
  split
  · refine ⟨trivial, fun r => ?_⟩
    simp only [Prog.ret_bind]
    split
    · trivial
    · exact ⟨trivial, fun _ => trivial⟩
  · trivial

theorem exitOrKill_plain (daemon : Daemon) (deadline : ℕ) :
    (daemon.exitOrKill deadline).Uses Plain := by
  refine ⟨daemon.awaitExit_plain deadline, ?_⟩
  rintro (_ | _)
  · exact ⟨trivial, fun _ => ⟨trivial, fun _ => trivial⟩⟩
  · trivial

theorem stop_plain (daemon : Daemon) : daemon.stop.Uses Plain := by
  refine ⟨trivial, fun r => ?_⟩
  simp only [Prog.ret_bind]
  split
  · trivial
  · exact ⟨trivial, fun _ => ⟨trivial, fun _ => daemon.exitOrKill_plain _⟩⟩

end Daemon

theorem isHealthy_plain (session : ApSession) : session.isHealthy.Uses Plain :=
  session.hostapd.isRunning_plain.bind fun _ =>
    session.dnsmasq.isRunning_plain.bind fun _ => trivial

namespace Hook

theorem waitUntil_plain (pid deadline : ℕ) : (waitUntil pid deadline).Uses Plain := by
  refine ⟨fun u => ⟨trivial, ?_⟩, fun _ => trivial⟩
  rintro (err | _ | status)
  · trivial
  · refine ⟨trivial, fun time => ?_⟩
    simp only [Prog.ret_bind]
    split
    · trivial
    · exact ⟨trivial, fun _ => trivial⟩
  · trivial

theorem terminate_plain (pid grace : ℕ) : (terminate pid grace).Uses Plain := by
  refine ⟨trivial, fun _ => ⟨trivial, fun time => (waitUntil_plain _ _).bind ?_⟩⟩
  rintro (status | _ | err)
  · trivial
  · exact ⟨trivial, fun _ => ⟨trivial, fun _ => trivial⟩⟩
  · trivial

/-- A hook that is set is started once, with the state. -/
theorem notify_cases (hook state : Str) : hook = [] ∧ notify hook state = .ret () ∨
    hook ≠ [] ∧ ∃ k, notify hook state = .call (.spawn hook [state]) k ∧
      ∀ r, (k r).Uses Plain := by
  unfold notify notifyWithin
  by_cases hook = []
  · next h => exact Or.inl ⟨h, if_pos h⟩
  · next h =>
    rw [if_neg h]
    refine Or.inr ⟨h, _, rfl, ?_⟩
    rintro (err | pid)
    · trivial
    refine Uses.bind (p := Sys.now) ⟨trivial, fun _ => trivial⟩ fun time => ?_
    apply (waitUntil_plain _ _).bind
    rintro (status | _ | err)
    · trivial
    · exact terminate_plain _ _
    · trivial

theorem notify_uses (hook state : Str) : (notify hook state).Uses (HookCall hook state) := by
  rcases notify_cases hook state with ⟨-, he⟩ | ⟨-, k, he, hk⟩
  · rw [he]
    trivial
  · rw [he]
    exact ⟨Or.inr rfl, fun r => (hk r).mono fun _ ho => Or.inl ho.aside⟩

end Hook

theorem notifyReady_aside (state : State) : (notifyReady state).Uses Aside := by
  refine ⟨trivial, fun value => ?_⟩
  simp only [Prog.ret_bind]
  split
  · exact ⟨trivial, fun _ => trivial⟩
  · trivial

theorem announceReady_aside (announced : Bool) (next : State) :
    (announceReady announced next).Uses Aside := by
  unfold announceReady
  split
  · exact (notifyReady_aside next).bind fun _ => trivial
  · trivial

theorem notifyChange_uses (paths : Paths) (state next : State) :
    (notifyChange paths state next).Uses (HookCall paths.wifiStateHook next.hookName) := by
  unfold notifyChange
  split
  · trivial
  · exact Hook.notify_uses _ _

theorem FileCall.plain {o : SysOp} (h : FileCall o) : Plain o := by
  cases o with
  | spawn program args => exact h.elim
  | mark label args => exact h.elim
  | isFile path => exact h.elim
  | _ => trivial

theorem load_plain (paths : Paths) : (Identity.load paths).run.Uses Plain :=
  ((readOptional_uses _).mono fun _ => FileCall.plain).try_bind fun _ => trivial

theorem loadApConfig_plain (paths : Paths) (robotId : Identity.RobotId) :
    (loadApConfig paths robotId).run.Uses Plain :=
  ((readOptional_uses _).mono fun _ => FileCall.plain).try_bind fun _ => trivial

theorem configure_plain (pid : ℕ) (runDir : FilePath) (config : ApConfig) :
    (Ap.configure pid runDir config).run.Uses Plain :=
  (requireInterface_plain _).try_bind fun _ =>
    (uses_withContext ((writeAtomically_uses _ _ _).mono fun _ => FileCall.plain)).try_bind fun _ =>
    (uses_withContext ((writeAtomically_uses _ _ _).mono fun _ => FileCall.plain)).try_bind fun _ =>
    (run_plain _ _).try_bind fun _ => (run_plain _ _).try_bind fun _ => run_plain _ _

theorem prepareStation_plain (interface : Str) : (prepareStation interface).run.Uses Plain :=
  (requireInterface_plain _).try_bind fun _ => (run_plain _ _).try_bind fun _ => run_plain _ _

/-- The call drops no session. -/
def Unmarked : SysOp → Prop
  | .mark _ _ => False
  | _ => True

theorem Aside.unmarked {o : SysOp} (h : Aside o) : Unmarked o := by
  cases o with
  | mark label args => exact h.elim
  | _ => trivial

/-- The call neither drops a session nor looks for a file. -/
def Unchecked : SysOp → Prop
  | .mark _ _ | .isFile _ => False
  | _ => True

theorem Plain.unmarked {o : SysOp} (h : Plain o) : Unmarked o := h.aside.unmarked

theorem Unchecked.unmarked {o : SysOp} (h : Unchecked o) : Unmarked o := by
  cases o with
  | mark label args => exact h.elim
  | _ => trivial

theorem Aside.unchecked {o : SysOp} (h : Aside o) : Unchecked o := by
  cases o with
  | mark label args | isFile path => exact h.elim
  | _ => trivial

theorem HookCall.unchecked {hook state : Str} {o : SysOp} (h : HookCall hook state o) :
    Unchecked o := by
  rcases h with h | rfl
  · exact h.unchecked
  · trivial

theorem spawn_unmarked (name program : Str) (args : List Str) :
    (Daemon.spawn name program args).run.Uses Unmarked := by
  refine ⟨trivial, ?_⟩
  rintro (err | pid) <;> trivial

theorem connect_unmarked (paths : Paths) (tuning : SuperviseTuning) :
    (connect paths tuning).Uses Unmarked := by
  refine Uses.bind (p := Sys.isFile _) ⟨trivial, fun _ => trivial⟩ fun found => ?_
  cases found
  · trivial
  refine Uses.bind ?_ fun _ => trivial
  refine ((prepareStation_plain _).mono fun _ => Plain.unmarked).try_bind fun _ => ?_
  refine (spawn_unmarked _ _ _).try_bind fun d => Uses.mono ?_ fun _ => Plain.unmarked
  refine (run_plain _ _).lift_bind fun _ => (ipv4Address_plain _).lift_bind fun address => ?_
  cases address with
  | none => exact d.stop_plain.lift_bind fun _ => trivial
  | some address => trivial

end RobotCtl.Wifi
