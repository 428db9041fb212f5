import RobotCtl.Conf.Atomic
import RobotCtl.Identity.Rename

/-! # The identity commands

Each command is a process of its own. One that derives the host name and
succeeds makes `robot.conf`, the hostname file and the hosts file agree, and
only a rename that is cut between them can make them differ again.
-/

namespace RobotCtl.Identity

open Text Conf Prog

inductive IdKey where
  | robotId
  | rosDomainId
  deriving DecidableEq, Repr

inductive IdTarget where
  | robotId (value : Str)
  | rosDomainId (value : Str)
  deriving DecidableEq, Repr

inductive IdAction where
  | get (key : IdKey)
  | set (target : IdTarget)
  | apply
  deriving DecidableEq, Repr

def parseRobotId (value : Str) : Except Error RobotId :=
  (RobotId.new value).mapError fun err =>
    ["invalid robot ID '".toList ++ value ++ "'".toList, err.message]

def parseRosDomainId (value : Str) : Except Error RosDomainId :=
  (RosDomainId.fromStr value).mapError fun err =>
    ["invalid ROS domain ID '".toList ++ value ++ "'".toList, err.message]

def robotId (paths : Paths) : Fallible RobotId := do
  let config ← load paths
  pure config.robotId

def rosDomainId (paths : Paths) : Fallible RosDomainId := do
  let config ← load paths
  pure config.rosDomainId

def IdAction.run (pid : ℕ) (paths : Paths) : IdAction → Fallible Unit
  | .get .robotId => do
    let id ← robotId paths
    Sys.println id.str
  | .get .rosDomainId => do
    let d ← rosDomainId paths
    Sys.println d.toStr
  | .set (.robotId value) => do
    let id ← liftExcept (parseRobotId value)
    setRobotId pid paths id
  | .set (.rosDomainId value) => do
    let d ← liftExcept (parseRosDomainId value)
    setRosDomainId pid paths d
  | .apply => do
    let config ← load paths
    Identity.apply pid paths config

/-- A process that runs a command. It has no result if it was killed. -/
structure Process where
  pid : ℕ
  action : IdAction
  trace : List (Event Sys)
  result : Option (Except Error Unit)

def Process.IsRun (paths : Paths) (p : Process) : Prop :=
  match p.result with
  | some r => Returns (p.action.run p.pid paths).run p.trace r
  | none => Partial (p.action.run p.pid paths).run p.trace

/-- The command sets the robot ID. -/
def IdAction.Renames (action : IdAction) : Prop := ∃ value, action = .set (.robotId value)

/-- The command derives the host name from `robot.conf`. -/
def IdAction.Derives (action : IdAction) : Prop := action = .apply ∨ action.Renames

/-- The process did not stop between the robot ID in `robot.conf` and what derives from it. -/
def Process.Whole (paths : Paths) (p : Process) : Prop := p.action.Renames →
  p.result = some (.ok ()) ∨
    ⟨.rename (tmpPath p.pid paths.robotConf) paths.robotConf, .ok ()⟩ ∉ p.trace

/-- The hosts file has an entry of the local address, and the robot ID in all of them. -/
structure Named (id : RobotId) (text : Str) : Prop where
  entry : ∃ l ∈ hostsLines text, isEntry l = true
  entries : ∀ l ∈ hostsLines text, isEntry l = true → l = hostsEntry id

/-- The host name artifacts are those of the robot ID. -/
structure Derived (paths : Paths) (id : RobotId) (fs : Fs) : Prop where
  hostname : Holds fs paths.hostnamePath (some (id.str ++ ['\n']))
  hosts : ∃ text, Holds fs paths.hostsPath (some text) ∧ Named id text

/-- The host name artifacts are those of the robot ID in `robot.conf`. -/
def Agreed (paths : Paths) (fs : Fs) : Prop :=
  ∃ existing id, Holds fs paths.robotConf existing ∧ NamesRobot paths existing id ∧
    Derived paths id fs

def files (paths : Paths) : List FilePath :=
  [paths.robotConf, paths.hostnamePath, paths.hostsPath]

/-- The three files are different ones, and none is above another one or its temporary. -/
structure Distinct (pid : ℕ) (paths : Paths) : Prop where
  nodup : (files paths).Nodup
  apart : ∀ p ∈ files paths, ∀ q ∈ files paths, p ≠ q → ¬ p <+: q ∧ p ≠ tmpPath pid q

variable {pid : ℕ} {paths : Paths} {path q : FilePath} {contents : Str} {fs u v : Fs}
  {I : Fs → Prop} {id : RobotId} {config : RobotConfig} {action : IdAction}
  {t : List (Event Sys)}

theorem agreed_iff : Agreed paths fs ↔ ∃ existing, Holds fs paths.robotConf existing ∧
    Derived paths (resolve paths existing).robotId fs := by
  simp only [Agreed, namesRobot_iff]
  constructor
  · rintro ⟨existing, _, hh, rfl, hd⟩; exact ⟨existing, hh, hd⟩
  · rintro ⟨existing, hh, hd⟩; exact ⟨existing, _, hh, rfl, hd⟩

theorem robotConf_mem (paths : Paths) : paths.robotConf ∈ files paths := by simp [files]

theorem hostnamePath_mem (paths : Paths) : paths.hostnamePath ∈ files paths := by simp [files]

theorem hostsPath_mem (paths : Paths) : paths.hostsPath ∈ files paths := by simp [files]

theorem Distinct.conf_ne_hostname (hd : Distinct pid paths) :
    paths.robotConf ≠ paths.hostnamePath := by
  have h := hd.nodup
  simp only [files, List.nodup_cons, List.mem_cons, not_or] at h
  exact h.1.1

theorem Distinct.conf_ne_hosts (hd : Distinct pid paths) : paths.robotConf ≠ paths.hostsPath := by
  have h := hd.nodup
  simp only [files, List.nodup_cons, List.mem_cons, not_or] at h
  exact h.1.2.1

theorem Distinct.hostname_ne_hosts (hd : Distinct pid paths) :
    paths.hostnamePath ≠ paths.hostsPath := by
  have h := hd.nodup
  simp only [files, List.nodup_cons, List.mem_cons, not_or] at h
  exact h.2.1.1

/-- A file that is not the one written is left alone. -/
theorem Distinct.node_of_written (hd : Distinct pid paths) (hp : path ∈ files paths)
    (hq : q ∈ files paths) (hne : q ≠ path) (hw : Written pid path contents fs u) :
    u.node q = fs.node q := by
  obtain ⟨hpre, htmp⟩ := hd.apart q hq path hp hne
  exact (hw.frame q hne htmp).resolve_right fun h => hpre h.1

section Derived

theorem named_renderHostsFile (existing : Option Str) (id : RobotId) :
    Named id (renderHostsFile existing id) := by
  have hsome : ∀ text, Named id (renderHostsFile (some text) id) := by
    intro text
    have hcount : 0 < entryCount (renderHostsFile (some text) id) := by
      rw [entryCount_renderHostsFile]
      omega
    exact ⟨List.countP_pos_iff.mp hcount, (renamed_renderHostsFile text id).entries⟩
  cases existing with
  | none =>
    rw [renderHostsFile_none]
    exact hsome _
  | some text => exact hsome text

/-- What a derivation has done so far: `robot.conf` is as it was, and artifacts that were those of
the robot ID still are. -/
structure Steady (paths : Paths) (id : RobotId) (fs u : Fs) : Prop where
  conf : u.node paths.robotConf = fs.node paths.robotConf
  derived : Derived paths id fs → Derived paths id u

theorem Steady.trans (h : Steady paths id fs u) (h' : Steady paths id u v) :
    Steady paths id fs v := ⟨h'.conf.trans h.conf, fun hd => h'.derived (h.derived hd)⟩

theorem steady_of_hostname (hd : Distinct pid paths)
    (hw : Written pid paths.hostnamePath (renderHostnameFile id) fs u) :
    Steady paths id fs u := by
  have hname := hostnamePath_mem paths
  refine ⟨hd.node_of_written hname (robotConf_mem paths) hd.conf_ne_hostname hw, ?_⟩
  rintro ⟨hn, text, hh, hnamed⟩
  refine ⟨?_, text, ?_, hnamed⟩
  · rcases hw.file with hf | ⟨-, hf⟩
    · exact hf.trans hn
    · exact hf
  · exact (hd.node_of_written hname (hostsPath_mem paths) hd.hostname_ne_hosts.symm hw).trans hh

theorem steady_of_hosts {existing : Option Str} (hd : Distinct pid paths)
    (hw : Written pid paths.hostsPath (renderHostsFile existing id) fs u) :
    Steady paths id fs u := by
  have hhosts := hostsPath_mem paths
  refine ⟨hd.node_of_written hhosts (robotConf_mem paths) hd.conf_ne_hosts hw, ?_⟩
  rintro ⟨hn, text, hh, hnamed⟩
  refine ⟨(hd.node_of_written hhosts (hostnamePath_mem paths) hd.hostname_ne_hosts hw).trans hn, ?_⟩
  rcases hw.file with hf | ⟨-, hf⟩
  · exact ⟨text, hf.trans hh, hnamed⟩
  · exact ⟨_, hf, named_renderHostsFile existing id⟩

theorem wp_applyFiles_alone (hd : Distinct pid paths)
    (hI : ∀ {u}, Steady paths config.robotId fs u → I u) :
    wp Fs.env I (applyFiles pid paths config).run (fun r u => Steady paths config.robotId fs u ∧
      ∀ b, r = .ok b → Derived paths config.robotId u) fs := by
  refine wp_try_bind.mpr ((wp_writeIfChanged_alone fun hw =>
    hI (steady_of_hostname hd hw)).mono ?_)
  rintro (err | renamed) u hu ⟨hw, hok⟩
  · exact ⟨hu, steady_of_hostname hd hw, nofun⟩
  have hsteady : Steady paths config.robotId fs u := steady_of_hostname hd hw
  have hname := hok renamed rfl
  refine wp_try_bind.mpr (wp_readOptional_alone hu (fun existing _ => ?_) fun err => ?_)
  · refine wp_try_bind.mpr ((wp_writeIfChanged_alone fun hw =>
      hI (hsteady.trans (steady_of_hosts hd hw))).mono ?_)
    rintro (err | _) v hv ⟨hw', hok'⟩
    · exact ⟨hv, hsteady.trans (steady_of_hosts hd hw'), nofun⟩
    · refine ⟨hv, hsteady.trans (steady_of_hosts hd hw'), fun _ _ => ?_⟩
      have hkept := hd.node_of_written (hostsPath_mem paths) (hostnamePath_mem paths)
        hd.hostname_ne_hosts hw'
      exact ⟨hkept.trans hname, _, hok' _ rfl, named_renderHostsFile existing config.robotId⟩
  · exact ⟨hu, hsteady, nofun⟩

theorem tryPrograms_still (programs : List (Str × List Str)) :
    (tryPrograms programs).Uses Fs.Still := by
  induction programs with
  | nil => trivial
  | cons program rest ih =>
    refine ⟨trivial, fun r => ?_⟩
    rcases r with err | ⟨success, text⟩
    · exact ih
    · cases success
      · exact ih
      · trivial

theorem tryRestartAsync_still (unit : Str) : (tryRestartAsync unit).Uses Fs.Still := by
  unfold tryRestartAsync
  split
  · trivial
  · exact ⟨trivial, fun _ => trivial⟩

theorem wp_apply_alone (hd : Distinct pid paths)
    (hI : ∀ {u}, Steady paths config.robotId fs u → I u) :
    wp Fs.env I (apply pid paths config).run (fun r u => Steady paths config.robotId fs u ∧
      (r = .ok () → Derived paths config.robotId u)) fs := by
  refine wp_try_bind.mpr ((wp_applyFiles_alone hd hI).mono ?_)
  rintro (err | renamed) u hu ⟨hs, hok⟩
  · exact ⟨hu, hs, nofun⟩
  have hderived := hok renamed rfl
  refine wp_try_bind.mpr (wp_lift.mpr ((wp_still (tryPrograms_still _) hu).mono ?_))
  rintro _ _ hi rfl
  cases renamed with
  | false => exact ⟨hi, hs, fun _ => hderived⟩
  | true =>
    refine wp_lift.mpr ((wp_still (tryRestartAsync_still _) hi).mono ?_)
    rintro _ _ _ rfl
    exact ⟨hs, fun _ => hderived⟩

/-- A derivation from what `robot.conf` holds that succeeds makes the files agree. -/
theorem agreed_of_load_apply (hd : Distinct pid paths)
    (h : Returns (load paths >>= fun config => apply pid paths config).run t (.ok ()))
    (hr : Env.Runs Fs.env fs t u) : Agreed paths u := by
  obtain ⟨config, t₁, t₂, rfl, hl, ha⟩ := returns_try_bind_ok_iff.mp h
  obtain ⟨v, hv, hu⟩ := Env.runs_append_iff.mp hr
  obtain ⟨existing, rfl, hh, rfl⟩ := exists_holds_of_load hl hv
  obtain ⟨hs, hok⟩ := wp_returns ha (wp_apply_alone (I := fun _ => True) hd fun _ => trivial) hu
  exact agreed_iff.mpr ⟨existing, hs.conf.trans hh, hok rfl⟩

end Derived

section Kept

/-- The files are as they were. -/
def Untouched (paths : Paths) (fs u : Fs) : Prop := ∀ p ∈ files paths, u.node p = fs.node p

theorem Agreed.of_untouched (ha : Agreed paths fs) (h : Untouched paths fs u) :
    Agreed paths u := by
  obtain ⟨existing, id, hh, hid, hn, text, ht, hnamed⟩ := ha
  exact ⟨existing, id, (h _ (robotConf_mem paths)).trans hh, hid,
    (h _ (hostnamePath_mem paths)).trans hn, text, (h _ (hostsPath_mem paths)).trans ht, hnamed⟩

theorem still_load (paths : Paths) : (load paths).run.Uses Fs.Still :=
  Uses.try_bind ⟨trivial, fun _ => trivial⟩ fun _ => trivial

theorem still_get (key : IdKey) : ((IdAction.get key).run pid paths).run.Uses Fs.Still := by
  have hid : (robotId paths).run.Uses Fs.Still := (still_load paths).try_bind fun _ => trivial
  have hdomain : (rosDomainId paths).run.Uses Fs.Still :=
    (still_load paths).try_bind fun _ => trivial
  cases key
  · exact hid.try_bind fun _ => ⟨trivial, fun _ => trivial⟩
  · exact hdomain.try_bind fun _ => ⟨trivial, fun _ => trivial⟩

theorem eq_of_cut {α : Type} {p : Prog Sys α} (hs : p.Uses Fs.Still) (h : Partial p t)
    (hr : Env.Runs Fs.env fs t u) : u = fs := by
  have hw : wp Fs.env (Eq fs) p (fun _ u => u = fs) fs := wp_still hs rfl
  exact (wp_cut h hw hr).symm

/-- What derives from `robot.conf` keeps the files in agreement wherever it is cut. -/
theorem Agreed.cut_load_apply (hd : Distinct pid paths) (ha : Agreed paths fs)
    (h : Partial (load paths >>= fun config => apply pid paths config).run t)
    (hr : Env.Runs Fs.env fs t u) : Agreed paths u := by
  rcases partial_try_bind_iff.mp h with h | ⟨config, t₁, t₂, rfl, hl, hp⟩
  · rwa [eq_of_cut (still_load paths) h hr]
  · obtain ⟨v, hv, hu⟩ := Env.runs_append_iff.mp hr
    obtain ⟨existing, rfl, hh, rfl⟩ := exists_holds_of_load hl hv
    obtain ⟨existing', hh', hder⟩ := agreed_iff.mp ha
    obtain rfl := holds_inj hh hh'
    have hs : Steady paths (resolve paths existing).robotId v u :=
      wp_cut hp (wp_apply_alone hd fun h => h) hu
    exact agreed_iff.mpr ⟨existing, hs.conf.trans hh, hs.derived hder⟩

/-- Writing a key of `robot.conf` touches nothing before its rename. -/
theorem untouched_of_setKey {key value : Str} (hd : Distinct pid paths)
    (h : Partial (setKey pid paths.robotConf key value).run t)
    (hn : ⟨.rename (tmpPath pid paths.robotConf) paths.robotConf, .ok ()⟩ ∉ t)
    (hr : Env.Runs Fs.env fs t u) : Untouched paths fs u := by
  have huses : (setKey pid paths.robotConf key value).run.Uses (WriterOp pid paths.robotConf) :=
    Uses.try_bind ⟨Or.inl rfl, fun _ => trivial⟩ fun _ =>
      (writeAtomically_writes pid _ _).mono fun o ho => Or.inr ho
  have hops := huses.cut h
  intro p hp
  refine hr.rel (R := fun fs u : Fs => u.node p = fs.node p) (fun _ => rfl)
    (fun h h' => Eq.trans h' h) fun e he v w hs => ?_
  rcases hops e he with ho | ho
  · obtain ⟨o, r⟩ := e
    obtain rfl : o = .readToString paths.robotConf := ho
    exact congrArg (·.node p) hs.1
  by_cases hc : p = paths.robotConf
  · subst hc
    exact ho.node_self (FilePath.parent_join _ _) hs (ne_of_mem_of_not_mem he hn)
  · obtain ⟨hpre, htmp⟩ := hd.apart p hp _ (robotConf_mem paths) hc
    obtain ⟨hl, hq⟩ := ho.quiet_of_not_isPrefix hpre htmp
    exact (Fs.node_of_env hs hl).trans (hq _)

theorem rename_mem_of_setKey {key value : Str}
    (h : Returns (setKey pid path key value).run t (.ok ())) :
    ⟨.rename (tmpPath pid path) path, .ok ()⟩ ∈ t := by
  obtain ⟨x, existing, w, rfl, -, hw⟩ := returns_setKey_ok h
  obtain ⟨parent, s, -, -, rfl⟩ := writeRun_ok_iff.mp hw
  simp

/-- Another robot ID in `robot.conf` is not set by setting the ROS domain ID. -/
theorem agreed_of_written_rosDomainId {existing : Option Str} {d : RosDomainId}
    (hd : Distinct pid paths) (hh : Holds fs paths.robotConf existing)
    (hw : Written pid paths.robotConf (upsertKey existing rosDomainIdKey d.toStr) fs u)
    (ha : Agreed paths fs) : Agreed paths u := by
  obtain ⟨existing', id, hh', hid, hn, text, ht, hnamed⟩ := ha
  obtain rfl := holds_inj hh hh'
  have hconf := robotConf_mem paths
  have hn' := (hd.node_of_written hconf (hostnamePath_mem paths) hd.conf_ne_hostname.symm hw).trans
    hn
  have ht' := (hd.node_of_written hconf (hostsPath_mem paths) hd.conf_ne_hosts.symm hw).trans ht
  rcases hw.file with hf | ⟨-, hf⟩
  · exact ⟨existing, id, hf.trans hh, hid, hn', text, ht', hnamed⟩
  have hkept : (resolve paths (some (upsertKey existing rosDomainIdKey d.toStr))).robotId =
      (resolve paths existing).robotId :=
    Setting.kept_resolve (s := .robotId paths.defaultRobotId)
      (parseValue_upsertKey_of_ne isKey_rosDomainIdKey isKey_robotIdKey robotIdKey_ne
        (Setting.rosDomainId d).plain.newline_not_mem)
  have hid' : NamesRobot paths (some (upsertKey existing rosDomainIdKey d.toStr)) id :=
    namesRobot_iff.mpr (hkept.trans (namesRobot_iff.mp hid))
  exact ⟨some _, id, hf, hid', hn', text, ht', hnamed⟩

theorem wp_setRosDomainId (hd : Distinct pid paths) (ha : Agreed paths fs) (d : RosDomainId) :
    wp Fs.env (Agreed paths) (setRosDomainId pid paths d).run (fun _ => Agreed paths) fs := by
  refine wp_try_bind.mpr (wp_readOptional_alone ha (fun existing hh => ?_) fun _ => ⟨ha, ha⟩)
  have hkept : ∀ {u}, Written pid paths.robotConf (upsertKey existing rosDomainIdKey d.toStr) fs u →
      Agreed paths u := fun hw => agreed_of_written_rosDomainId hd hh hw ha
  exact (wp_writeAtomically_alone hkept).mono fun _ _ _ h => hkept h.1

/-- A command keeps the files in agreement wherever it is cut, unless it has renamed the robot in
`robot.conf`. -/
theorem Agreed.cut (hd : Distinct pid paths) (ha : Agreed paths fs)
    (h : Partial (action.run pid paths).run t) (hr : Env.Runs Fs.env fs t u)
    (hn : action.Renames →
      ⟨.rename (tmpPath pid paths.robotConf) paths.robotConf, .ok ()⟩ ∉ t) : Agreed paths u := by
  cases action with
  | get key => rwa [eq_of_cut (still_get key) h hr]
  | apply => exact ha.cut_load_apply hd h hr
  | set target =>
    cases target with
    | robotId value =>
      have hno := hn ⟨value, rfl⟩
      rcases partial_try_bind_iff.mp h with h | ⟨id, t₁, t₂, rfl, h₁, h₂⟩
      · rwa [eq_of_cut (p := (liftExcept (parseRobotId value)).run) trivial h hr]
      obtain ⟨rfl, -⟩ := returns_ret_iff.mp h₁
      rcases partial_try_bind_iff.mp h₂ with h | ⟨_, t₃, t₄, rfl, h₃, -⟩
      · exact ha.of_untouched (untouched_of_setKey hd h hno hr)
      · exact absurd (by simp [rename_mem_of_setKey h₃]) hno
    | rosDomainId value =>
      rcases partial_try_bind_iff.mp h with h | ⟨d, t₁, t₂, rfl, h₁, h₂⟩
      · rwa [eq_of_cut (p := (liftExcept (parseRosDomainId value)).run) trivial h hr]
      obtain ⟨rfl, -⟩ := returns_ret_iff.mp h₁
      exact wp_cut h₂ (wp_setRosDomainId hd ha d) hr

end Kept

section Processes

variable {p : Process} {processes : List Process} {fs' : Fs}

theorem Process.IsRun.cut (h : p.IsRun paths) : Partial (p.action.run p.pid paths).run p.trace := by
  unfold Process.IsRun at h
  split at h
  · exact h.cut
  · exact h

theorem Process.IsRun.returns (h : p.IsRun paths) (hok : p.result = some (.ok ())) :
    Returns (p.action.run p.pid paths).run p.trace (.ok ()) := by
  rwa [Process.IsRun, hok] at h

/-- A command that derives the host name and succeeds makes the files agree, whatever they were. -/
theorem agreed_of_derives (hd : Distinct pid paths) (hderives : action.Derives)
    (h : Returns (action.run pid paths).run t (.ok ())) (hr : Env.Runs Fs.env fs t u) :
    Agreed paths u := by
  rcases hderives with rfl | ⟨value, rfl⟩
  · exact agreed_of_load_apply hd h hr
  · obtain ⟨id, t₁, t₂, rfl, h₁, h₂⟩ := returns_try_bind_ok_iff.mp h
    obtain ⟨rfl, -⟩ := returns_ret_iff.mp h₁
    obtain ⟨_, t₃, t₄, rfl, -, h₄⟩ := returns_try_bind_ok_iff.mp h₂
    rw [List.nil_append] at hr
    obtain ⟨v, -, hu⟩ := Env.runs_append_iff.mp hr
    exact agreed_of_load_apply hd h₄ hu

theorem Agreed.step (hd : Distinct p.pid paths) (ha : Agreed paths fs) (h : p.IsRun paths)
    (hw : p.Whole paths) (hr : Env.Runs Fs.env fs p.trace u) : Agreed paths u := by
  by_cases hn : p.action.Renames
  · rcases hw hn with hok | hno
    · exact agreed_of_derives hd (Or.inr hn) (h.returns hok) hr
    · exact ha.cut hd h.cut hr fun _ => hno
  · exact ha.cut hd h.cut hr fun hn' => absurd hn' hn

theorem Agreed.run (hd : ∀ q ∈ processes, Distinct q.pid paths) (ha : Agreed paths fs)
    (h : ∀ q ∈ processes, q.IsRun paths ∧ q.Whole paths)
    (hr : Env.Runs Fs.env fs (processes.flatMap Process.trace) fs') : Agreed paths fs' := by
  induction processes generalizing fs with
  | nil => rwa [Env.runs_nil_iff.mp hr]
  | cons q processes ih =>
    obtain ⟨hdq, hd⟩ := List.forall_mem_cons.mp hd
    obtain ⟨⟨hq, hw⟩, h⟩ := List.forall_mem_cons.mp h
    rw [List.flatMap_cons] at hr
    obtain ⟨u, hu, hr⟩ := Env.runs_append_iff.mp hr
    exact ih hd (ha.step hdq hq hw hu) h hr

/-- The robot ID that is printed is the one in the hostname file. -/
theorem Agreed.printed (ha : Agreed paths fs)
    (h : Returns ((IdAction.get .robotId).run pid paths).run t (.ok ()))
    (hr : Env.Runs Fs.env fs t u) : ∃ id : RobotId, ⟨.println id.str, ()⟩ ∈ t ∧
      Holds u paths.hostnamePath (some (id.str ++ ['\n'])) := by
  obtain rfl := eq_of_cut (still_get .robotId) h.cut hr
  obtain ⟨id, t₁, t₂, rfl, h₁, h₂⟩ := returns_try_bind_ok_iff.mp h
  obtain ⟨config, t₃, t₄, rfl, h₃, h₄⟩ := returns_try_bind_ok_iff.mp h₁
  obtain ⟨rfl, hid⟩ := returns_ret_iff.mp h₄
  cases hid
  obtain ⟨_, t₅, rfl, h₅⟩ := returns_call_iff.mp h₂
  obtain ⟨v, hv, -⟩ := Env.runs_append_iff.mp hr
  rw [List.append_nil] at hv
  obtain ⟨existing, hh, hn, -⟩ := agreed_iff.mp ha
  rw [config_of_load h₃ hv hh]
  exact ⟨_, by simp, hn⟩

/-- Once a command that derives the host name has succeeded, `robot.conf`, the hostname file and
the hosts file agree, and whatever commands follow, wherever they fail or are killed, they agree
and the robot ID that is printed is the host name, unless a rename stops after `robot.conf`. -/
theorem artifacts_agree (hp : p.IsRun paths) (hderives : p.action.Derives)
    (hok : p.result = some (.ok ())) (hafter : ∀ q ∈ processes, q.IsRun paths ∧ q.Whole paths)
    (hd : ∀ q ∈ p :: processes, Distinct q.pid paths)
    (hr : Env.Runs Fs.env fs ((p :: processes).flatMap Process.trace) fs') :
    Agreed paths fs' ∧ ∀ (pid : ℕ) (t : List (Event Sys)) (fs'' : Fs),
      Returns ((IdAction.get .robotId).run pid paths).run t (.ok ()) →
      Env.Runs Fs.env fs' t fs'' → ∃ id : RobotId, ⟨.println id.str, ()⟩ ∈ t ∧
        Holds fs'' paths.hostnamePath (some (id.str ++ ['\n'])) := by
  obtain ⟨hdp, hd⟩ := List.forall_mem_cons.mp hd
  rw [List.flatMap_cons] at hr
  obtain ⟨u, hu, hr⟩ := Env.runs_append_iff.mp hr
  have hagreed := agreed_of_derives hdp hderives (hp.returns hok) hu
  have hagreed' := hagreed.run hd hafter hr
  exact ⟨hagreed', fun pid t fs'' => hagreed'.printed⟩

end Processes

section Example

def hostsOfRobot : Str := "127.0.0.1\tlocalhost\n127.0.1.1\trobot\n".toList

/-- A robot without a `robot.conf`, whose host name is the default. -/
def unprovisioned : Fs :=
  (Fs.empty.put [] "hostname".toList (.file (.text "robot\n".toList)) rfl (by decide)).put []
    "hosts".toList (.file (.text hostsOfRobot)) (by decide) (by decide)

/-- Deriving the host name of a robot that has it already. -/
def derivation : Process where
  pid := 1
  action := .apply
  trace := [⟨.readToString rootPaths.robotConf, .error ⟨.notFound, []⟩⟩] ++
    ([⟨.readToString rootPaths.hostnamePath, .ok "robot\n".toList⟩] ++
      ([⟨.readToString rootPaths.hostsPath, .ok hostsOfRobot⟩] ++
        [⟨.readToString rootPaths.hostsPath, .ok hostsOfRobot⟩]) ++
    [⟨.status "hostnamectl".toList
      ["--transient".toList, "set-hostname".toList, "robot".toList], .ok ⟨true, []⟩⟩])
  result := some (.ok ())

theorem derivation_isRun : derivation.IsRun rootPaths := by
  have hload : Returns (load rootPaths).run
      [⟨.readToString rootPaths.robotConf, .error ⟨.notFound, []⟩⟩]
      (.ok (resolve rootPaths none)) :=
    returns_try_map_iff.mpr ⟨.ok none, returns_readOptional_iff.mpr ⟨_, rfl, rfl⟩, rfl⟩
  have hname : renderHostnameFile (resolve rootPaths none).robotId = "robot\n".toList := by decide
  have hhosts : renderHostsFile (some hostsOfRobot) (resolve rootPaths none).robotId =
      hostsOfRobot := by decide
  have hrunning : Returns (applyRuntimeHostname (resolve rootPaths none).robotId)
      [⟨.status "hostnamectl".toList
        ["--transient".toList, "set-hostname".toList, "robot".toList], .ok ⟨true, []⟩⟩] () :=
    returns_call_iff.mpr ⟨.ok ⟨true, []⟩, [], rfl, .ret _⟩
  refine hload.try_bind (Returns.try_bind (a := false) ?_ ?_)
  · refine Returns.try_bind (a := false) ?_ (Returns.try_bind (a := some hostsOfRobot)
      (returns_readOptional_iff.mpr ⟨.ok hostsOfRobot, rfl, rfl⟩)
      (returns_try_map_iff.mpr ⟨.ok false, ?_, rfl⟩))
    · rw [hname]
      exact returns_writeIfChanged_same rfl
    · rw [hhosts]
      exact returns_writeIfChanged_same rfl
  · exact returns_lift_bind_iff.mpr ⟨(), _, [], rfl, hrunning, .ret _⟩

theorem unprovisioned_read : Fs.env unprovisioned
    ⟨.readToString rootPaths.robotConf, .error ⟨.notFound, []⟩⟩ unprovisioned := by
  have hconf : unprovisioned.node rootPaths.robotConf = none := by decide
  exact ⟨rfl, hconf ▸ trivial⟩

theorem unprovisioned_hostname : unprovisioned.node rootPaths.hostnamePath =
    some (.file (.text "robot\n".toList)) := by decide

theorem unprovisioned_hosts : unprovisioned.node rootPaths.hostsPath =
    some (.file (.text hostsOfRobot)) := by decide

/-- What follows the read of `robot.conf`. -/
theorem derivation_runs_tail
    (hname : fs.node rootPaths.hostnamePath = some (.file (.text "robot\n".toList)))
    (hhosts : fs.node rootPaths.hostsPath = some (.file (.text hostsOfRobot))) :
    Env.Runs Fs.env fs derivation.trace.tail fs :=
  .cons ⟨rfl, hname ▸ rfl⟩ (.cons ⟨rfl, hhosts ▸ rfl⟩ (.cons ⟨rfl, hhosts ▸ rfl⟩
    (.cons rfl (.nil _))))

theorem derivation_runs : Env.Runs Fs.env unprovisioned derivation.trace unprovisioned :=
  .cons unprovisioned_read (derivation_runs_tail unprovisioned_hostname unprovisioned_hosts)

/-- What a rename does before it puts its new `robot.conf` in place. -/
def unplacedRename : List (Event Sys) :=
  [⟨.readToString rootPaths.robotConf, .error ⟨.notFound, []⟩⟩, ⟨.createDirAll [], .ok ()⟩,
    ⟨.create (tmpPath 2 rootPaths.robotConf), .ok ()⟩,
    ⟨.write (tmpPath 2 rootPaths.robotConf) "ROBOT_ID=b\n".toList, .ok 11⟩]

/-- A rename that is killed before it puts its new `robot.conf` in place. -/
def killedRename : Process where
  pid := 2
  action := .set (.robotId ['b'])
  trace := unplacedRename
  result := none

theorem killedRename_isRun : killedRename.IsRun rootPaths :=
  .call _ (.call _ (.call _ (.body (.call _ (.nil _)))))

theorem exists_unplaced : ∃ fs', Env.Runs Fs.env unprovisioned unplacedRename fs' ∧
    fs'.node = Function.update unprovisioned.node (tmpPath 2 rootPaths.robotConf)
      (some (.file (.text "ROBOT_ID=b\n".toList))) := by
  obtain ⟨name, hname⟩ := exists_join_of_parent
    (parent_tmpPath 2 (FilePath.parent_join [] "robot.conf".toList))
  have htmp : unprovisioned.node (tmpPath 2 rootPaths.robotConf) = none := by decide
  have htmp' : unprovisioned.node (FilePath.join [] name) ≠ some .dir := by
    rw [← hname]
    exact htmp.trans_ne (by simp)
  obtain ⟨fs₁, h₁, hn₁⟩ := Fs.exists_create unprovisioned.root_dir htmp'
  obtain ⟨fs₂, h₂, hn₂⟩ := Fs.exists_write (d := "ROBOT_ID=b\n".toList)
    (hn₁ ▸ Function.update_self ..)
  rw [hn₁, Function.update_idem, List.nil_append, ← hname] at hn₂
  rw [← hname] at h₁ h₂
  have h₀ : Fs.env unprovisioned ⟨.createDirAll [], .ok ()⟩ unprovisioned :=
    ⟨fun q => Or.inl rfl, fun _ => unprovisioned.root_dir⟩
  exact ⟨fs₂, .cons unprovisioned_read (.cons h₀ (.cons h₁ (.cons h₂ (.nil _)))), hn₂⟩

/-- The host name is derived, and then a rename is killed that has written its temporary. -/
theorem artifacts_agree_killed : ∃ fs',
    Holds fs' (tmpPath 2 rootPaths.robotConf) (some "ROBOT_ID=b\n".toList) ∧
    Agreed rootPaths fs' := by
  obtain ⟨fs', hr, hn⟩ := exists_unplaced
  have hruns : Env.Runs Fs.env unprovisioned
      ([derivation, killedRename].flatMap Process.trace) fs' :=
    Env.runs_append_iff.mpr ⟨_, derivation_runs, Env.runs_append_iff.mpr ⟨_, hr, .nil _⟩⟩
  refine ⟨fs', ?_, (artifacts_agree derivation_isRun (Or.inl rfl) rfl ?_ ?_ hruns).1⟩
  · rw [Holds, hn, Function.update_self]
    rfl
  · simpa using ⟨killedRename_isRun, fun _ => Or.inr (by simp [killedRename, unplacedRename])⟩
  · simp only [List.mem_cons, List.not_mem_nil, or_false, forall_eq_or_imp, forall_eq]
    exact ⟨⟨by decide, by decide⟩, ⟨by decide, by decide⟩⟩

end Example

end RobotCtl.Identity
