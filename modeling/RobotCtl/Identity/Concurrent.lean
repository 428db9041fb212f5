import RobotCtl.Identity.Commands

/-! # Identity commands at the same time

Commands can overlap, and each can fail or be killed anywhere. Every file is
still what it was or a complete text, and every identity that is stored, derived
or printed is one that there was at the start or that some command sets.
-/

namespace RobotCtl.Identity

open Text Conf Prog Interleaving

/-- What there is at the start, and what the commands set. -/
structure Origin where
  paths : Paths
  start : Fs
  sets : IdTarget → Prop

/-- What is done under a process id, until some moment, to run commands one after the other, each
to its end or until it is killed. -/
inductive Executes (pid : ℕ) (paths : Paths) : List IdAction → List (Event Sys) → Prop
  | stop (actions : List IdAction) : Executes pid paths actions []
  | command {action : IdAction} {actions : List IdAction} {t t' : List (Event Sys)} :
      Partial (action.run pid paths).run t → Executes pid paths actions t' →
      Executes pid paths (action :: actions) (t ++ t')

namespace Origin

variable (o : Origin)

/-- The robot ID is that of `robot.conf` at the start, or a command sets it. -/
def KnownId (id : RobotId) : Prop :=
  (∃ existing, Holds o.start o.paths.robotConf existing ∧
    NamesRobot o.paths existing id) ∨ o.sets (.robotId id.str)

/-- The ROS domain ID is that of `robot.conf` at the start, or a command sets it. -/
def KnownDomain (d : RosDomainId) : Prop :=
  (∃ existing, Holds o.start o.paths.robotConf existing ∧
    NamesDomain o.paths existing d) ∨
    ∃ value, o.sets (.rosDomainId value) ∧ IsNumeral (trim value) d.value

structure KnownConfig (config : RobotConfig) : Prop where
  robotId : o.KnownId config.robotId
  rosDomainId : o.KnownDomain config.rosDomainId

def KnownSetting : Setting → Prop
  | .robotId id => o.KnownId id
  | .rosDomainId d => o.KnownDomain d

/-- The text is complete and says nothing but what is known. -/
structure KnownText (p : FilePath) (text : Str) : Prop where
  conf : p = o.paths.robotConf → ∃ config, Means o.paths (some text) config ∧ o.KnownConfig config
  hostname : p = o.paths.hostnamePath → ∃ id, o.KnownId id ∧ text = id.str ++ ['\n']
  hosts : p = o.paths.hostsPath → ∃ id, o.KnownId id ∧ Named id text

/-- A file is what it was at the start, or such a text. -/
def Known (p : FilePath) (n : Option Node) : Prop :=
  n = o.start.node p ∨ ∃ text, n = some (.file (.text text)) ∧ o.KnownText p text

/-- The calls of a process that runs identity commands. -/
inductive Does (pid : ℕ) : SysOp → Prop
  | read (p : FilePath) : Does pid (.readToString p)
  | write {p : FilePath} {op : SysOp} : p ∈ files o.paths → WriteOp pid p op → Does pid op
  | printId {id : RobotId} : o.KnownId id → Does pid (.println id.str)
  | printDomain {d : RosDomainId} : o.KnownDomain d → Does pid (.println (decimal d.value))
  | hostnamectl {id : RobotId} : o.KnownId id → Does pid
      (.status "hostnamectl".toList ["--transient".toList, "set-hostname".toList, id.str])
  | hostname {id : RobotId} : o.KnownId id → Does pid (.status "hostname".toList [id.str])
  | nudge : Does pid (.status "systemctl".toList
      ["--no-block".toList, "try-restart".toList, o.paths.mdnsUnit])

/-- A read of `robot.conf` that succeeds finds what is known. -/
def ReadsKnown (e : Event Sys) : Prop :=
  ∀ x existing, e = ⟨.readToString o.paths.robotConf, x⟩ → Finds x existing →
    ∃ config, Means o.paths existing config ∧ o.KnownConfig config

end Origin

/-- The files and all temporaries of the processes are different ones, and none is above a file. -/
structure Apart {ι : Type} (pids : ι → ℕ) (paths : Paths) : Prop where
  distinct : ∀ i, Distinct (pids i) paths
  tmp : ∀ i j, ∀ p ∈ files paths, ∀ q ∈ files paths, p ≠ q →
    ¬ tmpPath (pids i) p <+: q ∧ tmpPath (pids i) p ≠ tmpPath (pids j) q

variable {o : Origin} {pid : ℕ} {p q : FilePath} {id : RobotId} {config : RobotConfig}
  {action : IdAction} {actions : List IdAction} {t : List (Event Sys)} {existing : Option Str}

section Values

/-- What a text means is known exactly if what is read of it is. -/
theorem known_means_iff : (∃ config, Means o.paths existing config ∧ o.KnownConfig config) ↔
    o.KnownConfig (resolve o.paths existing) := by
  simp only [means_iff, exists_eq_left']

/-- A write of a value shows, or the value is as it was. -/
theorem Setting.loaded_or_kept (paths : Paths) (existing : Option Str) (s : Setting) :
    s.Loaded (resolve paths (some (upsertKey existing s.key s.value))) ∨
      s.Kept (resolve paths (some (upsertKey existing s.key s.value)))
        (resolve paths existing) := by
  cases existing with
  | none => exact Or.inl (s.loaded_resolve (parseValue_upsertKey_none s.isKey s.plain))
  | some text =>
    cases h : (lines text).any (startsWithKey s.key) with
    | false => exact Or.inl (s.loaded_resolve (parseValue_upsertKey_of_not_any s.isKey s.plain h))
    | true =>
      have hold : parseValue text s.key = (lastAssignment s.key text).bind (lineValue s.key) := by
        rw [parseValue_eq_findSome]
        exact findSome_eq_find_bind _ _ _ fun _ => rfl
      have hnew := parseValue_upsertKey_of_any s.isKey s.plain h
      obtain ⟨l, hl⟩ := exists_lastAssignment s.isKey h
      rw [hl, Option.bind_some] at hold hnew
      split at hnew
      · exact Or.inl (s.loaded_resolve hnew)
      · exact Or.inr (Setting.kept_resolve (hnew.trans hold.symm))

/-- Setting a known value keeps everything known. -/
theorem Origin.KnownConfig.upsert {s : Setting} (h : o.KnownConfig (resolve o.paths existing))
    (hs : o.KnownSetting s) :
    o.KnownConfig (resolve o.paths (some (upsertKey existing s.key s.value))) := by
  have hother : ∀ s' : Setting, s'.key ≠ s.key → s'.Kept
      (resolve o.paths (some (upsertKey existing s.key s.value))) (resolve o.paths existing) :=
    fun s' hne => Setting.kept_resolve (parseValue_upsertKey_of_ne s.isKey s'.isKey hne
      s.plain.newline_not_mem)
  have hself := s.loaded_or_kept o.paths existing
  cases s with
  | robotId id =>
    have hd := hother (.rosDomainId o.paths.defaultRosDomainId) robotIdKey_ne.symm
    refine ⟨?_, hd ▸ h.rosDomainId⟩
    rcases hself with hl | hk
    · exact (congrArg o.KnownId hl).mpr hs
    · exact hk ▸ h.robotId
  | rosDomainId d =>
    have hid := hother (.robotId o.paths.defaultRobotId) robotIdKey_ne
    refine ⟨hid ▸ h.robotId, ?_⟩
    rcases hself with hl | hk
    · exact (congrArg o.KnownDomain hl).mpr hs
    · exact hk ▸ h.rosDomainId

theorem Origin.Known.holds {n : Option Node} {fs : Fs} (h : o.Known o.paths.robotConf n)
    (hn : fs.node o.paths.robotConf = n) (hh : Holds fs o.paths.robotConf existing) :
    o.KnownConfig (resolve o.paths existing) := by
  subst hn
  rcases h with hs | ⟨text, ht, hk⟩
  · have hstart : Holds o.start o.paths.robotConf existing := hs.symm.trans hh
    exact ⟨Or.inl ⟨existing, hstart, namesRobot_iff.mpr rfl⟩,
      Or.inl ⟨existing, hstart, namesDomain_iff.mpr rfl⟩⟩
  · have htext : Holds fs o.paths.robotConf (some text) := ht
    exact holds_inj htext hh ▸ known_means_iff.mp (hk.conf rfl)

end Values

section Command

variable {W : Type} {env : Env Sys W} {I : W → Prop} {w : W}

/-- An environment in which the invariant survives the calls of the commands. -/
structure Origin.Supports (o : Origin) (pid : ℕ) (env : Env Sys W) (I : W → Prop) : Prop where
  read : ∀ {w e w'} (p : FilePath), e.1 = .readToString p → I w → env w e w' →
    I w' ∧ o.ReadsKnown e
  write : ∀ {p contents w}, p ∈ files o.paths → o.KnownText p contents → I w →
    wp env I (writeAtomically pid p contents).run (fun _ => I) w
  say : ∀ {op r w w'}, o.Does pid op → I w → env w ⟨op, r⟩ w' → Fs.Still op → I w'

variable (ho : o.Supports pid env I)
include ho

theorem Origin.Supports.wp_readOptional {Q : Except Error (Option Str) → W → Prop}
    (hok : ∀ {w} existing, (p = o.paths.robotConf → o.KnownConfig (resolve o.paths existing)) →
      I w → Q (.ok existing) w) (herr : ∀ {w} err, I w → Q (.error err) w) (hw : I w) :
    wp env I (readOptional p).run Q w := by
  refine ⟨hw, ?_⟩
  rintro x w' he
  obtain ⟨hi, hk⟩ := ho.read p rfl hw he
  refine ⟨hi, ?_⟩
  cases hx : optional p x with
  | error err => exact herr err hi
  | ok existing =>
    exact hok existing (fun hp => known_means_iff.mp
      (hk x existing (by rw [hp]) (optional_eq_ok_iff.mp hx))) hi

theorem Origin.Supports.wp_load {Q : Except Error RobotConfig → W → Prop}
    (hok : ∀ {w config}, o.KnownConfig config → I w → Q (.ok config) w)
    (herr : ∀ {w} err, I w → Q (.error err) w) (hw : I w) :
    wp env I (load o.paths).run Q w := by
  refine wp_try_bind.mpr (ho.wp_readOptional (fun existing hk hi => ?_) (fun err hi => ?_) hw)
  · exact ⟨hi, hok (hk rfl) hi⟩
  · exact ⟨hi, herr err hi⟩

theorem Origin.Supports.wp_writeIfChanged {contents : Str} (hp : p ∈ files o.paths)
    (hc : o.KnownText p contents) (hw : I w) :
    wp env I (writeIfChanged pid p contents).run (fun _ => I) w := by
  refine wp_try_bind.mpr (ho.wp_readOptional (fun existing _ hi => ?_) (fun _ hi => ⟨hi, hi⟩) hw)
  dsimp only
  split
  · exact ⟨hi, hi⟩
  · refine wp_try_bind.mpr ((ho.write hp hc hi).mono ?_)
    rintro (err | _) w' hi' -
    · exact ⟨hi', hi'⟩
    · exact ⟨hi', hi'⟩

theorem Origin.Supports.wp_tryPrograms {programs : List (Str × List Str)}
    (hp : ∀ program ∈ programs, o.Does pid (.status program.1 program.2)) (hw : I w) :
    wp env I (tryPrograms programs) (fun _ => I) w := by
  induction programs generalizing w with
  | nil => exact ⟨hw, hw⟩
  | cons program rest ih =>
    obtain ⟨hprogram, hrest⟩ := List.forall_mem_cons.mp hp
    refine ⟨hw, fun r w' he => ?_⟩
    have hi : I w' := ho.say hprogram hw he trivial
    rcases r with err | ⟨success, text⟩
    · exact ih hrest hi
    · cases success
      · exact ih hrest hi
      · exact ⟨hi, hi⟩

theorem Origin.Supports.wp_applyFiles (hd : Distinct pid o.paths) (hid : o.KnownId config.robotId)
    (hw : I w) : wp env I (applyFiles pid o.paths config).run (fun _ => I) w := by
  have hname : o.KnownText o.paths.hostnamePath (renderHostnameFile config.robotId) :=
    ⟨fun h => absurd h.symm hd.conf_ne_hostname, fun _ => ⟨_, hid, rfl⟩,
      fun h => absurd h hd.hostname_ne_hosts⟩
  have hhosts : ∀ existing, o.KnownText o.paths.hostsPath
      (renderHostsFile existing config.robotId) := fun existing =>
    ⟨fun h => absurd h.symm hd.conf_ne_hosts, fun h => absurd h.symm hd.hostname_ne_hosts,
      fun _ => ⟨_, hid, named_renderHostsFile existing _⟩⟩
  refine wp_try_bind.mpr ((ho.wp_writeIfChanged (hostnamePath_mem _) hname hw).mono ?_)
  rintro (err | changed) w₁ h₁ -
  · exact ⟨h₁, h₁⟩
  refine wp_try_bind.mpr (ho.wp_readOptional (fun existing _ h₂ => ?_) (fun _ h₂ => ⟨h₂, h₂⟩) h₁)
  refine wp_try_bind.mpr ((ho.wp_writeIfChanged (hostsPath_mem _) (hhosts existing) h₂).mono ?_)
  rintro (err | _) w₃ h₃ -
  · exact ⟨h₃, h₃⟩
  · exact ⟨h₃, h₃⟩

theorem Origin.Supports.wp_apply (hd : Distinct pid o.paths) (hid : o.KnownId config.robotId)
    (hw : I w) : wp env I (apply pid o.paths config).run (fun _ => I) w := by
  refine wp_try_bind.mpr ((ho.wp_applyFiles hd hid hw).mono ?_)
  rintro (err | renamed) w₁ h₁ -
  · exact ⟨h₁, h₁⟩
  have hname : ∀ program ∈ hostnameAttempts config.robotId,
      o.Does pid (.status program.1 program.2) :=
    List.forall_mem_cons.mpr ⟨.hostnamectl hid, List.forall_mem_singleton.mpr (.hostname hid)⟩
  refine wp_try_bind.mpr (wp_lift.mpr ((ho.wp_tryPrograms hname h₁).mono ?_))
  rintro _ w₂ h₂ -
  cases renamed with
  | false => exact ⟨h₂, h₂⟩
  | true =>
    refine wp_lift.mpr ?_
    unfold tryRestartAsync
    split
    · exact ⟨h₂, h₂⟩
    · refine ⟨h₂, fun r w₃ he => ?_⟩
      have h₃ : I w₃ := ho.say .nudge h₂ he trivial
      exact ⟨h₃, h₃⟩

theorem Origin.Supports.wp_load_apply (hd : Distinct pid o.paths) (hw : I w) :
    wp env I (load o.paths >>= fun config => apply pid o.paths config).run (fun _ => I) w :=
  wp_try_bind.mpr (ho.wp_load (fun hc hi => ho.wp_apply hd hc.robotId hi)
    (fun _ hi => ⟨hi, hi⟩) hw)

theorem Origin.Supports.wp_setKey {s : Setting} (hd : Distinct pid o.paths)
    (hs : o.KnownSetting s) (hw : I w) :
    wp env I (setKey pid o.paths.robotConf s.key s.value).run (fun _ => I) w := by
  refine wp_try_bind.mpr (ho.wp_readOptional (fun existing hk hi => ?_) (fun _ hi => ⟨hi, hi⟩) hw)
  refine ho.write (robotConf_mem _) ⟨fun _ => known_means_iff.mpr ((hk rfl).upsert hs), ?_, ?_⟩ hi
  · exact fun h => absurd h hd.conf_ne_hostname
  · exact fun h => absurd h hd.conf_ne_hosts

/-- Whatever a command does keeps the invariant. -/
theorem Origin.Supports.wp_run (hd : Distinct pid o.paths)
    (hsets : ∀ target, action = .set target → o.sets target) (hw : I w) :
    wp env I (action.run pid o.paths).run (fun _ => I) w := by
  cases action with
  | get key =>
    have hsay : ∀ {line w}, o.Does pid (.println line) → I w →
        wp env I (liftM (Sys.println line) : Fallible Unit).run (fun _ => I) w := by
      refine fun hdoes hi => wp_lift.mpr ⟨hi, fun r w' he => ?_⟩
      have hi' : I w' := ho.say hdoes hi he trivial
      exact ⟨hi', hi'⟩
    cases key with
    | robotId =>
      refine wp_try_bind.mpr (wp_try_bind.mpr
        (ho.wp_load (fun hc hi => ⟨hi, ?_⟩) (fun _ hi => ⟨hi, hi, hi⟩) hw))
      exact hsay (.printId hc.robotId) hi
    | rosDomainId =>
      refine wp_try_bind.mpr (wp_try_bind.mpr
        (ho.wp_load (fun hc hi => ⟨hi, ?_⟩) (fun _ hi => ⟨hi, hi, hi⟩) hw))
      exact hsay (.printDomain hc.rosDomainId) hi
  | apply => exact ho.wp_load_apply hd hw
  | set target =>
    have hset := hsets target rfl
    cases target with
    | robotId value =>
      refine wp_try_bind.mpr ⟨hw, ?_⟩
      cases hv : RobotId.new value with
      | error err => simp only [parseRobotId, hv]; exact ⟨hw, hw⟩
      | ok id =>
        obtain rfl := RobotId.new_eq_ok_iff.mp hv
        simp only [parseRobotId, hv]
        refine wp_try_bind.mpr ((ho.wp_setKey (s := .robotId id) hd (Or.inr hset) hw).mono ?_)
        rintro (err | _) w' hi -
        · exact ⟨hi, hi⟩
        · exact ho.wp_load_apply hd hi
    | rosDomainId value =>
      refine wp_try_bind.mpr ⟨hw, ?_⟩
      cases hv : RosDomainId.fromStr value with
      | error err => simp only [parseRosDomainId, hv]; exact ⟨hw, hw⟩
      | ok d =>
        simp only [parseRosDomainId, hv]
        have hnumeral := RosDomainId.fromStr_eq_ok_iff.mp hv
        exact ho.wp_setKey (s := .rosDomainId d) hd (Or.inr ⟨value, hset, hnumeral⟩) hw

end Command

section Process

theorem Executes.shorten {u : List (Event Sys)} {paths : Paths} (h : Executes pid paths actions t)
    (hu : u <+: t) : Executes pid paths actions u := by
  induction h generalizing u with
  | stop actions => exact List.prefix_nil.mp hu ▸ .stop actions
  | @command action actions t t' h _ ih =>
    rcases isPrefix_append_cases hu with hu | ⟨v, rfl, hv⟩
    · exact List.append_nil u ▸ .command (h.shorten hu) (.stop actions)
    · exact .command h (ih hv)

theorem Origin.Supports.inv {W : Type} {env : Env Sys W} {I : W → Prop} {w w' : W}
    (ho : o.Supports pid env I) (hd : Distinct pid o.paths)
    (hsets : ∀ target, .set target ∈ actions → o.sets target) (h : Executes pid o.paths actions t)
    (hw : I w) (hr : Env.Runs env w t w') : I w' := by
  induction h generalizing w with
  | stop actions => rwa [Env.runs_nil_iff.mp hr]
  | command h _ ih =>
    obtain ⟨u, hu, hr⟩ := Env.runs_append_iff.mp hr
    have hi := wp_cut h (ho.wp_run hd (fun target ht => hsets target (by simp [ht])) hw) hu
    exact ih (fun target ht => hsets target (List.mem_cons_of_mem _ ht)) hi hr

theorem Origin.Does.still_or_write {op : SysOp} (h : o.Does pid op) :
    Fs.Still op ∨ ∃ p ∈ files o.paths, WriteOp pid p op := by
  cases h with
  | write hp hop => exact Or.inr ⟨_, hp, hop⟩
  | _ => exact Or.inl trivial

/-- The environment that records the calls of a process whose reads find what is known. -/
def Origin.recorded (o : Origin) : Env Sys (List (Event Sys)) := fun log e log' =>
  log' = log ++ [e] ∧ o.ReadsKnown e

theorem Origin.supports_recorded (o : Origin) (pid : ℕ) :
    o.Supports pid o.recorded (fun log => ∀ e ∈ log, o.Does pid e.1) := by
  have hadd : ∀ {log log' e}, o.Does pid e.1 → (∀ e ∈ log, o.Does pid e.1) →
      o.recorded log e log' → ∀ e ∈ log', o.Does pid e.1 := by
    rintro log _ e he hlog ⟨rfl, -⟩
    exact List.forall_mem_append.mpr ⟨hlog, List.forall_mem_singleton.mpr he⟩
  refine ⟨fun p hop hlog he => ⟨hadd (hop ▸ .read p) hlog he, he.2⟩,
    fun {p contents log} hp _ hlog => ?_, fun hdoes hlog he _ => hadd hdoes hlog he⟩
  refine (wp_of_uses (R := fun _ _ => True) (fun _ => trivial) (fun _ _ => trivial) ?_
    (writeAtomically_writes pid p contents) hlog).mono fun _ _ hi _ => hi
  intro op r log log' hop hlog he
  exact ⟨hadd (.write hp hop) hlog he, trivial⟩

theorem Executes.does (h : Executes pid o.paths actions t) (hd : Distinct pid o.paths)
    (hsets : ∀ target, .set target ∈ actions → o.sets target) (hk : ∀ e ∈ t, o.ReadsKnown e) :
    ∀ e ∈ t, o.Does pid e.1 := by
  have hruns : ∀ {log}, Env.Runs o.recorded log t (log ++ t) := by
    clear h
    induction t with
    | nil => intro log; rw [List.append_nil]; exact .nil _
    | cons e t ih =>
      obtain ⟨he, ht⟩ := List.forall_mem_cons.mp hk
      intro log
      rw [List.append_cons]
      exact .cons ⟨rfl, he⟩ (ih ht)
  exact (o.supports_recorded pid).inv hd hsets h (w := []) (by simp) hruns

/-- A process alone with a file and its temporary, whose reads find what is known. -/
def Origin.guarded (o : Origin) (tmp path : FilePath) : Env Sys Published := fun s e s' =>
  s' = publish tmp path s e ∧ o.ReadsKnown e

theorem publish_of_still {tmp path : FilePath} {e : Event Sys} (s : Published)
    (h : Fs.Still e.1) : publish tmp path s e = s := by
  obtain ⟨op, r⟩ := e
  cases op with
  | createDirAll | create | write | rename | removeFile => exact h.elim
  | _ => rfl

/-- Writing another file publishes nothing. -/
theorem publish_of_ne {e : Event Sys} (s : Published) (hop : WriteOp pid q e.1) (hne : p ≠ q)
    (hpre : ¬ tmpPath pid p <+: q) (htmp : tmpPath pid p ≠ tmpPath pid q) :
    publish (tmpPath pid p) p s e = s := by
  have hfile : (publish (tmpPath pid p) p s e).file = s.file := by
    apply publish_file_of_ne s
    obtain ⟨op, r⟩ := e
    intro he
    cases hop with
    | rename => exact hne (SysOp.rename.inj he).2.symm
    | _ => cases he
  have hquiet := (hop.quiet_of_not_isPrefix hpre htmp).2 s.tmp
  exact (congrArg (fun n => Published.mk n _) hquiet).trans (congrArg (Published.mk _) hfile)

theorem Origin.supports_guarded (htmp : ∀ q ∈ files o.paths, p ≠ q →
      ¬ tmpPath pid p <+: q ∧ tmpPath pid p ≠ tmpPath pid q) :
    o.Supports pid (o.guarded (tmpPath pid p) p) (fun s => o.Known p s.file) := by
  refine ⟨?_, ?_, ?_⟩
  · rintro s _ e q hop hs ⟨rfl, hk⟩
    rw [publish_of_still s (hop ▸ trivial)]
    exact ⟨hs, hk⟩
  · intro q contents s hq hc hs
    by_cases hpq : p = q
    · subst hpq
      refine (Conf.wp_writeAtomically (s := s) (fun u v => v = u) ?_ ?_ rfl).mono fun _ _ hi _ => hi
      · rintro u _ rfl (hu | hu)
        · rwa [hu]
        · exact Or.inr ⟨contents, hu, hc⟩
      · rintro u _ _ e - rfl ⟨rfl, -⟩
        rfl
    · obtain ⟨hpre, hne⟩ := htmp q hq hpq
      have hw : wp (o.guarded (tmpPath pid p) p) (fun s => o.Known p s.file)
          (writeAtomically pid q contents).run (fun _ u => u = s) s := by
        refine wp_of_uses (R := fun u v => v = u) (fun _ => rfl) (fun h h' => h'.trans h) ?_
          (writeAtomically_writes pid q contents) hs
        rintro op r u _ hop hi ⟨rfl, -⟩
        rw [publish_of_ne u hop hpq hpre hne]
        exact ⟨hi, rfl⟩
      exact hw.mono fun _ _ hi _ => hi
  · rintro op r s _ - hs ⟨rfl, -⟩ hstill
    rwa [publish_of_still s hstill]

/-- All that a process renames over a file is known. -/
theorem Executes.published {s : Published} (h : Executes pid o.paths actions t)
    (hd : Distinct pid o.paths) (hsets : ∀ target, .set target ∈ actions → o.sets target)
    (hk : ∀ e ∈ t, o.ReadsKnown e)
    (htmp : ∀ q ∈ files o.paths, p ≠ q → ¬ tmpPath pid p <+: q ∧ tmpPath pid p ≠ tmpPath pid q)
    (hs : o.Known p s.file) : o.Known p (t.foldl (publish (tmpPath pid p) p) s).file := by
  have hruns : ∀ {s}, Env.Runs (o.guarded (tmpPath pid p) p) s t
      (t.foldl (publish (tmpPath pid p) p) s) := by
    clear h
    induction t with
    | nil => intro s; exact .nil _
    | cons e t ih =>
      obtain ⟨he, ht⟩ := List.forall_mem_cons.mp hk
      intro s
      exact .cons ⟨rfl, he⟩ (ih ht)
  exact (Origin.supports_guarded htmp).inv hd hsets h hs hruns

end Process

section Interleaved

variable {ι : Type} [DecidableEq ι] {pids : ι → ℕ} {commands : ι → List IdAction}
  {w : List (ι × Event Sys)} {fs fs' : Fs}

theorem parent_of_mem_files (hd : Distinct pid o.paths) (hp : p ∈ files o.paths) :
    ∃ parent, p.parent = some parent := by
  cases p using List.reverseRecOn with
  | append_singleton init name _ => exact ⟨init, FilePath.parent_join init name⟩
  | nil =>
    -- the root is above every other file
    exfalso
    by_cases hc : [] = o.paths.robotConf
    · exact (hd.apart [] hp _ (hostnamePath_mem _)
        (hc ▸ hd.conf_ne_hostname)).1 (List.nil_prefix)
    · exact (hd.apart [] hp _ (robotConf_mem _) hc).1 (List.nil_prefix)

/-- The temporary of a process is touched by that process only. -/
theorem node_tmp_of_does (hpid : Function.Injective pids) (ha : Apart pids o.paths)
    (hdoes : ∀ i e, (i, e) ∈ w → o.Does (pids i) e.1)
    (hr : Env.Runs Fs.env fs (w.map Prod.snd) fs') (i : ι) (hp : p ∈ files o.paths) :
    fs'.node (tmpPath (pids i) p) = (proj i w).foldl (Fs.effect (tmpPath (pids i) p))
      (fs.node (tmpPath (pids i) p)) := by
  obtain ⟨parent, hpar⟩ := parent_of_mem_files (ha.distinct i) hp
  have hquiet : ∀ j e, (j, e) ∈ w → (Fs.Local (tmpPath (pids i) p) e ∧
      ∀ n, Fs.effect (tmpPath (pids i) p) n e = n) ∨ j = i ∧ WriteOp (pids i) p e.1 := by
    intro j e he
    rcases (hdoes j e he).still_or_write with hs | ⟨q, hq, hop⟩
    · exact Or.inl (Fs.quiet_of_still hs _)
    by_cases hpq : p = q
    · subst hpq
      by_cases hj : j = i
      · exact Or.inr ⟨hj, hj ▸ hop⟩
      · exact Or.inl (hop.quiet ((parent_tmpPath _ hpar).trans hpar.symm) (tmpPath_ne _ hpar)
          fun hc => hj (hpid (tmpPath_inj hpar hc)).symm)
    · obtain ⟨hpre, hne⟩ := ha.tmp i j p hp q hq hpq
      exact Or.inl (hop.quiet_of_not_isPrefix hpre hne)
  have hlocal : ∀ e ∈ w.map Prod.snd, Fs.Local (tmpPath (pids i) p) e := by
    intro e he
    obtain ⟨⟨j, e⟩, hm, rfl⟩ := List.mem_map.mp he
    rcases hquiet j e hm with h | ⟨-, hop⟩
    · exact h.1
    · exact hop.local_tmp hpar
  rw [Fs.node_of_runs hr hlocal, foldl_proj]
  intro j e he hj
  rcases hquiet j e he with h | ⟨rfl, -⟩
  · exact h.2
  · exact absurd rfl hj

omit [DecidableEq ι] in
/-- A call changes a file only by renaming the temporary of its process over it. -/
theorem node_of_does {i : ι} {e : Event Sys} (ha : Apart pids o.paths)
    (hdoes : o.Does (pids i) e.1) (he : Fs.env fs e fs') (hp : p ∈ files o.paths) :
    fs'.node p = fs.node p ∨ e = ⟨.rename (tmpPath (pids i) p) p, .ok ()⟩ := by
  obtain ⟨parent, hpar⟩ := parent_of_mem_files (ha.distinct i) hp
  rcases hdoes.still_or_write with hs | ⟨q, hq, hop⟩
  · obtain ⟨hl, hn⟩ := Fs.quiet_of_still hs p
    exact Or.inl ((Fs.node_of_env he hl).trans (hn _))
  by_cases hpq : p = q
  · subst hpq
    by_cases hr : e = ⟨.rename (tmpPath (pids i) p) p, .ok ()⟩
    · exact Or.inr hr
    · exact Or.inl (hop.node_self hpar he hr)
  · obtain ⟨hpre, hne⟩ := (ha.distinct i).apart p hp q hq hpq
    obtain ⟨hl, hn⟩ := hop.quiet_of_not_isPrefix hpre hne
    exact Or.inl ((Fs.node_of_env he hl).trans (hn _))

/-- Whatever identity commands overlap, in whatever order their calls come and wherever each fails
or is killed, every file is what it was at the start or a complete text of known identities, and
every identity that is read, stored, derived, printed or made the running host name is known: it is
the one at the start, or a command sets it. -/
theorem identities_known (hpid : Function.Injective pids) (ha : Apart pids o.paths)
    (hsets : ∀ i target, .set target ∈ commands i → o.sets target)
    (h : ∀ i, Executes (pids i) o.paths (commands i) (proj i w))
    (hr : Env.Runs Fs.env o.start (w.map Prod.snd) fs') :
    (∀ p ∈ files o.paths, o.Known p (fs'.node p)) ∧
      ∀ i e, (i, e) ∈ w → o.ReadsKnown e ∧ o.Does (pids i) e.1 := by
  -- induction on the calls: a read finds a known file, and a rename publishes a known temporary
  induction w using List.reverseRecOn generalizing fs' with
  | nil =>
    rw [Env.runs_nil_iff.mp hr]
    exact ⟨fun p _ => Or.inl rfl, by simp⟩
  | append_singleton w x ih =>
    obtain ⟨i, e⟩ := x
    rw [List.map_append, Env.runs_append_iff] at hr
    obtain ⟨u, hu, hr⟩ := hr
    obtain ⟨v, he, hv⟩ := Env.runs_cons_iff.mp hr
    obtain rfl := Env.runs_nil_iff.mp hv
    have hw : ∀ j, Executes (pids j) o.paths (commands j) (proj j w) := fun j =>
      (h j).shorten (by rw [proj_append]; exact List.prefix_append _ _)
    obtain ⟨hfiles, hcalls⟩ := ih hw hu
    have hread : o.ReadsKnown e := by
      rintro x existing rfl hx
      exact known_means_iff.mpr ((hfiles _ (robotConf_mem _)).holds rfl
        (holds_of_optional he.2 (optional_eq_ok_iff.mpr hx)))
    have hreads : ∀ e' ∈ proj i w ++ [e], o.ReadsKnown e' := by
      refine List.forall_mem_append.mpr ⟨fun e' he' => ?_, List.forall_mem_singleton.mpr hread⟩
      exact (hcalls i e' (mem_proj_iff.mp he')).1
    have hi := h i
    rw [proj_append, proj_cons_self, proj_nil] at hi
    have hd := ha.distinct i
    have hdoes : o.Does (pids i) e.1 := hi.does hd (hsets i) hreads e (by simp)
    refine ⟨fun p hp => ?_, fun j e' hm => ?_⟩
    · rcases node_of_does ha hdoes he hp with hn | rfl
      · rw [hn]
        exact hfiles p hp
      · have htmp := node_tmp_of_does hpid ha (fun j e hm => (hcalls j e hm).2) hu i hp
        have hpub := hi.published (s := ⟨o.start.node (tmpPath (pids i) p), o.start.node p⟩) hd
          (hsets i) hreads (ha.tmp i i p hp) (Or.inl rfl)
        rw [List.foldl_append, List.foldl_cons, List.foldl_nil, publish_rename, foldl_publish_tmp,
          ← htmp] at hpub
        rwa [he.2.2, Function.update_self]
    · rcases List.mem_append.mp hm with hm | hm
      · exact hcalls j e' hm
      · obtain ⟨rfl, rfl⟩ := Prod.mk.inj (List.mem_singleton.mp hm)
        exact ⟨hread, hdoes⟩

end Interleaved

section Example

def examplePids (i : Bool) : ℕ := if i then 2 else 1

def exampleCommands (i : Bool) : List IdAction :=
  if i then [.set (.robotId ['b'])] else [.apply]

/-- The call that puts the new `robot.conf` in place. -/
def placing : Event Sys :=
  ⟨.rename (tmpPath 2 rootPaths.robotConf) rootPaths.robotConf, .ok ()⟩

/-- A derivation reads `robot.conf` before a rename puts the new one in place, and goes on when the
rename has been killed. -/
def exampleCalls : List (Bool × Event Sys) :=
  unplacedRename.map (Prod.mk true) ++
    (false, ⟨.readToString rootPaths.robotConf, .error ⟨.notFound, []⟩⟩) :: (true, placing) ::
      derivation.trace.tail.map (Prod.mk false)

/-- A robot without a `robot.conf` that is being renamed to `b`. -/
def renamedOrigin : Origin := ⟨rootPaths, unprovisioned, fun target => target = .robotId ['b']⟩

theorem partial_placed : Partial ((IdAction.set (.robotId ['b'])).run 2 rootPaths).run
    (unplacedRename ++ [placing]) := by
  have hpar : rootPaths.robotConf.parent = some [] := FilePath.parent_join _ _
  have hread : optional rootPaths.robotConf (.error ⟨.notFound, []⟩) = .ok none := rfl
  have hset := returns_setKey hread (returns_writeAtomically_once 2 hpar
    (upsertKey_ne_nil none robotIdKey ['b']))
  have hrename : Partial (setRobotId 2 rootPaths idB).run (unplacedRename ++ [placing]) :=
    partial_try_bind_iff.mpr (Or.inl hset.cut)
  exact hrename

theorem executes_example : ∀ i, Executes (examplePids i) renamedOrigin.paths (exampleCommands i)
    (proj i exampleCalls) := by
  have hrename : proj true exampleCalls = unplacedRename ++ [placing] := by
    rw [exampleCalls, proj_append, proj_map_self, proj_cons_of_ne (by decide), proj_cons_self,
      proj_map_of_ne _ (by decide)]
  have hderive : proj false exampleCalls = derivation.trace := by
    rw [exampleCalls, proj_append, proj_map_of_ne _ (by decide), proj_cons_self,
      proj_cons_of_ne (by decide), proj_map_self]
    rfl
  rintro (_ | _)
  · rw [hderive, ← List.append_nil derivation.trace]
    exact .command derivation_isRun.cut (.stop [])
  · rw [hrename, ← List.append_nil (unplacedRename ++ [placing])]
    exact .command partial_placed (.stop [])

theorem exists_placed : ∃ fs', Env.Runs Fs.env unprovisioned (exampleCalls.map Prod.snd) fs' ∧
    Holds fs' rootPaths.robotConf (some "ROBOT_ID=b\n".toList) := by
  obtain ⟨fs₁, h₁, hn₁⟩ := exists_unplaced
  obtain ⟨name, hname⟩ := exists_join_of_parent
    (parent_tmpPath 2 (FilePath.parent_join [] "robot.conf".toList))
  have hne : tmpPath 2 rootPaths.robotConf ≠ rootPaths.robotConf :=
    tmpPath_ne 2 (FilePath.parent_join _ _)
  have hdiff : name ≠ "robot.conf".toList := fun h => hne (hname.trans (by rw [h]; rfl))
  have hconf : fs₁.node rootPaths.robotConf = none := by
    rw [hn₁, Function.update_of_ne hne.symm]
    decide
  have htmp : fs₁.node (FilePath.join [] name) =
      some (.file (.text "ROBOT_ID=b\n".toList)) := by
    rw [hn₁, ← hname]
    exact Function.update_self ..
  obtain ⟨fs₂, h₂, hn₂⟩ : ∃ fs₂, Fs.env fs₁ placing fs₂ ∧ fs₂.node =
      Function.update (Function.update fs₁.node (tmpPath 2 rootPaths.robotConf) none)
        rootPaths.robotConf (some (.file (.text "ROBOT_ID=b\n".toList))) := by
    have h := Fs.exists_rename hdiff htmp (hconf.trans_ne (by simp))
    rw [← hname] at h
    exact h
  have hfile (q : FilePath) (hq : q ≠ rootPaths.robotConf)
      (hq' : q ≠ tmpPath 2 rootPaths.robotConf) : fs₂.node q = unprovisioned.node q := by
    rw [hn₂, Function.update_of_ne hq, Function.update_of_ne hq', hn₁, Function.update_of_ne hq']
  have hread : Fs.env fs₁ ⟨.readToString rootPaths.robotConf, .error ⟨.notFound, []⟩⟩ fs₁ :=
    ⟨rfl, hconf ▸ trivial⟩
  have hrest := derivation_runs_tail
    ((hfile _ (by decide) (by decide)).trans unprovisioned_hostname)
    ((hfile _ (by decide) (by decide)).trans unprovisioned_hosts)
  refine ⟨fs₂, ?_, ?_⟩
  · rw [exampleCalls, List.map_append, List.map_cons, List.map_cons, map_snd_map_mk, map_snd_map_mk]
    exact Env.runs_append_iff.mpr ⟨fs₁, h₁, .cons hread (.cons h₂ hrest)⟩
  · rw [Holds, hn₂, Function.update_self]
    rfl

/-- A rename puts its `robot.conf` in place and is killed, while the old host name is derived. -/
theorem identities_known_overlapping : ∃ fs',
    Holds fs' rootPaths.robotConf (some "ROBOT_ID=b\n".toList) ∧
    (∀ p ∈ files rootPaths, renamedOrigin.Known p (fs'.node p)) ∧
    ∀ i e, (i, e) ∈ exampleCalls → renamedOrigin.ReadsKnown e ∧
      renamedOrigin.Does (examplePids i) e.1 := by
  have hpid : Function.Injective examplePids := by
    rintro (_ | _) (_ | _) h <;> first | rfl | exact absurd h (by decide)
  have hapart : Apart examplePids renamedOrigin.paths := by
    refine ⟨?_, by decide⟩
    rintro (_ | _) <;> exact ⟨by decide, by decide⟩
  have hsets : ∀ i target, .set target ∈ exampleCommands i → renamedOrigin.sets target := by
    rintro (_ | _) target ht
    · simp [exampleCommands] at ht
    · simpa [exampleCommands, renamedOrigin] using ht
  obtain ⟨fs', hr, hconf⟩ := exists_placed
  exact ⟨fs', hconf, identities_known hpid hapart hsets executes_example hr⟩

end Example

end RobotCtl.Identity
