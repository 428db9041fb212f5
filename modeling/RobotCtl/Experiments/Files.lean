import RobotCtl.Conf.Atomic
import RobotCtl.Experiments.Projects

/-! # The files of the experiment commands

The commands write no file but `enabled.conf` and `experiments.conf`, each from
its template and only where nothing is in its place. Wherever a command is cut,
a file that was there is still what it was.
-/

namespace RobotCtl.Experiments

open Text Conf Prog

/-- The files that the commands create, with the templates of their contents. -/
def createdFiles (dir : FilePath) : List (FilePath × Str) :=
  [(dir.join "enabled.conf".toList, enabledConfTemplate),
    (dir.join "experiments.conf".toList, settingsTemplate)]

/-- What the commands leave of a file system: a file that they create is as it was, or was missing
and holds its template, and elsewhere directories above may have been made. -/
structure Kept (pid : ℕ) (dir : FilePath) (fs fs' : Fs) : Prop where
  created : ∀ c ∈ createdFiles dir, fs'.node c.1 = fs.node c.1 ∨
    fs.node c.1 = none ∧ fs'.node c.1 = some (.file (.text c.2))
  frame : ∀ q, (∀ c ∈ createdFiles dir, q ≠ c.1 ∧ q ≠ tmpPath pid c.1) →
    fs'.node q = fs.node q ∨ q <+: dir ∧ fs.node q = none ∧ fs'.node q = some .dir

variable {pid : ℕ} {paths : Paths} {dir : FilePath} {invocation : Invocation}
  {options : StartOptions} {command : Command} {targets : List Target}
  {fallback : Fallback} {c : FilePath × Str} {o : SysOp}
  {t : List (Event Sys)} {fs fs' fs'' : Fs}

theorem enabledConf_mem :
    (dir.join "enabled.conf".toList, enabledConfTemplate) ∈ createdFiles dir := List.mem_cons_self

theorem settings_mem :
    (dir.join "experiments.conf".toList, settingsTemplate) ∈ createdFiles dir :=
  List.mem_cons_of_mem _ (List.mem_singleton_self _)

section Uses

theorem ScanCall.still (h : ScanCall o) : Fs.Still o := by
  cases o <;> trivial

theorem readOptional_still (path : FilePath) : (readOptional path).run.Uses Fs.Still :=
  ⟨trivial, fun _ => trivial⟩

theorem requireDocker_still : requireDocker.run.Uses Fs.Still :=
  Uses.try_bind (uses_orFail (p := Sys.status docker ["--version".toList])
    ⟨trivial, fun _ => trivial⟩) fun _ => trivial

theorem filterFiles_still (dir : FilePath) (want : Bool) (targets : List Target) :
    (filterFiles dir want targets).Uses Fs.Still := by
  induction targets with
  | nil => trivial
  | cons target targets ih => exact ⟨trivial, fun _ => ih.bind fun _ => trivial⟩

theorem onDisk_still (dir : FilePath) : (onDisk dir).run.Uses Fs.Still :=
  (onDisk_uses dir).mono fun _ => ScanCall.still

theorem compose_still (dir : FilePath) (name : ExperimentName) (profiles : Profiles)
    (verb : List Str) : (compose dir name profiles verb).run.Uses Fs.Still :=
  ⟨trivial, fun _ => trivial⟩

theorem startOne_still (dir : FilePath) (ignore : Bool) (failed : List Str) (target : Target) :
    (startOne dir ignore failed target).Uses Fs.Still := by
  refine (compose_still _ _ _ _).bind fun pulled => ?_
  split
  · trivial
  · refine (compose_still _ _ _ _).bind fun started => ?_
    split <;> trivial

theorem stopOne_still (dir : FilePath) (failed : List Str) (target : Target) :
    (stopOne dir failed target).Uses Fs.Still := by
  refine (compose_still _ _ _ _).bind fun stopped => ?_
  split <;> trivial

theorem statusOne_still (dir : FilePath) (target : Target) : (statusOne dir target).Uses Fs.Still :=
  ⟨trivial, fun _ => (compose_still _ _ _ _).bind fun _ => trivial⟩

theorem listRow_still (dir : FilePath) (enabled : List Target) (name : ExperimentName) :
    (listRow dir enabled name).Uses Fs.Still := by
  refine Uses.bind ?_ fun _ => trivial
  refine ⟨trivial, fun isFile => ?_⟩
  cases isFile with
  | false => trivial
  | true => exact ⟨trivial, fun _ => trivial⟩

theorem printLines_still (ls : List Str) : (printLines ls).Uses Fs.Still := by
  induction ls with
  | nil => trivial
  | cons l ls ih => exact ⟨trivial, fun _ => ih⟩

end Uses

section Rules

variable {W : Type} {env : Env Sys W} {I : W → Prop} {w : W}

/-- A program that leaves the files alone keeps what such calls keep. -/
theorem wp_still {α : Type} {p : Prog Sys α}
    (hstill : ∀ {o r w w'}, Fs.Still o → I w → env w ⟨o, r⟩ w' → I w') (h : p.Uses Fs.Still)
    (hw : I w) :
    wp env I p (fun _ w' => I w') w :=
  wp_keeps (fun ho hi he => ⟨hstill ho hi he, fun _ => hstill ho hi he⟩) h hw hw

variable (hstill : ∀ {o r w w'}, Fs.Still o → I w → env w ⟨o, r⟩ w' → I w')
  (hensure : ∀ c ∈ createdFiles paths.experimentsDir, ∀ w, I w →
    wp env I (ensureFile pid c.1 c.2).run (fun _ w' => I w') w)

include hstill hensure

theorem wp_prepare (targets : List Target) (fallback : Fallback) (hw : I w) :
    wp env I (prepare pid paths targets fallback).run (fun _ w' => I w') w := by
  apply wp_try_bind.mpr
  apply (wp_still hstill requireDocker_still hw).mono
  rintro (err | _) u - hu
  · exact ⟨hu, hu⟩
  dsimp only
  unfold select
  split
  · refine wp_still hstill ?_ hu
    refine (filterFiles_still _ _ _).lift_bind fun missing => ?_
    split <;> trivial
  · cases fallback with
    | enabled =>
      refine wp_try_bind.mpr (wp_try_bind.mpr ((hensure _ enabledConf_mem u hu).mono ?_))
      rintro (err | _) v - hv
      · exact ⟨hv, hv, hv⟩
      have hrest : ∀ confPath : FilePath, (do
          let text := (← readOptional confPath).getD []
          filterFiles paths.experimentsDir true (parseEnabled text).targets :
            Fallible (List Target)).run.Uses Fs.Still := fun confPath =>
        (readOptional_still _).try_bind fun existing =>
          (filterFiles_still _ _ _).bind fun _ => trivial
      apply (wp_still hstill (hrest _) hv).mono
      rintro (err | selected) x - hx
      · exact ⟨hx, hx⟩
      · exact ⟨hx, hx⟩
    | everythingOnDisk =>
      refine wp_try_bind.mpr ((wp_still hstill (onDisk_still _) hu).mono ?_)
      rintro (err | names) x - hx
      · exact ⟨hx, hx⟩
      · exact ⟨hx, hx⟩

theorem wp_startSettings (options : StartOptions) (hw : I w) :
    wp env I (startSettings pid paths options).run (fun _ w' => I w') w := by
  refine wp_try_bind.mpr ((hensure _ settings_mem w hw).mono ?_)
  rintro (err | _) u - hu
  · exact ⟨hu, hu⟩
  dsimp only
  split
  · exact ⟨hu, hu⟩
  · exact wp_still hstill ((readOptional_still _).try_bind fun existing => trivial) hu

/-- What calls that leave the files alone keep, and what making sure of the created files keeps, the
commands keep. -/
theorem wp_invocation (invocation : Invocation) (hw : I w) :
    wp env I (invocation.run pid paths).run (fun _ w' => I w') w := by
  match invocation with
  | .act (.start options) targets =>
    show wp env I (start pid paths targets options).run (fun _ w' => I w') w
    rw [start_eq]
    refine wp_try_bind.mpr ((wp_prepare hstill hensure targets .enabled hw).mono ?_)
    rintro (err | ⟨dir, selected⟩) u - hu
    · exact ⟨hu, hu⟩
    refine wp_try_bind.mpr ((wp_startSettings hstill hensure options hu).mono ?_)
    rintro (err | ignore) v - hv
    · exact ⟨hv, hv⟩
    exact wp_still hstill (Uses.lift_bind (Uses.foldlM_prog (startOne_still dir ignore))
      fun _ => trivial) hv
  | .act .stop targets =>
    show wp env I (stop pid paths targets).run (fun _ w' => I w') w
    rw [stop_eq]
    refine wp_try_bind.mpr ((wp_prepare hstill hensure targets .everythingOnDisk hw).mono ?_)
    rintro (err | ⟨dir, selected⟩) u - hu
    · exact ⟨hu, hu⟩
    exact wp_still hstill (Uses.lift_bind (Uses.foldlM_prog (stopOne_still dir))
      fun _ => trivial) hu
  | .act .status targets =>
    show wp env I (status pid paths targets).run (fun _ w' => I w') w
    rw [status_eq]
    refine wp_try_bind.mpr ((wp_prepare hstill hensure targets .enabled hw).mono ?_)
    rintro (err | ⟨dir, selected⟩) u - hu
    · exact ⟨hu, hu⟩
    exact wp_still hstill ((Uses.foldlM_prog fun _ => statusOne_still dir).bind
      fun _ => trivial) hu
  | .list =>
    refine wp_still hstill ?_ hw
    refine (readOptional_still _).try_bind fun existing => (onDisk_still _).try_bind fun found => ?_
    by_cases hnames : listNames (enabledOf existing) found = []
    · rw [if_pos hnames]
      trivial
    · rw [if_neg hnames]
      exact Uses.lift_bind (Uses.mapM_prog (listRow_still _ _)) fun rows =>
        (printLines_still _).bind fun _ => trivial

end Rules

section Kept

theorem Kept.refl (pid : ℕ) (dir : FilePath) (fs : Fs) : Kept pid dir fs fs :=
  ⟨fun _ _ => Or.inl rfl, fun _ _ => Or.inl rfl⟩

theorem exists_join_of_created (hc : c ∈ createdFiles dir) : ∃ name, c.1 = dir.join name := by
  rcases List.mem_cons.mp hc with rfl | hc
  · exact ⟨_, rfl⟩
  · obtain rfl := List.mem_singleton.mp hc
    exact ⟨_, rfl⟩

/-- The temporaries of the created files are none of these. -/
theorem created_ne_tmpPath {c' : FilePath × Str} (hc : c ∈ createdFiles dir)
    (hc' : c' ∈ createdFiles dir) : c'.1 ≠ tmpPath pid c.1 := by
  have henabled : FilePath.fileStem "enabled.conf".toList = "enabled".toList := by decide
  have hsettings : FilePath.fileStem "experiments.conf".toList = "experiments".toList := by decide
  simp only [createdFiles, List.mem_cons, List.not_mem_nil, or_false] at hc hc'
  intro he
  rw [tmpPath] at he
  rcases hc with rfl | rfl <;> rcases hc' with rfl | rfl <;>
    rw [FilePath.withExtension_join, FilePath.join_inj] at he
  · rw [henabled] at he
    simp at he
  · rw [henabled] at he
    simp at he
  · rw [hsettings] at he
    simp at he
  · rw [hsettings] at he
    simp at he

theorem created_inj {c' : FilePath × Str} (hc : c ∈ createdFiles dir) (hc' : c' ∈ createdFiles dir)
    (he : c'.1 = c.1) : c' = c := by
  simp only [createdFiles, List.mem_cons, List.not_mem_nil, or_false] at hc hc'
  rcases hc with rfl | rfl <;> rcases hc' with rfl | rfl
  · rfl
  · exact absurd (FilePath.join_inj.mp he).2 (by decide)
  · exact absurd (FilePath.join_inj.mp he).2 (by decide)
  · rfl

/-- Writing a created file that is no file yet keeps what the commands keep. -/
theorem Kept.write (h : Kept pid dir fs fs') (hc : c ∈ createdFiles dir)
    (hfile : fs'.isFile c.1 = false) (hw : Written pid c.1 c.2 fs' fs'') :
    Kept pid dir fs fs'' := by
  obtain ⟨name, hname⟩ := exists_join_of_created hc
  have hnone : fs'.node c.1 ≠ some .dir → fs'.node c.1 = none := by
    intro hd
    unfold Fs.isFile at hfile
    rcases hn : fs'.node c.1 with _ | ⟨x⟩ | _
    · rfl
    · rw [hn] at hfile
      cases hfile
    · exact absurd hn hd
  constructor
  · intro c' hc'
    by_cases he : c' = c
    · subst he
      have hold : fs'.node c'.1 = fs.node c'.1 := by
        refine (h.created c' hc').resolve_right ?_
        rintro ⟨-, hn⟩
        rw [Fs.isFile, hn] at hfile
        cases hfile
      rcases hw.file with hn | ⟨hd, hn⟩
      · exact Or.inl (hn.trans hold)
      · exact Or.inr ⟨hold ▸ hnone hd, hn⟩
    · have hne : c'.1 ≠ c.1 := fun hp => he (created_inj hc hc' hp)
      rcases hw.frame c'.1 hne (created_ne_tmpPath hc hc') with hn | ⟨hp, -⟩
      · rw [hn]
        exact h.created c' hc'
      · obtain ⟨name', hname'⟩ := exists_join_of_created hc'
        refine absurd (hp.eq_of_length ?_) hne
        rw [hname, hname']
        simp [FilePath.join]
  · intro q hq
    obtain ⟨hqc, hqt⟩ := hq c hc
    rcases hw.frame q hqc hqt with hn | ⟨hp, hn, hn'⟩
    · rw [hn]
      exact h.frame q hq
    · have hp : q <+: dir := by
        rw [hname, FilePath.join] at hp hqc
        exact (List.prefix_concat_iff.mp hp).resolve_left hqc
      rcases h.frame q hq with hs | ⟨-, -, hs⟩
      · exact Or.inr ⟨hp, hs ▸ hn, hn'⟩
      · rw [hs] at hn
        cases hn

/-- Making sure of a created file, for an invariant of the file systems in which it is as it was,
or was missing and has been written so far. -/
theorem wp_ensureFile (hc : c ∈ createdFiles dir) {I : Fs → Prop}
    (hI : ∀ {w}, Kept pid dir fs w → I w)
    (hk : Kept pid dir fs fs') :
    wp Fs.env I (ensureFile pid c.1 c.2).run (fun _ w' => Kept pid dir fs w') fs' := by
  refine wp_try_bind.mpr (wp_lift.mpr ⟨hI hk, ?_⟩)
  rintro isFile w ⟨rfl, hfile⟩
  refine ⟨hI hk, ?_⟩
  cases isFile with
  | true => exact ⟨hI hk, hk⟩
  | false =>
    refine wp_withContext.mpr ((wp_writeAtomically_alone fun hw => ?_).mono ?_)
    · exact hI (hk.write hc hfile.symm hw)
    · exact fun _ _ _ hw => hk.write hc hfile.symm hw.1

theorem kept_of_cut (h : Partial (invocation.run pid paths).run t)
    (hr : Env.Runs Fs.env fs t fs') : Kept pid paths.experimentsDir fs fs' := by
  refine wp_cut h (wp_invocation (fun ho hi he => Fs.eq_of_still ho he ▸ hi) ?_ invocation
    (.refl _ _ _)) hr
  exact fun c hc w hw => wp_ensureFile hc id hw

/-- The commands neither add nor remove a stack. -/
theorem Kept.sameStacks (h : Kept pid dir fs fs') : SameStacks dir fs fs' := by
  intro name
  have hlen : (composeFile dir name).length = dir.length + 2 := by
    simp [composeFile, FilePath.join]
  have hnode : fs'.node (composeFile dir name) = fs.node (composeFile dir name) := by
    refine (h.frame _ fun c hc => ?_).resolve_right ?_
    · obtain ⟨file, hfile⟩ := exists_join_of_created hc
      rw [hfile, tmpPath, FilePath.withExtension_join]
      constructor
      · intro he
        simpa [hlen, FilePath.join] using congrArg List.length he
      · intro he
        simpa [hlen, FilePath.join] using congrArg List.length he
    · rintro ⟨hp, -⟩
      have hle := hp.length_le
      omega
  rw [hasStack_eq, hasStack_eq, Fs.isFile, Fs.isFile, hnode]

end Kept

/-- Wherever a command is cut, the files that it creates are as they were, or were missing and hold
their templates, and elsewhere there is nothing new but directories above them and temporaries. If
both are files already, it makes no call that changes a file. -/
theorem files_kept (h : Partial (invocation.run pid paths).run t) (hr : Env.Runs Fs.env fs t fs') :
    Kept pid paths.experimentsDir fs fs' ∧
      ((∀ c ∈ createdFiles paths.experimentsDir, fs.isFile c.1 = true) →
        fs' = fs ∧ ∀ e ∈ t, Fs.Still e.1) := by
  refine ⟨kept_of_cut h hr, fun hfiles => ?_⟩
  let I : Fs × List (Event Sys) → Prop := fun w => w.1 = fs ∧ ∀ e ∈ w.2, Fs.Still e.1
  have hstill : ∀ {o r w w'}, Fs.Still o → I w → Env.logged Fs.env w ⟨o, r⟩ w' → I w' := by
    rintro o r w w' ho ⟨hfs, hlog⟩ ⟨he, hadd⟩
    refine ⟨(Fs.eq_of_still ho he).trans hfs, ?_⟩
    rw [hadd]
    exact List.forall_mem_append.mpr ⟨hlog, by simpa using ho⟩
  have hensure : ∀ c ∈ createdFiles paths.experimentsDir, ∀ w, I w →
      wp (Env.logged Fs.env) I (ensureFile pid c.1 c.2).run (fun _ w' => I w') w := by
    intro c hc w hw
    refine wp_try_bind.mpr (wp_lift.mpr ⟨hw, ?_⟩)
    intro isFile w' he
    have hw' := hstill (show Fs.Still (.isFile c.1) from trivial) hw he
    have htrue : isFile = true := he.1.2.trans (hw.1 ▸ hfiles c hc)
    subst htrue
    exact ⟨hw', hw', hw'⟩
  have hrun : I (fs', [] ++ t) := wp_cut h
    (wp_invocation hstill hensure invocation ⟨rfl, by simp⟩) hr.logged
  simpa [I] using hrun

section Cut

/-- What a command acts on when it names nothing. -/
def Command.toFallback : Command → Fallback
  | .start _ | .status => .enabled
  | .stop => .everythingOnDisk

/-- The call runs compose for this target. -/
def Concerns (dir : FilePath) (target : Target) (o : SysOp) : Prop :=
  ∃ profiles, ∃ invocation : Invocation, ∃ verb ∈ invocation.verbs,
    o = .status docker (composeArgs dir target.name profiles verb)

/-- Compose was asked for nothing, or the targets were selected and it was asked for these only. -/
def AsksSelected (pid : ℕ) (paths : Paths) (targets : List Target) (fallback : Fallback)
    (t : List (Event Sys)) : Prop :=
  (∀ e ∈ t, Quiet e.1) ∨ ∃ selected t₁ t₂, t = t₁ ++ t₂ ∧
    Returns (prepare pid paths targets fallback).run t₁ (.ok (paths.experimentsDir, selected)) ∧
    ∀ e ∈ t₂, Quiet e.1 ∨ ∃ target ∈ selected, Concerns paths.experimentsDir target e.1

theorem compose_concerns {verb : List Str} (invocation : Invocation) (hv : verb ∈ invocation.verbs)
    (dir : FilePath) (target : Target) (profiles : Profiles) :
    (compose dir target.name profiles verb).run.Uses fun o => Quiet o ∨ Concerns dir target o :=
  ⟨Or.inr ⟨profiles, invocation, verb, hv, rfl⟩, fun _ => trivial⟩

theorem startOne_concerns (dir : FilePath) (ignore : Bool) (target : Target) (failed : List Str) :
    (startOne dir ignore failed target).Uses fun o => Quiet o ∨ Concerns dir target o := by
  refine (compose_concerns _ (pullVerb_mem ⟨none⟩ []) dir target _).bind fun pulled => ?_
  split
  · trivial
  · refine (compose_concerns _ (upVerb_mem ⟨none⟩ []) dir target _).bind fun started => ?_
    split <;> trivial

theorem stopOne_concerns (dir : FilePath) (target : Target) (failed : List Str) :
    (stopOne dir failed target).Uses fun o => Quiet o ∨ Concerns dir target o := by
  have hv : (stopPlan target.profiles).2 ∈ (Invocation.act .stop []).verbs := by
    cases target.profiles <;> simp [stopPlan, Invocation.verbs]
  refine (compose_concerns (.act .stop []) hv dir target _).bind fun stopped => ?_
  split <;> trivial

theorem statusOne_concerns (dir : FilePath) (target : Target) :
    (statusOne dir target).Uses fun o => Quiet o ∨ Concerns dir target o :=
  ⟨Or.inl trivial, fun _ => (compose_concerns (.act .status []) (by simp [Invocation.verbs])
    dir target _).bind fun _ => trivial⟩

/-- The rounds for the selected targets, each with calls for its own target only. -/
theorem foldlM_concerns {σ : Type} {f : σ → Target → Prog Sys σ} {s : σ} (selected : List Target)
    (h : ∀ target s, (f s target).Uses fun o => Quiet o ∨ Concerns dir target o) :
    (selected.foldlM f s).Uses fun o => Quiet o ∨ ∃ target ∈ selected, Concerns dir target o :=
  Uses.foldlM_mem fun target ht s => (h target s).mono fun _ ho =>
    ho.imp_right fun hc => ⟨target, ht, hc⟩

/-- What comes after the selection asks only for what was selected, or nothing does. -/
theorem asksSelected_of_prepare {f : FilePath × List Target → Fallible Unit}
    (hf : ∀ selected, (f (paths.experimentsDir, selected)).run.Uses fun o =>
      Quiet o ∨ ∃ target ∈ selected, Concerns paths.experimentsDir target o)
    (h : Partial (prepare pid paths targets fallback >>= f).run t) :
    AsksSelected pid paths targets fallback t := by
  rcases partial_try_bind_iff.mp h with h | ⟨⟨dir, selected⟩, t₁, t₂, rfl, hp, h⟩
  · exact Or.inl ((prepare_quiet _ _ _ _).cut h)
  · obtain rfl := dir_of_prepare hp
    exact Or.inr ⟨selected, t₁, t₂, rfl, hp, (hf selected).cut h⟩

/-- Wherever a command is cut, it has asked compose only for what it selected. -/
theorem asksSelected_of_partial (h : Partial (command.run pid paths targets).run t) :
    AsksSelected pid paths targets command.toFallback t := by
  cases command with
  | start options =>
    have h : Partial (start pid paths targets options).run t := h
    rw [start_eq] at h
    refine asksSelected_of_prepare (fun selected => ?_) h
    refine ((startSettings_quiet _ _ _).mono fun _ => Or.inl).try_bind fun ignore => ?_
    exact Uses.lift_bind (foldlM_concerns selected (startOne_concerns _ ignore)) fun _ => trivial
  | stop =>
    have h : Partial (stop pid paths targets).run t := h
    rw [stop_eq] at h
    refine asksSelected_of_prepare (fun selected => ?_) h
    exact Uses.lift_bind (foldlM_concerns selected (stopOne_concerns _)) fun _ => trivial
  | status =>
    have h : Partial (status pid paths targets).run t := h
    rw [status_eq] at h
    refine asksSelected_of_prepare (fun selected => ?_) h
    exact (foldlM_concerns selected fun target _ => statusOne_concerns _ target).bind
      fun _ => trivial

end Cut

section Unconfigured

/-- Nobody has configured experiments: what the commands create is missing, or as they left it. -/
def Unconfigured (dir : FilePath) (fs : Fs) : Prop :=
  ∀ c ∈ createdFiles dir, fs.node c.1 = none ∨ fs.node c.1 = some (.file (.text c.2))

theorem Unconfigured.kept (h : Unconfigured dir fs) (hk : Kept pid dir fs fs') :
    Unconfigured dir fs' := by
  intro c hc
  rcases hk.created c hc with hn | ⟨-, hn⟩
  · rw [hn]
    exact h c hc
  · exact Or.inr hn

end Unconfigured

section Example

theorem returns_ensureFile_missing {path : FilePath} {template : Str}
    (h : Returns (writeAtomically pid path template).run t (.ok ())) :
    Returns (ensureFile pid path template).run (⟨.isFile path, false⟩ :: t) (.ok ()) :=
  returns_lift_bind_iff.mpr ⟨false, [_], t, rfl, returns_perform_iff.mpr rfl, returns_withContext h⟩

theorem enabledConfTemplate_ne_nil : enabledConfTemplate ≠ [] := by
  rw [enabledConfTemplate, List.map_cons, joinLines_cons]
  simp only [ne_eq, List.append_eq_nil_iff, reduceCtorEq, and_false, not_false_eq_true]

def settingsFile : FilePath := rootPaths.experimentsDir.join "experiments.conf".toList

/-- The first boot, cut after it has written `enabled.conf`. -/
theorem exists_firstBoot : ∃ (t : List (Event Sys)) (fs fs' : Fs),
    Unconfigured rootPaths.experimentsDir fs ∧
    Partial (start 1 rootPaths [] ⟨none⟩).run t ∧ Env.Runs Fs.env fs t fs' ∧
    Holds fs' (rootPaths.experimentsDir.join "enabled.conf".toList) (some enabledConfTemplate) ∧
    fs'.node settingsFile = none ∧ fs'.node (tmpPath 2 settingsFile) = none := by
  obtain ⟨fs, hd, hn⟩ := Fs.exists_dir rootPaths.experimentsDir
  have hnone : ∀ name, fs.node (rootPaths.experimentsDir.join name) ≠ some .dir := fun name => by
    rw [hn]
    nofun
  obtain ⟨w, fs', hw, hr, hh, hrest⟩ := exists_writeAtomically 1
    (FilePath.parent_join rootPaths.experimentsDir "enabled.conf".toList)
    enabledConfTemplate_ne_nil hd (hnone _)
    (by rw [tmpPath, FilePath.withExtension_join]; exact hnone _)
  refine ⟨⟨.status docker ["--version".toList], exited true⟩ ::
    ⟨.isFile (rootPaths.experimentsDir.join "enabled.conf".toList), false⟩ :: w, fs, fs', ?_, ?_,
    .cons rfl (.cons ⟨rfl, ?_⟩ hr), hh, ?_, ?_⟩
  · intro c hc
    obtain ⟨name, hname⟩ := exists_join_of_created hc
    exact Or.inl (hname ▸ hn name)
  · have henabled : Partial (enabledTargets 1 rootPaths.experimentsDir).run
        (⟨.isFile (rootPaths.experimentsDir.join "enabled.conf".toList), false⟩ :: w) :=
      partial_try_bind_iff.mpr (Or.inl (returns_ensureFile_missing hw).cut)
    have hselect : Partial (select 1 rootPaths [] .enabled).run
        (⟨.isFile (rootPaths.experimentsDir.join "enabled.conf".toList), false⟩ :: w) := by
      unfold select
      rw [if_neg (not_not.mpr rfl)]
      exact partial_try_bind_iff.mpr (Or.inl henabled)
    rw [start_eq]
    exact partial_try_bind_iff.mpr (Or.inl (partial_try_bind_iff.mpr
      (Or.inr ⟨(), [_], _, rfl, .call _ (.ret _), hselect⟩)))
  · rw [Fs.isFile, hn]
  · rw [hrest _ (by decide) (by decide), settingsFile, hn]
  · rw [hrest _ (by decide) (by decide), settingsFile, tmpPath, FilePath.withExtension_join, hn]

theorem files_kept_firstBoot : ∃ fs fs' : Fs,
    Kept 1 rootPaths.experimentsDir fs fs' ∧
    Holds fs' (rootPaths.experimentsDir.join "enabled.conf".toList) (some enabledConfTemplate) := by
  obtain ⟨t, fs, fs', -, h, hr, hh, -, -⟩ := exists_firstBoot
  have hcommand : Partial ((Invocation.act (.start ⟨none⟩) []).run 1 rootPaths).run t := h
  exact ⟨fs, fs', (files_kept hcommand hr).1, hh⟩

end Example

end RobotCtl.Experiments
