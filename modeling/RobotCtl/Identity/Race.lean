import Mathlib.Data.Bool.Basic
import RobotCtl.Identity.Settings

/-! # Two processes that set identity values

A process reads the whole file, and replaces it by its update when it renames.
Nothing locks the file in between, so of two overlapping updates of different
keys the last one to rename wins and the other is lost.
-/

namespace RobotCtl.Identity

open Text Conf Interleaving

variable {pid : Bool → ℕ} {paths : Paths} {setting : Bool → Setting}
  {w : List (Bool × Event Sys)} {fs fs' : Fs} {existing : Option Str}

/-- Two processes that each set a value successfully, in any interleaving of their calls. -/
structure Race (pid : Bool → ℕ) (paths : Paths) (setting : Bool → Setting)
    (w : List (Bool × Event Sys)) (fs fs' : Fs) : Prop where
  returns : ∀ i, Prog.Returns ((setting i).set (pid i) paths).run (proj i w) (.ok ())
  runs : Env.Runs Fs.env fs (w.map Prod.snd) fs'

/-- The steps of a process that sets a value: a read, the writing of its temporary with the update
of what it read, and the rename. -/
theorem returns_setKey_steps {pid : ℕ} {path : FilePath} {key value : Str} {t : List (Event Sys)}
    (h : Prog.Returns (setKey pid path key value).run t (.ok ())) :
    ∃ x existing s,
      t = ⟨.readToString path, x⟩ :: s ++ [⟨.rename (tmpPath pid path) path, .ok ()⟩] ∧
      optional path x = .ok existing ∧
      (∀ e ∈ s, WriteOp pid path e.1 ∧ e.1 ≠ .rename (tmpPath pid path) path) ∧
      ∀ n, s.foldl (Fs.effect (tmpPath pid path)) n =
        some (.file (.text (upsertKey existing key value))) := by
  obtain ⟨x, existing, s, rfl, hx, hw⟩ := returns_setKey_ok h
  obtain ⟨parent, w, hp, hf, rfl⟩ := writeRun_ok_iff.mp hw
  refine ⟨x, existing, _, rfl, hx, ?_, fun n => foldl_effect_tmp n hf⟩
  rintro e (_ | ⟨_, he⟩)
  · exact ⟨.createDirAll hp, nofun⟩
  · refine ⟨writeOp_of_writeFile hf e he, fun hr => ?_⟩
    rcases (writeFile_uses _ _).returns hf e he with h | ⟨d, h⟩ <;> rw [h] at hr <;> cases hr

namespace Race

theorem parent_robotConf (paths : Paths) : paths.robotConf.parent = some paths.configDir :=
  FilePath.parent_join _ _

/-- Every call of a process is its read or belongs to its atomic write. -/
theorem ops (h : Race pid paths setting w fs fs') {j : Bool} {e : Event Sys} (he : (j, e) ∈ w) :
    e.1 = .readToString paths.robotConf ∨ WriteOp (pid j) paths.robotConf e.1 := by
  obtain ⟨x, existing, s, ht, -, hs, -⟩ := returns_setKey_steps (h.returns j)
  have hm := mem_proj_iff.mpr he
  rw [ht] at hm
  rcases List.mem_append.mp hm with hm | hm
  · rcases List.mem_cons.mp hm with rfl | hm
    · exact Or.inl rfl
    · exact Or.inr (hs e hm).1
  · rw [List.mem_singleton.mp hm]; exact Or.inr .rename

/-- The last step of the race is the rename of one of the processes. -/
theorem exists_last (h : Race pid paths setting w fs fs') : ∃ i w', w = w' ++
    [(i, ⟨.rename (tmpPath (pid i) paths.robotConf) paths.robotConf, .ok ()⟩)] := by
  obtain ⟨w', ⟨i, e⟩, rfl⟩ : ∃ w' x, w = w' ++ [x] := by
    cases w using List.reverseRecOn with
    | nil =>
      obtain ⟨x, existing, s, ht, -⟩ := returns_setKey_steps (h.returns true)
      simp at ht
    | append_singleton w' x _ => exact ⟨w', x, rfl⟩
  obtain ⟨x, existing, s, ht, -⟩ := returns_setKey_steps (h.returns i)
  rw [proj_append, proj_cons_self, proj_nil] at ht
  obtain ⟨-, he⟩ := List.append_inj' ht rfl
  obtain rfl := List.singleton_inj.mp he
  exact ⟨i, w', rfl⟩

variable {i : Bool} {w' : List (Bool × Event Sys)}

/-- The file ends up as the update of what the last process to rename had read. -/
theorem holds_last (h : Race pid paths setting w fs fs') (hpid : pid true ≠ pid false)
    (hw : w = w' ++ [(i, ⟨.rename (tmpPath (pid i) paths.robotConf) paths.robotConf, .ok ()⟩)]) :
    ∃ x existing s, proj i w = ⟨.readToString paths.robotConf, x⟩ :: s ∧
      optional paths.robotConf x = .ok existing ∧
      Holds fs' paths.robotConf (some (upsertKey existing (setting i).key (setting i).value)) := by
  obtain ⟨x, existing, s, ht, hx, hs, hf⟩ := returns_setKey_steps (h.returns i)
  refine ⟨x, existing, _, ht, hx, ?_⟩
  have hpar := parent_robotConf paths
  have hops : ∀ j e, (j, e) ∈ w' → (j, e) ∈ w := fun j e he =>
    hw ▸ List.mem_append_left _ he
  have hproj : proj i w' = ⟨.readToString paths.robotConf, x⟩ :: s := by
    rw [hw, proj_append, proj_cons_self, proj_nil] at ht
    exact (List.append_inj' ht rfl).1
  have hr := h.runs
  rw [hw, List.map_append, Env.runs_append_iff] at hr
  obtain ⟨u, hu, hr⟩ := hr
  obtain ⟨fs'', ⟨-, -, hn⟩, he⟩ := Env.runs_cons_iff.mp hr
  obtain rfl := Env.runs_nil_iff.mp he
  have ht := node_tmpPath_of_runs (Bool.injective_iff.mpr hpid.symm) hpar
    (fun j e he => h.ops (hops j e he)) hu i
  rw [hproj, List.foldl_cons, hf] at ht
  rw [Holds, hn, Function.update_self, ht]
  rfl

/-- Unless the other process was done, the last one read what was there at the start. -/
theorem holds_read (h : Race pid paths setting w fs fs') {x : Io Str} {s : List (Event Sys)}
    (hx : proj i w = ⟨.readToString paths.robotConf, x⟩ :: s)
    (ho : optional paths.robotConf x = .ok existing) (hn : ¬ Precedes (!i) i w) :
    Holds fs paths.robotConf existing := by
  have hpar := parent_robotConf paths
  obtain ⟨w₁, w₂, rfl, h₁, h₂⟩ := exists_of_proj_eq (hx.trans (List.nil_append _).symm)
  have htag : ∀ y ∈ w₁, y.1 = !i := by
    rintro ⟨j, e⟩ hy
    have hj : j ≠ i := by
      rintro rfl
      exact List.not_mem_nil (h₁ ▸ mem_proj_iff.mpr hy)
    cases i <;> cases j <;> simp_all
  -- a rename before the read would be the other's last step
  have hren : ∀ y ∈ w₁, y.2.1 ≠ .rename (tmpPath (pid !i) paths.robotConf) paths.robotConf := by
    intro y hy hr
    obtain ⟨j, e⟩ := y
    obtain rfl : j = !i := htag _ hy
    obtain ⟨x', existing', s', ht, -, hs, -⟩ := returns_setKey_steps (h.returns !i)
    rw [proj_append] at ht
    have hrest : proj (!i) ((i, ⟨.readToString paths.robotConf, x⟩) :: w₂) = [] := by
      by_contra hne
      obtain ⟨init, last, hl⟩ : ∃ init last, proj (!i)
          ((i, ⟨.readToString paths.robotConf, x⟩) :: w₂) = init ++ [last] :=
        ⟨_, _, (List.dropLast_append_getLast hne).symm⟩
      rw [hl, ← List.append_assoc] at ht
      have hm : e ∈ ⟨.readToString paths.robotConf, x'⟩ :: s' := by
        rw [← (List.append_inj' ht rfl).1]
        exact List.mem_append_left _ (mem_proj_iff.mpr hy)
      rcases List.mem_cons.mp hm with rfl | hm
      · cases hr
      · exact (hs e hm).2 hr
    refine hn ⟨w₁, _, rfl, htag, ?_⟩
    rintro ⟨j, e'⟩ hy'
    by_contra hj
    obtain rfl : j = !i := by cases i <;> cases j <;> simp_all
    exact List.not_mem_nil (hrest ▸ mem_proj_iff.mpr hy')
  have hr := h.runs
  rw [List.map_append, Env.runs_append_iff] at hr
  obtain ⟨u, hu, hr⟩ := hr
  obtain ⟨fs'', ⟨-, hs⟩, -⟩ := Env.runs_cons_iff.mp hr
  have hq : u.node paths.robotConf = fs.node paths.robotConf := by
    refine Fs.node_eq_of_runs hu fun e he => ?_
    obtain ⟨⟨j, e⟩, hm, rfl⟩ := List.mem_map.mp he
    rcases h.ops (List.mem_append_left _ hm) with hop | hop
    · obtain ⟨o, r⟩ := e
      cases hop
      exact ⟨trivial, fun n => rfl⟩
    · obtain rfl : j = !i := htag _ hm
      exact hop.quiet_self hpar (hren _ hm)
  have hh := holds_of_optional hs ho
  rwa [Holds, hq] at hh

end Race

/-- One process sets the robot ID and the other the ROS domain ID. -/
def both (r : RobotId) (d : RosDomainId) : Bool → Setting
  | true => .robotId r
  | false => .rosDomainId d

variable {r : RobotId} {d : RosDomainId}

theorem both_key_ne (i : Bool) : (both r d i).key ≠ (both r d !i).key := by
  cases i
  · exact robotIdKey_ne.symm
  · exact robotIdKey_ne

/-- Two processes that both read before either writes lose the update of the first to rename. -/
theorem exists_overlap (r : RobotId) (d : RosDomainId) (hpid : pid true ≠ pid false)
    (he : Holds fs paths.robotConf existing) (hdir : fs.node paths.configDir = some .dir)
    (htmp : ∀ pid, fs.node (tmpPath pid paths.robotConf) ≠ some .dir) :
    ∃ w fs', Race pid paths (both r d) w fs fs' ∧
      Holds fs' paths.robotConf (some (upsertKey existing rosDomainIdKey d.toStr)) := by
  have hpar := Race.parent_robotConf paths
  have hconf : ∀ {fs : Fs} {e : Option Str}, Holds fs paths.robotConf e →
      fs.node paths.robotConf ≠ some .dir := by
    intro fs e h
    rw [h]
    cases e <;> simp
  obtain ⟨x, hs, hx⟩ := he.exists_reply
  obtain ⟨t₁, u, h₁, hr₁, hu, hq⟩ := exists_writeAtomically (pid true) hpar
    (upsertKey_ne_nil existing robotIdKey r.str) hdir (hconf he) (htmp _)
  have hdir' : u.node paths.configDir = some .dir := by
    rwa [hq _ (Fs.join_ne _ _) fun hc => ?_]
    obtain ⟨name, hn⟩ := exists_join_of_parent (parent_tmpPath (pid true) hpar)
    exact Fs.join_ne _ _ (hc.trans hn)
  have htmp' : u.node (tmpPath (pid false) paths.robotConf) ≠ some .dir := by
    rw [hq _ (tmpPath_ne _ hpar) fun hc => hpid (tmpPath_inj hpar hc).symm]
    exact htmp _
  obtain ⟨t₂, v, h₂, hr₂, hv, -⟩ := exists_writeAtomically (pid false) hpar
    (upsertKey_ne_nil existing rosDomainIdKey d.toStr) hdir' (hconf hu) htmp'
  refine ⟨(true, ⟨.readToString paths.robotConf, x⟩) ::
    (false, ⟨.readToString paths.robotConf, x⟩) ::
    (t₁.map (Prod.mk true) ++ t₂.map (Prod.mk false)), v, ⟨Bool.forall_bool.mpr ⟨?_, ?_⟩, ?_⟩, hv⟩
  · rw [proj_cons_of_ne (by decide), proj_cons_self, proj_append, proj_map_self,
      proj_map_of_ne _ (by decide)]
    exact returns_setKey hx h₂
  · rw [proj_cons_self, proj_cons_of_ne (by decide), proj_append, proj_map_self,
      proj_map_of_ne _ (by decide), List.append_nil]
    exact returns_setKey hx h₁
  · refine .cons ⟨rfl, hs⟩ (.cons ⟨rfl, hs⟩ ?_)
    rw [List.map_append, map_snd_map_mk, map_snd_map_mk]
    exact Env.runs_append_iff.mpr ⟨u, hr₁, hr₂⟩

/-- The value of the last process to rename is in effect. The other value is too if that process
was done before the last one began; otherwise its field reads as it did at the start. -/
theorem load_after_race (hpid : pid true ≠ pid false) (hr : Unindented "ROBOT_ID".toList existing)
    (hd : Unindented "ROS_DOMAIN_ID".toList existing) (he : Holds fs paths.robotConf existing)
    (h : Race pid paths (both r d) w fs fs') {t : List (Event Sys)} {fs'' : Fs}
    {config : RobotConfig} (hl : Prog.Returns (load paths).run t (.ok config))
    (ht : Env.Runs Fs.env fs' t fs'') :
    ∃ i, w.getLast? =
        some (i, ⟨.rename (tmpPath (pid i) paths.robotConf) paths.robotConf, .ok ()⟩) ∧
      (both r d i).Loaded config ∧
      (Precedes (!i) i w → (both r d !i).Loaded config) ∧
      (¬ Precedes (!i) i w →
        ∃ start, Means paths existing start ∧ (both r d !i).Kept config start) := by
  have hu : ∀ i, Unindented (both r d i).key existing := Bool.forall_bool.mpr ⟨hd, hr⟩
  obtain ⟨i, w', hw⟩ := h.exists_last
  refine ⟨i, by rw [hw, List.getLast?_concat], ?_⟩
  have hkey := (both r d i).isKey
  have hkey' := (both r d !i).isKey
  have hne := both_key_ne (r := r) (d := d) i
  by_cases hp : Precedes (!i) i w
  · -- one process after the other: the second reads what the first has written
    have hrun := h.runs
    rw [hp.map_eq (by cases i <;> decide), Env.runs_append_iff] at hrun
    obtain ⟨u, hj, hi⟩ := hrun
    obtain ⟨e, heu, hou⟩ := holds_of_setKey (h.returns !i) hj
    obtain rfl := holds_inj he heu
    obtain ⟨e', heu', hf⟩ := holds_of_setKey (h.returns i) hi
    obtain rfl := holds_inj hou heu'
    rw [config_of_load hl ht hf]
    have hun := (hu i).upsertKey hkey' hkey hne (both r d !i).plain.newline_not_mem
    refine ⟨Setting.loaded_resolve ((parseValue_upsertKey_iff hkey (both r d i).plain).mpr
      (hun.effective _)), fun _ => Setting.loaded_resolve ?_, fun hn => absurd hp hn⟩
    rw [parseValue_upsertKey_of_ne hkey hkey' hne.symm (both r d i).plain.newline_not_mem]
    exact (parseValue_upsertKey_iff hkey' (both r d !i).plain).mpr ((hu !i).effective _)
  · obtain ⟨x, e, s, hx, ho, hf⟩ := h.holds_last hpid hw
    obtain rfl := holds_inj he (h.holds_read hx ho hp)
    rw [config_of_load hl ht hf]
    exact ⟨Setting.loaded_resolve ((parseValue_upsertKey_iff hkey (both r d i).plain).mpr
      ((hu i).effective _)), fun hc => absurd hc hp, fun _ => ⟨_, means_iff.mpr rfl,
      Setting.kept_resolve (parseValue_upsertKey_of_ne hkey hkey' hne.symm
        (both r d i).plain.newline_not_mem)⟩⟩

section Example

/-- A file system with nothing but `robot.conf`. -/
theorem exists_provisioned (text : Str) : ∃ fs : Fs, Holds fs rootPaths.robotConf (some text) ∧
    fs.node rootPaths.configDir = some .dir ∧
    ∀ pid, fs.node (tmpPath pid rootPaths.robotConf) ≠ some .dir := by
  have hpar := Race.parent_robotConf rootPaths
  obtain ⟨fs, hfs⟩ : ∃ fs : Fs, fs.node =
      Function.update Fs.empty.node rootPaths.robotConf (some (.file (.text text))) :=
    Fs.exists_put [] "robot.conf".toList (.file (.text text)) Fs.empty.root_dir (by simp)
  refine ⟨fs, by rw [Holds, hfs, Function.update_self]; rfl, ?_, fun pid => ?_⟩
  · have hne : rootPaths.configDir ≠ rootPaths.robotConf := Fs.join_ne _ _
    rw [hfs, Function.update_of_ne hne]
    exact Fs.empty.root_dir
  · have hne := tmpPath_ne pid hpar
    obtain ⟨name, hn⟩ := exists_join_of_parent (parent_tmpPath pid hpar)
    rw [hn] at hne ⊢
    rw [hfs, Function.update_of_ne hne, Fs.empty_join]
    simp

def twoPids : Bool → ℕ := fun b => if b then 1 else 2

theorem twoPids_ne : twoPids true ≠ twoPids false := by decide

/-- The update of the first process to rename can be lost. -/
theorem not_load_after_race : ¬ ∀ (pid : Bool → ℕ) (paths : Paths) (r : RobotId) (d : RosDomainId)
    (existing : Option Str) (w : List (Bool × Event Sys)) (t : List (Event Sys)) (fs fs' fs'' : Fs)
    (config : RobotConfig), pid true ≠ pid false → Unindented "ROBOT_ID".toList existing →
    Unindented "ROS_DOMAIN_ID".toList existing → Holds fs paths.robotConf existing →
    Race pid paths (both r d) w fs fs' → Prog.Returns (load paths).run t (.ok config) →
    Env.Runs Fs.env fs' t fs'' → config.robotId = r ∧ config.rosDomainId = d := by
  intro h
  obtain ⟨fs, he, hdir, htmp⟩ := exists_provisioned "ROBOT_ID=a\n".toList
  obtain ⟨w, fs', hr, hh⟩ := exists_overlap idB ⟨7, by decide⟩ twoPids_ne he hdir htmp
  obtain ⟨t, hl, ht⟩ := exists_load hh
  have hc := (h _ _ _ _ _ _ _ _ _ _ _ (by decide) ?_ ?_ he hr hl ht).1
  · have := congrArg RobotId.str hc
    revert this
    decide
  · refine unindented_iff.mpr ?_
    rintro _ ⟨⟩
    decide
  · refine unindented_iff.mpr ?_
    rintro _ ⟨⟩
    decide

/-- Over the same file the process that renames last is the one whose value is in effect. -/
theorem load_after_overlap : ∃ (w : List (Bool × Event Sys)) (config : RobotConfig), ∃ i,
    w.getLast? = some (i, ⟨.rename (tmpPath (if i then 1 else 2) rootPaths.robotConf)
      rootPaths.robotConf, .ok ()⟩) ∧
      (both idB ⟨7, by decide⟩ i).Loaded config ∧
      (Precedes (!i) i w → (both idB ⟨7, by decide⟩ !i).Loaded config) ∧
      (¬ Precedes (!i) i w → ∃ start, Means rootPaths (some "ROBOT_ID=a\n".toList) start ∧
        (both idB ⟨7, by decide⟩ !i).Kept config start) := by
  obtain ⟨fs, he, hdir, htmp⟩ := exists_provisioned "ROBOT_ID=a\n".toList
  obtain ⟨w, fs', hr, hh⟩ := exists_overlap idB ⟨7, by decide⟩ twoPids_ne he hdir htmp
  obtain ⟨t, hl, ht⟩ := exists_load hh
  refine ⟨w, _, load_after_race (by decide) ?_ ?_ he hr hl ht⟩
  · refine unindented_iff.mpr ?_
    rintro _ ⟨⟩
    decide
  · refine unindented_iff.mpr ?_
    rintro _ ⟨⟩
    decide

end Example

end RobotCtl.Identity
