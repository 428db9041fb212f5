import RobotCtl.Experiments.Stop

/-! # Sweeping every experiment

A stop without targets finds the stacks by listing the directory, a start by
joining the names it was given or has read. Both come to the same stacks.
-/

namespace RobotCtl.Experiments

open Text Conf Prog

variable {pid pid' : ℕ} {paths : Paths} {targets selected swept : List Target}
  {fallback : Fallback} {t : List (Event Sys)} {fs fs' fs'' : Fs} {r : Except Error Unit}

/-- A selection can find these targets. -/
def Selects (pid : ℕ) (paths : Paths) (targets : List Target) (fallback : Fallback) (fs fs' : Fs)
    (selected : List Target) : Prop :=
  ∃ t, Returns (select pid paths targets fallback).run t (.ok (paths.experimentsDir, selected)) ∧
    Env.Runs Fs.env fs t fs'

/-- What a start selects has a stack, and selecting it leaves the stacks as they are. -/
theorem Selects.hasStack (h : Selects pid paths targets .enabled fs fs' selected) :
    SameStacks paths.experimentsDir fs fs' ∧
      ∀ target ∈ selected, HasStack fs paths.experimentsDir target.name = true := by
  obtain ⟨t, hs, hr⟩ := h
  by_cases hne : targets = []
  · subst hne
    obtain ⟨r', he, hx⟩ := returns_select_enabled hs
    cases r' <;> cases hx
    exact enabledTargets_runs he hr
  · obtain ⟨rfl, missing, hm, hx⟩ := select_named_runs hne hs hr
    refine ⟨SameStacks.refl _ _, fun target ht => ?_⟩
    split at hx
    · next hn =>
      cases hx
      have hall := missingNames_eq_nil_iff.mp (hm.symm.trans (by rw [hn]; rfl))
      have hname : target.name ∈ (mergeDuplicates targets).map Target.name := List.mem_map_of_mem ht
      rw [mergeDuplicates_names, List.mem_eraseDups] at hname
      obtain ⟨other, ho, hon⟩ := List.mem_map.mp hname
      rw [← hon]
      exact hall other ho
    · cases hx

/-- The sweep finds every stack once, in the order of their names, without any profiles. -/
theorem Selects.sweep (h : Selects pid paths [] .everythingOnDisk fs fs' swept) :
    fs' = fs ∧ swept.Pairwise (fun a b => a.name.str < b.name.str) ∧
      (∀ name, name ∈ swept.map Target.name ↔ HasStack fs paths.experimentsDir name = true) ∧
      ∀ target ∈ swept, target.profiles = .none := by
  obtain ⟨t, hs, hr⟩ := h
  obtain ⟨r', hd, hx⟩ := returns_select_onDisk hs
  cases r' <;> cases hx
  obtain ⟨rfl, hp, hm⟩ := onDisk_runs hd hr
  refine ⟨rfl, List.pairwise_map.mpr hp, fun name => ?_, ?_⟩
  · rw [List.map_map, ← hm name]
    simp
  · simp

/-- Every experiment that a start selects is swept by a stop without targets, from any state with
the same stacks. The sweep is strictly increasing and consists of the directory entries that are
valid names and hold a compose file, and the stop tears down everything of each of them. -/
theorem sweep_covers (hstart : Selects pid paths targets .enabled fs fs' selected)
    (hsame : SameStacks paths.experimentsDir fs fs'') :
    SameStacks paths.experimentsDir fs fs' ∧
    (∀ pid' swept fs₁, Selects pid' paths [] .everythingOnDisk fs'' fs₁ swept →
      (∀ target ∈ selected, target.name ∈ swept.map Target.name) ∧
      swept.Pairwise (fun a b => a.name.str < b.name.str) ∧
      ∀ entry, entry ∈ swept.map (·.name.str) ↔
        fs''.node (paths.experimentsDir.join entry) ≠ none ∧ ∃ name,
          ExperimentName.new entry = .ok name ∧ fs''.isFile
            ((paths.experimentsDir.join entry).join "docker-compose.yml".toList) = true) ∧
    ∀ pid' t r fs₁, Returns (stop pid' paths []).run t r → Env.Runs Fs.env fs'' t fs₁ →
      (∃ err, Returns (prepare pid' paths [] .everythingOnDisk).run t (.error err) ∧
        r = .error err) ∨
      ∃ swept, Selects pid' paths [] .everythingOnDisk fs'' fs'' swept ∧
        (composeCalls t).map Prod.fst =
          swept.map fun target => everythingArgs paths.experimentsDir target.name := by
  obtain ⟨hkeep, hfound⟩ := hstart.hasStack
  refine ⟨hkeep, fun pid' swept fs₁ h => ?_, fun pid' t r fs₁ h hr => ?_⟩
  · obtain ⟨-, hp, hm, -⟩ := h.sweep
    refine ⟨fun target ht => ?_, hp, fun entry => ?_⟩
    · rw [hm, hsame]
      exact hfound target ht
    · constructor
      · intro he
        obtain ⟨target, ht, rfl⟩ := List.mem_map.mp he
        have hstack := (hm target.name).mp (List.mem_map_of_mem ht)
        refine ⟨?_, target.name, ExperimentName.new_eq_ok_iff.mpr rfl, hstack⟩
        rw [(node_of_hasStack hstack).2]
        nofun
      · rintro ⟨-, name, hname, hstack⟩
        obtain rfl := ExperimentName.new_eq_ok_iff.mp hname
        obtain ⟨target, ht, rfl⟩ := List.mem_map.mp ((hm name).mpr hstack)
        exact List.mem_map.mpr ⟨target, ht, rfl⟩
  · rcases returns_stop h with ⟨err, hp, rfl⟩ | ⟨dir, swept, t₁, t₂, outcomes, rfl, hp, hs, hc, -⟩
    · exact Or.inl ⟨err, hp, rfl⟩
    · obtain ⟨u, hr₁, -⟩ := Env.runs_append_iff.mp hr
      obtain rfl := dir_of_prepare hp
      obtain ⟨t₃, hsel, hr₃⟩ := prepare_ok_runs hp hr₁
      have hsweep : Selects pid' paths [] .everythingOnDisk fs'' u swept := ⟨t₃, hsel, hr₃⟩
      obtain ⟨rfl, -, -, hnone⟩ := hsweep.sweep
      refine Or.inr ⟨swept, hsweep, ?_⟩
      rw [hc, ← hs, List.map_map, List.map_map]
      refine List.map_congr_left fun w hw => ?_
      have hw : w.1 ∈ swept := hs ▸ List.mem_map_of_mem hw
      exact stopArgs_of_not_named fun names => by rw [hnone _ hw]; nofun

section Example

/-- A stop without targets, on a robot with one experiment. -/
def sweepTrace : List (Event Sys) :=
  [⟨.status docker ["--version".toList], exited true⟩,
    ⟨.readDir rootPaths.experimentsDir,
      .ok [.ok (some slam.str), .ok (some "experiments.conf".toList)]⟩,
    ⟨.isFile (composeFile rootPaths.experimentsDir slam), true⟩,
    ⟨.isFile ((rootPaths.experimentsDir.join "experiments.conf".toList).join
      "docker-compose.yml".toList), false⟩,
    ⟨.status docker (everythingArgs rootPaths.experimentsDir slam), exited true⟩]

theorem returns_sweepTrace : Returns (stop 2 rootPaths []).run sweepTrace (.ok ()) := by
  have hentries : Returns ([.ok (some slam.str), .ok (some "experiments.conf".toList)].foldlM
      (onDiskEntry rootPaths.experimentsDir) [] : Fallible (List ExperimentName)).run
      [⟨.isFile (composeFile rootPaths.experimentsDir slam), true⟩,
        ⟨.isFile ((rootPaths.experimentsDir.join "experiments.conf".toList).join
          "docker-compose.yml".toList), false⟩] (.ok [slam]) :=
    returns_call_iff.mpr ⟨_, _, rfl, returns_call_iff.mpr ⟨_, _, rfl, .ret _⟩⟩
  have hsort : Sorting.sortBy ExperimentName.str [slam] = [slam] := List.mergeSort_singleton _
  have hdisk : Returns (onDisk rootPaths.experimentsDir).run
      (⟨.readDir rootPaths.experimentsDir,
        .ok [.ok (some slam.str), .ok (some "experiments.conf".toList)]⟩ ::
        [⟨.isFile (composeFile rootPaths.experimentsDir slam), true⟩,
          ⟨.isFile ((rootPaths.experimentsDir.join "experiments.conf".toList).join
            "docker-compose.yml".toList), false⟩]) (.ok [slam]) := by
    refine returns_call_iff.mpr ⟨_, _, rfl, returns_try_map_iff.mpr ⟨.ok [slam], hentries, ?_⟩⟩
    rw [Except.map, hsort]
  have hprepare : Returns (prepare 2 rootPaths [] .everythingOnDisk).run (⟨.status docker
      ["--version".toList], exited true⟩ :: _) (.ok (rootPaths.experimentsDir, [⟨slam, .none⟩])) :=
    returns_call_iff.mpr ⟨exited true, _, rfl, returns_try_map_iff.mpr ⟨.ok [slam], hdisk, rfl⟩⟩
  rw [stop_eq]
  exact hprepare.try_bind (returns_call_iff.mpr ⟨exited true, [], rfl, .ret _⟩)

/-- What the sweep of a robot with one experiment finds. -/
structure SlamOnly (fs : Fs) : Prop where
  stack : HasStack fs rootPaths.experimentsDir slam = true
  listed : fs.ListsAs rootPaths.experimentsDir
    (.ok [.ok (some slam.str), .ok (some "experiments.conf".toList)])
  settings : fs.isFile ((rootPaths.experimentsDir.join "experiments.conf".toList).join
    "docker-compose.yml".toList) = false

theorem exists_slamOnly (c : Content) : ∃ fs : Fs, SlamOnly fs ∧
    fs.node (rootPaths.experimentsDir.join "experiments.conf".toList) = some (.file c) := by
  obtain ⟨fs, hs, hconf, hlist⟩ := exists_withSlam c
  have hnames : Fs.entryNames [.ok (some slam.str), .ok (some "experiments.conf".toList)] =
      [slam.str, "experiments.conf".toList] := rfl
  refine ⟨fs, ⟨hs, ⟨(node_of_hasStack hs).1, ?_, ?_, fun _ name hn => ?_⟩, ?_⟩, hconf⟩
  · rw [hnames]
    decide
  · intro name hname
    rw [hnames] at hname
    exact (hlist name).mpr (by simpa using hname)
  · rw [hnames]
    simpa using (hlist name).mp hn
  · by_contra hc
    have hparent := fs.parent_dir (rootPaths.experimentsDir.join "experiments.conf".toList)
      "docker-compose.yml".toList fun hn => hc (by rw [Fs.isFile, hn])
    rw [hconf] at hparent
    cases hparent

theorem runs_sweepTrace {fs : Fs} (h : SlamOnly fs) : Env.Runs Fs.env fs sweepTrace fs :=
  .cons rfl (.cons ⟨rfl, h.listed⟩ (.cons ⟨rfl, h.stack.symm⟩ (.cons ⟨rfl, h.settings.symm⟩
    (.cons rfl (.nil _)))))

/-- What a start brings up is torn down by a run of the sweep. -/
theorem sweep_covers_slam : ∃ (fs : Fs) (swept : List Target),
    Selects 1 rootPaths [⟨slam, .none⟩] .enabled fs fs [⟨slam, .none⟩] ∧
    Selects 2 rootPaths [] .everythingOnDisk fs fs swept ∧ slam ∈ swept.map Target.name ∧
    (composeCalls sweepTrace).map Prod.fst =
      swept.map fun target => everythingArgs rootPaths.experimentsDir target.name := by
  obtain ⟨fs, hfs, -⟩ := exists_slamOnly (.text [])
  have hsel : Selects 1 rootPaths [⟨slam, .none⟩] .enabled fs fs [⟨slam, .none⟩] := by
    refine ⟨[⟨.isFile (composeFile rootPaths.experimentsDir slam), true⟩], ?_,
      .cons ⟨rfl, hfs.stack.symm⟩ (.nil _)⟩
    exact returns_call_iff.mpr ⟨_, _, rfl, .ret _⟩
  obtain ⟨-, hcovers, hstop⟩ := sweep_covers hsel (SameStacks.refl _ _)
  rcases hstop 2 sweepTrace (.ok ()) fs returns_sweepTrace (runs_sweepTrace hfs) with
    ⟨err, -, he⟩ | ⟨swept, hswept, hcalls⟩
  · cases he
  · exact ⟨fs, swept, hsel, hswept,
      (hcovers 2 swept fs hswept).1 ⟨slam, .none⟩ (List.mem_singleton_self _), hcalls⟩

end Example

end RobotCtl.Experiments
