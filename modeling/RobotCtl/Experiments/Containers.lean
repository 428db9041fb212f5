import Mathlib.Data.Set.Basic
import RobotCtl.Experiments.Files

/-! # The containers of the experiments

Only compose changes containers, and only those of the project that it is asked
about. Whatever was started, by whatever commands and however they were cut, is
in the project of a stack, so a stop without targets that succeeds leaves none.
-/

namespace RobotCtl.Experiments

open Text Conf Prog

/-- A container, in the project that it was started for. -/
structure Container where
  project : Str
  service : Str

/-- The files of a robot, and its containers. -/
structure Machine where
  fs : Fs
  containers : Set Container

/-- The verb of a compose command, with its options. -/
def verbOf (args : List Str) : List Str := (readFlags args.tail).2

/-- The command tears down every service of its project, with whatever profiles. -/
def TearsDown (args : List Str) : Prop :=
  ("--profile".toList, ['*']) ∈ (readFlags args.tail).1 ∧
    verbOf args = ["down".toList, "--remove-orphans".toList]

/-- What a compose command does to the containers of its project and of no other: only `up` adds
some, and tearing everything down leaves none if it succeeds. -/
structure Composes (project : List Str → Str) (args : List Str) (reply : Io ExitStatus)
    (before after : Set Container) : Prop where
  others : ∀ c, c.project ≠ project args → (c ∈ after ↔ c ∈ before)
  shrinks : (verbOf args).head? ≠ some "up".toList → after ⊆ before
  gone : TearsDown args → Succeeded reply = true → ∀ c ∈ after, c.project ≠ project args

/-- What a call and its reply can do to the files and the containers. -/
def Machine.env (project : List Str → Str) : Env Sys Machine := fun m e m' =>
  Fs.env m.fs e m'.fs ∧ match composeCall e with
    | some (args, reply) => Composes project args reply m.containers m'.containers
    | none => m'.containers = m.containers

/-- The life of a robot: experiment commands one after the other, each cut anywhere, and between
them others that add stacks and end containers. -/
inductive Machine.History (project : List Str → Str) (paths : Paths) (m : Machine) :
    Machine → Prop
  | start : History project paths m m
  | others {m' m'' : Machine} : History project paths m m' →
      (∀ name, HasStack m'.fs paths.experimentsDir name = true →
        HasStack m''.fs paths.experimentsDir name = true) →
      m''.containers ⊆ m'.containers → History project paths m m''
  | invoke {m' m'' : Machine} {pid : ℕ} {invocation : Invocation} {t : List (Event Sys)} :
      History project paths m m' → Partial (invocation.run pid paths).run t →
      Env.Runs (Machine.env project) m' t m'' → History project paths m m''

/-- Every container is in the project of a stack. -/
def Covered (dir : FilePath) (m : Machine) : Prop :=
  ∀ c ∈ m.containers, ∃ name, HasStack m.fs dir name = true ∧ c.project = projectName name.str

variable {project : List Str → Str} {pid : ℕ} {paths : Paths} {dir : FilePath}
  {name : ExperimentName} {profiles : Profiles} {invocation : Invocation} {options : StartOptions}
  {targets : List Target} {target : Target} {verb args : List Str} {reply : Io ExitStatus}
  {t : List (Event Sys)} {e : Event Sys} {fs fs' : Fs} {m m' : Machine}

section Calls

theorem Machine.runs_fs (h : Env.Runs (Machine.env project) m t m') :
    Env.Runs Fs.env m.fs t m'.fs := by
  induction h with
  | nil m => exact .nil _
  | cons he _ ih => exact .cons he.1 ih

theorem verbOf_composeArgs (hv : verb ∈ invocation.verbs) :
    verbOf (composeArgs dir name profiles verb) = verb := by
  have hread := readFlags_profiles profiles.requested (readFlags_verb invocation verb hv)
  rw [verbOf, composeArgs_eq, Request.args]
  simp only [List.cons_append, List.nil_append, List.tail_cons]
  rw [readFlags, if_pos (by decide), readFlags, if_pos (by decide), hread]

theorem tearsDown_everythingArgs (dir : FilePath) (name : ExperimentName) :
    TearsDown (everythingArgs dir name) := by
  have hread : readFlags (everythingArgs dir name).tail =
      ([("-f".toList, (composeFile dir name).display),
        ("--project-directory".toList, (dir.join name.str).display),
        ("--profile".toList, ['*'])], ["down".toList, "--remove-orphans".toList]) := rfl
  rw [TearsDown, verbOf, hread]
  simp

theorem composeCalls_cons_of_some {call : List Str × Io ExitStatus}
    (h : composeCall e = some call) :
    composeCalls (e :: t) = call :: composeCalls t := by
  rw [composeCalls, List.filterMap_cons, h, composeCalls]

theorem composeCalls_cons_of_none (h : composeCall e = none) :
    composeCalls (e :: t) = composeCalls t := by
  rw [composeCalls, List.filterMap_cons, h, composeCalls]

/-- A container that was not there is in the project of an `up`. -/
theorem mem_or_up (h : Env.Runs (Machine.env project) m t m') :
    ∀ c ∈ m'.containers, c ∈ m.containers ∨ ∃ call ∈ composeCalls t,
      (verbOf call.1).head? = some "up".toList ∧ c.project = project call.1 := by
  induction h with
  | nil m => exact fun c hc => Or.inl hc
  | @cons m u m' e t he _ ih =>
    intro c hc
    have hstep := he.2
    cases hcc : composeCall e with
    | none =>
      rw [hcc] at hstep
      rw [composeCalls_cons_of_none hcc, ← hstep]
      exact ih c hc
    | some call =>
      rw [hcc] at hstep
      rw [composeCalls_cons_of_some hcc]
      rcases ih c hc with hu | ⟨call', hcall', hup⟩
      · by_cases hup : (verbOf call.1).head? = some "up".toList
        · by_cases hp : c.project = project call.1
          · exact Or.inr ⟨call, List.mem_cons_self, hup, hp⟩
          · exact Or.inl ((hstep.others c hp).mp hu)
        · exact Or.inl (hstep.shrinks hup hu)
      · exact Or.inr ⟨call', List.mem_cons_of_mem _ hcall', hup⟩

/-- Where nothing is brought up, what has been torn down stays so. -/
theorem not_mem_of_tearsDown {call : List Str × Io ExitStatus}
    (h : Env.Runs (Machine.env project) m t m')
    (hup : ∀ call ∈ composeCalls t, (verbOf call.1).head? ≠ some "up".toList)
    (hcall : call ∈ composeCalls t) (hdown : TearsDown call.1) (hs : Succeeded call.2 = true) :
    ∀ c ∈ m'.containers, c.project ≠ project call.1 := by
  induction h with
  | nil m => cases hcall
  | @cons m u m' e t he hr ih =>
    have hstep := he.2
    cases hcc : composeCall e with
    | none =>
      rw [composeCalls_cons_of_none hcc] at hup hcall
      exact ih hup hcall
    | some call' =>
      rw [hcc] at hstep
      rw [composeCalls_cons_of_some hcc] at hup hcall
      obtain ⟨-, htail⟩ := List.forall_mem_cons.mp hup
      rcases List.mem_cons.mp hcall with rfl | hcall
      · intro c hc
        rcases mem_or_up hr c hc with hu | ⟨call', hcall', hup', -⟩
        · exact hstep.gone hdown hs c hu
        · exact absurd hup' (htail call' hcall')
      · exact ih htail hcall

/-- A project that no command is about keeps its containers. -/
theorem mem_iff_of_ne {c : Container} (h : Env.Runs (Machine.env project) m t m')
    (hne : ∀ call ∈ composeCalls t, c.project ≠ project call.1) :
    c ∈ m'.containers ↔ c ∈ m.containers := by
  induction h with
  | nil m => rfl
  | @cons m u m' e t he _ ih =>
    have hstep := he.2
    cases hcc : composeCall e with
    | none =>
      rw [hcc] at hstep
      rw [composeCalls_cons_of_none hcc] at hne
      rw [ih hne, hstep]
    | some call =>
      rw [hcc] at hstep
      rw [composeCalls_cons_of_some hcc] at hne
      obtain ⟨hcall, hne⟩ := List.forall_mem_cons.mp hne
      rw [ih hne, hstep.others c hcall]

end Calls

section Cover

theorem exists_of_composeCall {call : List Str × Io ExitStatus} (h : call ∈ composeCalls t) :
    ∃ e ∈ t, e.1 = .status docker call.1 ∧ call.1.head? = some "compose".toList := by
  obtain ⟨⟨o, r⟩, he, hc⟩ := List.mem_filterMap.mp h
  cases o with
  | status program args =>
    obtain ⟨⟨rfl, hhead⟩, hcall⟩ := Option.ite_none_right_eq_some.mp hc
    cases hcall
    exact ⟨_, he, rfl, hhead⟩
  | _ => cases hc

/-- Whatever a command asks compose to bring up is a stack. -/
theorem hasStack_of_up {call : List Str × Io ExitStatus}
    (h : Partial (invocation.run pid paths).run t) (hr : Env.Runs Fs.env fs t fs')
    (hcall : call ∈ composeCalls t) (hup : (verbOf call.1).head? = some "up".toList) :
    ∃ name profiles, HasStack fs paths.experimentsDir name = true ∧
      call.1 = composeArgs paths.experimentsDir name profiles upVerb := by
  obtain ⟨e, he, ho, hhead⟩ := exists_of_composeCall hcall
  have hargs : dockerArgs e.1 = some call.1 := by rw [ho]; rfl
  obtain ⟨name, profiles, verb, hverb, hc⟩ := asks_of_partial h e he _ hargs hhead
  rw [hc, verbOf_composeArgs hverb] at hup
  match invocation with
  | .act .stop _ =>
    rcases List.mem_cons.mp hverb with rfl | hverb
    · exact absurd hup (by decide)
    · obtain rfl := List.mem_singleton.mp hverb
      exact absurd hup (by decide)
  | .act .status _ =>
    obtain rfl := List.mem_singleton.mp hverb
    exact absurd hup (by decide)
  | .list =>
    obtain rfl := List.mem_singleton.mp hverb
    exact absurd hup (by decide)
  | .act (.start options) targets =>
    obtain rfl : verb = upVerb := by
      rcases List.mem_cons.mp hverb with rfl | hverb
      · exact absurd hup (by decide)
      · exact List.mem_singleton.mp hverb
    refine ⟨name, profiles, ?_, hc⟩
    have hstart : Partial ((Command.start options).run pid paths targets).run t := h
    have hquiet : ¬ Quiet e.1 := by
      rw [ho]
      exact fun hq => hq ⟨rfl, hhead⟩
    -- what is brought up has been selected
    rcases asksSelected_of_partial hstart with hq | ⟨selected, t₁, t₂, rfl, hp, h₂⟩
    · exact absurd (hq e he) hquiet
    rcases List.mem_append.mp he with he | he
    · exact absurd ((prepare_quiet _ _ _ _).returns hp e he) hquiet
    obtain ⟨target, ht, profiles', -, verb, -, hconcerns⟩ := (h₂ e he).resolve_left hquiet
    obtain ⟨u, hr₁, -⟩ := Env.runs_append_iff.mp hr
    obtain ⟨t', hsel, hr'⟩ := prepare_ok_runs hp hr₁
    have hstack := (Selects.hasStack ⟨t', hsel, hr'⟩).2 target ht
    have hfor : IsFor paths.experimentsDir name
        (composeArgs paths.experimentsDir target.name profiles' verb) := by
      rw [ho] at hconcerns
      obtain ⟨-, hsame⟩ := SysOp.status.inj hconcerns
      rw [← hsame, hc]
      exact isFor_composeArgs_iff.mpr rfl
    rw [isFor_composeArgs_iff.mp hfor]
    exact hstack

theorem Covered.invoke (hp : NamesByDirectory project) (hc : Covered paths.experimentsDir m)
    (h : Partial (invocation.run pid paths).run t) (hr : Env.Runs (Machine.env project) m t m') :
    Covered paths.experimentsDir m' := by
  have hfs := Machine.runs_fs hr
  have hsame := (kept_of_cut h hfs).sameStacks
  intro c hmem
  rcases mem_or_up hr c hmem with hm | ⟨call, hcall, hup, hproject⟩
  · obtain ⟨name, hs, hn⟩ := hc c hm
    exact ⟨name, by rw [hsame name, hs], hn⟩
  · obtain ⟨name, profiles, hs, hargs⟩ := hasStack_of_up h hfs hcall hup
    refine ⟨name, by rw [hsame name, hs], ?_⟩
    rw [hproject, hargs]
    exact project_composeArgs hp (upVerb_mem ⟨none⟩ [])

theorem Covered.history (hp : NamesByDirectory project) (hc : Covered paths.experimentsDir m)
    (h : Machine.History project paths m m') : Covered paths.experimentsDir m' := by
  induction h with
  | start => exact hc
  | others _ hstacks hsub ih =>
    intro c hmem
    obtain ⟨name, hs, hn⟩ := ih c (hsub hmem)
    exact ⟨name, hstacks name hs, hn⟩
  | invoke _ h hr ih => exact ih.invoke hp h hr

end Cover

section Stop

/-- Nothing of a stop brings anything up. -/
theorem not_up_of_stop (h : Partial (stop pid paths targets).run t) :
    ∀ call ∈ composeCalls t, (verbOf call.1).head? ≠ some "up".toList := by
  intro call hcall
  obtain ⟨e, he, ho, hhead⟩ := exists_of_composeCall hcall
  have hargs : dockerArgs e.1 = some call.1 := by rw [ho]; rfl
  have hstop : Partial ((Invocation.act .stop targets).run pid paths).run t := h
  obtain ⟨name, profiles, verb, hverb, hc⟩ := asks_of_partial hstop e he _ hargs hhead
  rw [hc, verbOf_composeArgs hverb]
  rcases List.mem_cons.mp hverb with rfl | hverb
  · decide
  · obtain rfl := List.mem_singleton.mp hverb
    decide

/-- A stop that succeeds has torn down, successfully, what it selected. -/
theorem stop_calls (h : Returns (stop pid paths targets).run t (.ok ())) :
    ∃ selected t₁ t₂, t = t₁ ++ t₂ ∧ Returns (prepare pid paths targets .everythingOnDisk).run t₁
        (.ok (paths.experimentsDir, selected)) ∧
      (composeCalls t).map Prod.fst = selected.map (stopArgs paths.experimentsDir) ∧
      ∀ call ∈ composeCalls t, Succeeded call.2 = true := by
  rcases returns_stop h with ⟨err, -, he⟩ | ⟨dir, selected, t₁, t₂, outcomes, rfl, hp, hs, hc, hr⟩
  · cases he
  obtain rfl := dir_of_prepare hp
  refine ⟨selected, t₁, t₂, rfl, hp, ?_, ?_⟩
  · rw [hc, ← hs, List.map_map, List.map_map]
    rfl
  · intro call hcall
    rw [hc] at hcall
    obtain ⟨w, hw, rfl⟩ := List.mem_map.mp hcall
    by_contra hf
    have hfailed : (outcomes.filter fun w => !Succeeded w.2).map (·.1.name.str) ≠ [] := by
      have hmem : w ∈ outcomes.filter fun w => !Succeeded w.2 :=
        List.mem_filter.mpr ⟨hw, by simpa using hf⟩
      intro hnil
      rw [List.map_eq_nil_iff.mp hnil] at hmem
      cases hmem
    obtain ⟨err, herr⟩ := report_eq_error_iff.mpr hfailed
    rw [herr] at hr
    cases hr

/-- A stop that succeeds leaves no container in the projects that it selects and does not narrow. -/
theorem gone_of_stop (hp : NamesByDirectory project)
    (h : Returns (stop pid paths targets).run t (.ok ()))
    (hr : Env.Runs (Machine.env project) m t m') : ∃ selected t₁ t₂, t = t₁ ++ t₂ ∧
      Returns (prepare pid paths targets .everythingOnDisk).run t₁
        (.ok (paths.experimentsDir, selected)) ∧
      ∀ target ∈ selected, (∀ names, target.profiles ≠ .named names) →
        ∀ c ∈ m'.containers, c.project ≠ projectName target.name.str := by
  obtain ⟨selected, t₁, t₂, rfl, hprep, hcalls, hs⟩ := stop_calls h
  refine ⟨selected, t₁, t₂, rfl, hprep, fun target ht hwide c hc => ?_⟩
  have hmem : stopArgs paths.experimentsDir target ∈ (composeCalls (t₁ ++ t₂)).map Prod.fst := by
    rw [hcalls]
    exact List.mem_map_of_mem ht
  rw [stopArgs_of_not_named hwide] at hmem
  obtain ⟨call, hcall, hargs⟩ := List.mem_map.mp hmem
  have hverb : ["down".toList, "--remove-orphans".toList] ∈ (Invocation.act .stop []).verbs := by
    simp [Invocation.verbs]
  have hproject : project call.1 = projectName target.name.str := by
    rw [hargs, everythingArgs_eq]
    exact project_composeArgs hp hverb
  rw [← hproject]
  exact not_mem_of_tearsDown hr (not_up_of_stop h.cut) hcall (hargs ▸ tearsDown_everythingArgs _ _)
    (hs call hcall) c hc

/-- Whatever was started on a robot that had no containers, with whatever profiles, by whatever
commands and wherever these were cut, a stop without targets that succeeds leaves no container. -/
theorem stop_empties (hp : NamesByDirectory project) (hm : m.containers = ∅)
    {m₁ m₂ : Machine} (hh : Machine.History project paths m m₁)
    (h : Returns (stop pid paths []).run t (.ok ()))
    (hr : Env.Runs (Machine.env project) m₁ t m₂) : m₂.containers = ∅ := by
  have hcovered : Covered paths.experimentsDir m₁ :=
    Covered.history hp (fun c hc => by rw [hm] at hc; exact hc.elim) hh
  have hup := not_up_of_stop h.cut
  obtain ⟨swept, t₁, t₂, rfl, hprep, hgone⟩ := gone_of_stop hp h hr
  obtain ⟨u, hr₁, -⟩ := Env.runs_append_iff.mp (Machine.runs_fs hr)
  obtain ⟨t', hsel, hr'⟩ := prepare_ok_runs hprep hr₁
  obtain ⟨-, -, hall, hnone⟩ := Selects.sweep ⟨t', hsel, hr'⟩
  rw [Set.eq_empty_iff_forall_notMem]
  intro c hc
  rcases mem_or_up hr c hc with hmem | ⟨call, hcall, hup', -⟩
  · obtain ⟨name, hstack, hname⟩ := hcovered c hmem
    obtain ⟨target, ht, rfl⟩ := List.mem_map.mp ((hall name).mpr hstack)
    exact hgone target ht (fun names => by rw [hnone target ht]; nofun) c hc hname
  · exact absurd hup' (hup call hcall)

/-- What is selected of named targets are these, merged. -/
theorem selected_of_named {selected : List Target} {fallback : Fallback} (hne : targets ≠ [])
    (h : Returns (prepare pid paths targets fallback).run t (.ok (dir, selected))) :
    selected = mergeDuplicates targets := by
  rcases returns_prepare h with ⟨_, _, -, he⟩ | ⟨_, t', rfl, hs⟩
  · cases he
  obtain ⟨missing, -, hx⟩ := returns_select_named hne hs
  split at hx
  · cases hx
    rfl
  · cases hx

/-- Wherever a command that names experiments is cut, it leaves the containers alone that are in
the projects of none of them. -/
theorem others_kept {command : Command} {c : Container} (hp : NamesByDirectory project)
    (hne : targets ≠ []) (h : Partial (command.run pid paths targets).run t)
    (hr : Env.Runs (Machine.env project) m t m')
    (hc : ∀ target ∈ targets, c.project ≠ projectName target.name.str) :
    c ∈ m'.containers ↔ c ∈ m.containers := by
  refine mem_iff_of_ne hr fun call hcall => ?_
  obtain ⟨e, he, ho, hhead⟩ := exists_of_composeCall hcall
  have hquiet : ¬ Quiet e.1 := by
    rw [ho]
    exact fun hq => hq ⟨rfl, hhead⟩
  rcases asksSelected_of_partial h with hq | ⟨selected, t₁, t₂, rfl, hprep, h₂⟩
  · exact absurd (hq e he) hquiet
  rcases List.mem_append.mp he with he | he
  · exact absurd ((prepare_quiet _ _ _ _).returns hprep e he) hquiet
  obtain ⟨target, ht, profiles, invocation, verb, hverb, hcall⟩ := (h₂ e he).resolve_left hquiet
  obtain ⟨-, hargs⟩ := SysOp.status.inj (ho.symm.trans hcall)
  rw [hargs, project_composeArgs hp hverb]
  have hname : target.name ∈ targets.map Target.name := by
    rw [← List.mem_eraseDups, ← mergeDuplicates_names, ← selected_of_named hne hprep]
    exact List.mem_map_of_mem ht
  obtain ⟨mention, hmention, hsame⟩ := List.mem_map.mp hname
  rw [← hsame]
  exact hc mention hmention

/-- A stop of named experiments that succeeds leaves no container of those that are mentioned with
all profiles, or always without any. -/
theorem stop_named (hp : NamesByDirectory project) (hne : targets ≠ [])
    (h : Returns (stop pid paths targets).run t (.ok ()))
    (hr : Env.Runs (Machine.env project) m t m') (ht : target ∈ targets)
    (hwide : (∃ other ∈ targets, other.name = target.name ∧ other.profiles = .all) ∨
      ∀ other ∈ targets, other.name = target.name → other.profiles = .none) :
    ∀ c ∈ m'.containers, c.project ≠ projectName target.name.str := by
  obtain ⟨selected, t₁, t₂, rfl, hprep, hgone⟩ := gone_of_stop hp h hr
  obtain rfl := selected_of_named hne hprep
  obtain ⟨merged, hmem, hname⟩ := exists_mem_mergeDuplicates ht
  rw [← hname] at hwide ⊢
  refine hgone merged hmem fun names hc => ?_
  rcases hwide with hall | hnone
  · rw [(mergeDuplicates_all_iff hmem).mpr hall] at hc
    cases hc
  · rw [(mergeDuplicates_none_iff hmem).mpr hnone] at hc
    cases hc

end Stop

section Example

/-- What a start of the experiment brings up. -/
def slamContainer : Container := ⟨projectName slam.str, "slam".toList⟩

theorem env_of_not_compose {s : Set Container} (h : Fs.env fs e fs') (hc : composeCall e = none) :
    Machine.env project ⟨fs, s⟩ e ⟨fs', s⟩ := by
  refine ⟨h, ?_⟩
  rw [hc]

theorem env_of_compose {before after : Set Container}
    (h : Composes project args reply before after) (ha : args.head? = some "compose".toList) :
    Machine.env project ⟨fs, before⟩ ⟨.status docker args, reply⟩ ⟨fs, after⟩ := by
  have hc : composeCall ⟨.status docker args, reply⟩ = some (args, reply) := if_pos ⟨rfl, ha⟩
  refine ⟨rfl, ?_⟩
  rw [hc]
  exact h

/-- A start of the one experiment, a stop without targets and a stop of it, on a robot that has
containers of other projects. -/
theorem exists_machines {s : Set Container} (ho : ∀ c ∈ s, c.project ≠ slamContainer.project) :
    ∃ fs : Fs,
    Env.Runs (Machine.env directoryProject) ⟨fs, s⟩ slamTrace ⟨fs, insert slamContainer s⟩ ∧
    Env.Runs (Machine.env directoryProject) ⟨fs, insert slamContainer s⟩ sweepTrace ⟨fs, s⟩ ∧
    Env.Runs (Machine.env directoryProject) ⟨fs, insert slamContainer s⟩
      (stopTrace slam.everything) ⟨fs, s⟩ := by
  obtain ⟨fs, ⟨hs, hlists, hnofile⟩, hconf⟩ :=
    exists_slamOnly (.text "IGNORE_PULL_FAILURES=Yes\n".toList)
  have hpull := pullVerb_mem ⟨none⟩ []
  have hup := upVerb_mem ⟨none⟩ []
  have hdown : ["down".toList, "--remove-orphans".toList] ∈ (Invocation.act .stop []).verbs := by
    simp [Invocation.verbs]
  have hadded : ∀ c : Container, c.project ≠ slamContainer.project →
      (c ∈ insert slamContainer s ↔ c ∈ s) := fun c hc =>
    or_iff_right fun he => hc (by rw [he])
  have hpulled : Composes directoryProject
      (composeArgs rootPaths.experimentsDir slam .none pullVerb) (exited false) s s :=
    ⟨fun _ _ => Iff.rfl, fun _ => subset_rfl, fun _ hf => by cases hf⟩
  have hupped : Composes directoryProject (composeArgs rootPaths.experimentsDir slam .none upVerb)
      (exited true) s (insert slamContainer s) := by
    refine ⟨fun c hc => hadded c ?_, fun hv => absurd ?_ hv, fun hd => ?_⟩
    · rwa [project_composeArgs namesByDirectory_directoryProject hup] at hc
    · rw [verbOf_composeArgs hup]
      rfl
    · have hv := hd.2
      rw [verbOf_composeArgs hup] at hv
      exact absurd hv (by decide)
  have hgone : Composes directoryProject (everythingArgs rootPaths.experimentsDir slam)
      (exited true) (insert slamContainer s) s := by
    have hproject : directoryProject (everythingArgs rootPaths.experimentsDir slam) =
        slamContainer.project := by
      rw [everythingArgs_eq, project_composeArgs namesByDirectory_directoryProject hdown]
      rfl
    rw [← hproject] at hadded ho
    exact ⟨fun c hc => (hadded c hc).symm, fun _ => Set.subset_insert _ _, fun _ _ => ho⟩
  have hfile : fs.isFile (rootPaths.experimentsDir.join "experiments.conf".toList) = true := by
    rw [Fs.isFile, hconf]
  refine ⟨fs, ?_, ?_, ?_⟩
  · exact .cons (env_of_not_compose rfl rfl) (.cons (env_of_not_compose ⟨rfl, hs.symm⟩ rfl)
      (.cons (env_of_not_compose ⟨rfl, hfile.symm⟩ rfl) (.cons (env_of_not_compose
        ⟨rfl, Fs.readsAs_ok_iff.mpr hconf⟩ rfl) (.cons (env_of_compose hpulled rfl)
          (.cons (env_of_compose hupped rfl) (.nil _))))))
  · exact .cons (env_of_not_compose rfl rfl) (.cons (env_of_not_compose ⟨rfl, hlists⟩ rfl)
      (.cons (env_of_not_compose ⟨rfl, hs.symm⟩ rfl) (.cons (env_of_not_compose
        ⟨rfl, hnofile.symm⟩ rfl) (.cons (env_of_compose hgone rfl) (.nil _)))))
  · exact .cons (env_of_not_compose rfl rfl) (.cons (env_of_not_compose ⟨rfl, hs.symm⟩ rfl)
      (.cons (env_of_compose hgone rfl) (.nil _)))

theorem stop_empties_slam : ∃ m m' : Machine, slamContainer ∈ m.containers ∧
    Env.Runs (Machine.env directoryProject) m sweepTrace m' ∧ m'.containers = ∅ := by
  obtain ⟨fs, hstart, hstop, -⟩ :=
    exists_machines (s := ∅) fun c hc => absurd hc (Set.notMem_empty c)
  have hcommand : Partial ((Invocation.act (.start ⟨none⟩) [⟨slam, .none⟩]).run 1 rootPaths).run
      slamTrace := returns_slamTrace.cut
  exact ⟨_, _, Set.mem_insert _ _, hstop, stop_empties namesByDirectory_directoryProject rfl
    (.invoke .start hcommand hstart) returns_sweepTrace hstop⟩

/-- A container of another experiment. -/
def mappingContainer : Container := ⟨projectName mapping.str, "mapping".toList⟩

theorem mapping_others : ∀ c ∈ ({mappingContainer} : Set Container),
    c.project ≠ slamContainer.project := by
  rintro c rfl
  decide

/-- A start that mentions its experiment twice leaves a container of another one running. -/
theorem others_kept_slam : ∃ m m' : Machine, slamContainer ∉ m.containers ∧
    slamContainer ∈ m'.containers ∧ mappingContainer ∈ m.containers ∧
    (mappingContainer ∈ m'.containers ↔ mappingContainer ∈ m.containers) := by
  obtain ⟨fs, hstart, -⟩ := exists_machines mapping_others
  have hcommand : Partial
      ((Command.start ⟨none⟩).run 1 rootPaths [⟨slam, .none⟩, ⟨slam, .none⟩]).run slamTrace :=
    returns_slamTrace.cut
  have hnew : slamContainer ∉ ({mappingContainer} : Set Container) := fun hc =>
    mapping_others _ hc rfl
  refine ⟨⟨fs, {mappingContainer}⟩, ⟨fs, insert slamContainer {mappingContainer}⟩, hnew,
    Set.mem_insert _ _, Set.mem_singleton _, ?_⟩
  refine others_kept namesByDirectory_directoryProject (by simp) hcommand hstart ?_
  simp only [List.forall_mem_cons, List.not_mem_nil, false_imp_iff, implies_true, and_true]
  decide

/-- A stop of mentions without profiles and with all of them leaves no container of theirs, and
the one of another experiment. -/
theorem stop_named_slam : ∃ m m' : Machine, slamContainer ∈ m.containers ∧
    mappingContainer ∈ m'.containers ∧ ∀ c ∈ m'.containers, c.project ≠ projectName slam.str := by
  obtain ⟨fs, -, -, hstop⟩ := exists_machines mapping_others
  have hret : Returns (stop 2 rootPaths [⟨slam, .none⟩, ⟨slam, .all⟩]).run
      (stopTrace slam.everything) (.ok ()) := by
    refine returns_call_iff.mpr ⟨_, _, rfl, ?_⟩
    refine returns_call_iff.mpr ⟨_, _, rfl, ?_⟩
    exact returns_call_iff.mpr ⟨_, _, rfl, .ret _⟩
  exact ⟨⟨fs, insert slamContainer {mappingContainer}⟩, ⟨fs, {mappingContainer}⟩,
    Set.mem_insert _ _, Set.mem_singleton _, stop_named namesByDirectory_directoryProject (by simp)
      hret hstop List.mem_cons_self (Or.inl ⟨⟨slam, .all⟩, by simp, rfl, rfl⟩)⟩

end Example

end RobotCtl.Experiments
