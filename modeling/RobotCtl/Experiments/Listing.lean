import RobotCtl.Experiments.Sweep

/-! # Listing the experiments

The listing joins the stacks on disk with the enabled names, and a start reads
the enabled names and drops those without a stack. So a row is enabled and has a
compose file exactly if a start without arguments selects its experiment.
-/

namespace RobotCtl.Experiments

open Text Conf Prog

def configVerb : List Str := ["config".toList, "--profiles".toList]

/-- The profiles in the reply of compose. -/
def declaredProfilesOf : Io Output → Except Error (List Str)
  | .error err => .error ["running `docker compose config --profiles`".toList, err.text]
  | .ok output =>
    if output.status.success then
      .ok (Sorting.sortBy id (((lines output.stdout).map trim).filter (· ≠ [])))
    else .error ["`docker compose config --profiles` exited with ".toList ++ output.status.text]

/-- The profiles one compose file declares. -/
def declaredProfiles (dir : FilePath) (name : ExperimentName) : Fallible (List Str) :=
  ExceptT.mk ((Sys.output docker (composeArgs dir name .none configVerb)).bind fun x =>
    .ret (declaredProfilesOf x))

structure Row where
  name : Str
  enabled : Str
  configured : Str
  available : Str
  deriving DecidableEq, Repr

def Row.cells (row : Row) : List Str := [row.name, row.enabled, row.configured, row.available]

def noComposeFile : Str := "(no compose file)".toList

def yes : Str := "yes".toList

def no : Str := "no".toList

def configuredCell (enabled : List Target) (name : ExperimentName) : Str :=
  (((enabled.find? (·.name = name)).map (·.profiles.display)).filter (· ≠ [])).getD ['-']

def availableCell : Except Error (List Str) → Str
  | .ok profiles => if profiles = [] then ['-'] else joinWith ", ".toList profiles
  | .error _ => ['?']

def availableColumn (dir : FilePath) (name : ExperimentName) : Prog Sys Str := do
  if ← Sys.isFile (composeFile dir name) then
    let declared ← (declaredProfiles dir name).run
    pure (availableCell declared)
  else pure noComposeFile

/-- The row of one experiment. -/
def listRow (dir : FilePath) (enabled : List Target) (name : ExperimentName) : Prog Sys Row := do
  let available ← availableColumn dir name
  pure ⟨name.str, if enabled.any (·.name = name) then yes else no, configuredCell enabled name,
    available⟩

/-- The width of every column: its longest cell, or the length of its header. -/
def widths (headers : List Str) (rows : List (List Str)) : List ℕ :=
  rows.foldl (List.zipWith fun width cell => max width cell.length) (headers.map utf8Len)

/-- Cells padded to their widths, except for the last. -/
def padded : List ℕ → List Str → Str
  | _, [] => []
  | _, [cell] => cell
  | width :: widths, cell :: cells =>
    cell ++ List.replicate (width - cell.length) ' ' ++ "  ".toList ++ padded widths cells
  | [], cell :: cells => cell ++ "  ".toList ++ padded [] cells

def tableLine (widths : List ℕ) (cells : List Str) : Str := trimEnd (padded widths cells)

def headers : List Str :=
  ["NAME".toList, "ENABLED".toList, "CONFIGURED".toList, "AVAILABLE PROFILES".toList]

def tableLines (rows : List Row) : List Str :=
  (headers :: rows.map Row.cells).map (tableLine (widths headers (rows.map Row.cells)))

def printLines : List Str → Prog Sys Unit
  | [] => .ret ()
  | line :: lines => (Sys.println line).bind fun _ => printLines lines

def printTable (rows : List Row) : Prog Sys Unit := printLines (tableLines rows)

def pushName (names : List ExperimentName) (name : ExperimentName) : List ExperimentName :=
  Grouping.pushNew names name

/-- The names to list: those on disk and those enabled, in order. -/
def listNames (enabled : List Target) (names : List ExperimentName) : List ExperimentName :=
  Sorting.sortBy ExperimentName.str ((enabled.map Target.name).foldl pushName names)

/-- What the text of `enabled.conf`, or its absence, enables. -/
def enabledOf : Option Str → List Target
  | some text => (parseEnabled text).targets
  | none => []

/-- What exists on this robot: every stack, whether it is enabled, and its profiles. -/
def list (paths : Paths) : Fallible Unit := do
  let dir := paths.experimentsDir
  let enabled := enabledOf (← readOptional (dir.join "enabled.conf".toList))
  let names := listNames enabled (← onDisk dir)
  if names = [] then pure ()
  else
    let rows ← (names.mapM (listRow dir enabled) : Prog Sys (List Row))
    (printTable rows : Prog Sys Unit)

/-- The lines that a trace prints. -/
def printed (t : List (Event Sys)) : List Str :=
  t.filterMap fun
    | ⟨.println line, _⟩ => some line
    | _ => none

/-- What compose prints for a file are names of profiles, which start with a letter or a digit. -/
def DeclaresProfiles (t : List (Event Sys)) : Prop :=
  ∀ args output, (⟨.output "docker".toList args, .ok output⟩ : Event Sys) ∈ t →
    ∀ l ∈ lines output.stdout, trim l = [] ∨
      ∃ first rest, trim l = first :: rest ∧ isAlphanumeric first = true

variable {pid : ℕ} {paths : Paths} {dir : FilePath} {name : ExperimentName}
  {enabled selected : List Target} {names : List ExperimentName} {existing : Option Str}
  {t t' : List (Event Sys)} {fs fs' : Fs}

@[simp] theorem printed_append (t t' : List (Event Sys)) :
    printed (t ++ t') = printed t ++ printed t' := List.filterMap_append

/-- The call prints nothing. -/
def Silent : SysOp → Prop
  | .println _ => False
  | _ => True

theorem FileCall.silent {o : SysOp} (h : FileCall o) : Silent o := by
  cases o with
  | println line => exact h.elim
  | _ => trivial

theorem ScanCall.silent {o : SysOp} (h : ScanCall o) : Silent o := by
  cases o with
  | println line => exact h.elim
  | _ => trivial

theorem printed_eq_nil {α : Type} {p : Prog Sys α} {a : α} (hp : p.Uses Silent)
    (h : Returns p t a) : printed t = [] := by
  apply List.filterMap_eq_nil_iff.mpr
  intro e he
  have hs := hp.returns h e he
  obtain ⟨o, reply⟩ := e
  cases o with
  | println line => exact hs.elim
  | _ => rfl

section Names

theorem mem_foldl_pushName {more : List ExperimentName} :
    name ∈ more.foldl pushName names ↔ name ∈ names ∨ name ∈ more :=
  Grouping.mem_foldl_pushNew

theorem nodup_foldl_pushName {more : List ExperimentName} (h : names.Nodup) :
    (more.foldl pushName names).Nodup :=
  List.foldlRecOn (motive := List.Nodup) _ _ h fun _ h _ _ => Grouping.nodup_pushNew h

theorem str_injective : Function.Injective ExperimentName.str := fun _ _ => ExperimentName.ext

theorem mem_listNames : name ∈ listNames enabled names ↔
    name ∈ names ∨ name ∈ enabled.map Target.name := by
  rw [listNames, Sorting.mem_sortBy, mem_foldl_pushName]

/-- The names are listed in strictly increasing order. -/
theorem pairwise_listNames (h : names.Nodup) :
    (listNames enabled names).Pairwise fun a b => a.str < b.str :=
  Sorting.pairwise_sortBy ((nodup_foldl_pushName h).map str_injective)

end Names

section Rows

/-- The row of an experiment, as far as it does not depend on what compose declares. -/
structure RowOf (fs : Fs) (dir : FilePath) (enabled : List Target) (name : ExperimentName)
    (row : Row) : Prop where
  name_eq : row.name = name.str
  enabled_iff : row.enabled = yes ↔ name ∈ enabled.map Target.name
  configured_eq : row.configured = configuredCell enabled name
  available_iff : row.available ≠ noComposeFile ↔ HasStack fs dir name = true

/-- The cell for declared profiles never says that there is no compose file. -/
theorem availableCell_ne {reply : Io Output}
    (h : ∀ output, reply = .ok output → ∀ l ∈ lines output.stdout, trim l = [] ∨
      ∃ first rest, trim l = first :: rest ∧ isAlphanumeric first = true) :
    availableCell (declaredProfilesOf reply) ≠ noComposeFile := by
  have hunknown : (['?'] : Str) ≠ noComposeFile := by decide
  cases reply with
  | error err => exact hunknown
  | ok output =>
    by_cases hs : output.status.success = true
    · rw [declaredProfilesOf, if_pos hs, availableCell]
      split
      · decide
      · cases hp : Sorting.sortBy id (((lines output.stdout).map trim).filter (· ≠ [])) with
        | nil => contradiction
        | cons profile profiles =>
          have hm : profile ∈ ((lines output.stdout).map trim).filter (· ≠ []) :=
            Sorting.mem_sortBy.mp (hp ▸ List.mem_cons_self)
          obtain ⟨hm, hne⟩ := List.mem_filter.mp hm
          obtain ⟨l, hl, rfl⟩ := List.mem_map.mp hm
          obtain ⟨first, rest, hf, ha⟩ := (h output rfl l hl).resolve_left (by simpa using hne)
          -- the cell starts with a letter or a digit, and not with a parenthesis
          have hhead : (joinWith ", ".toList (trim l :: profiles)).head? = some first := by
            cases profiles <;> simp [joinWith, hf, List.intercalate, List.intersperse]
          intro hc
          rw [hc] at hhead
          obtain rfl := Option.some.inj hhead
          exact absurd ha (by decide)
    · rw [declaredProfilesOf, if_neg hs]
      exact hunknown

theorem returns_declaredProfiles {r : Except Error (List Str)}
    (h : Returns (declaredProfiles dir name).run t r) :
    ∃ reply, t = [⟨.output docker (composeArgs dir name .none configVerb), reply⟩] ∧
      r = declaredProfilesOf reply := by
  obtain ⟨reply, t', rfl, h'⟩ := returns_call_iff.mp h
  obtain ⟨rfl, rfl⟩ := returns_ret_iff.mp h'
  exact ⟨reply, rfl, rfl⟩

theorem enabled_iff_mem : (if enabled.any (·.name = name) then yes else no) = yes ↔
    name ∈ enabled.map Target.name := by
  have hne : no ≠ yes := by decide
  have hany : enabled.any (·.name = name) = true ↔ name ∈ enabled.map Target.name := by
    simp
  rw [← hany]
  by_cases h : enabled.any (·.name = name) = true
  · simp [h]
  · rw [if_neg h]
    exact iff_of_false hne h

/-- A row tells whether there is a stack, and is printed later. -/
theorem listRow_runs {row : Row} (h : Returns (listRow dir enabled name) t row)
    (hr : Env.Runs Fs.env fs t fs') (hd : DeclaresProfiles t) :
    fs' = fs ∧ printed t = [] ∧ RowOf fs dir enabled name row := by
  obtain ⟨available, t₁, t₂, rfl, h₁, h₂⟩ := returns_bind_iff.mp h
  obtain ⟨rfl, rfl⟩ := returns_ret_iff.mp h₂
  rw [List.append_nil] at hr hd ⊢
  obtain ⟨isFile, t₃, rfl, h₃⟩ := returns_call_iff.mp h₁
  obtain ⟨u, ⟨hu, hb⟩, hr'⟩ := Env.runs_cons_iff.mp hr
  subst hu
  rw [ret_bind] at h₃
  have hstack : HasStack u dir name = isFile := hb.symm
  cases isFile with
  | false =>
    obtain ⟨rfl, rfl⟩ := returns_ret_iff.mp h₃
    refine ⟨Env.runs_nil_iff.mp hr', rfl, rfl, enabled_iff_mem, rfl, ?_⟩
    simp [hstack]
  | true =>
    obtain ⟨declared, t₄, t₅, rfl, h₄, h₅⟩ := returns_bind_iff.mp h₃
    obtain ⟨rfl, rfl⟩ := returns_ret_iff.mp h₅
    obtain ⟨reply, rfl, rfl⟩ := returns_declaredProfiles h₄
    obtain ⟨v, hv, hr''⟩ := Env.runs_cons_iff.mp hr'
    obtain rfl : v = u := hv
    refine ⟨Env.runs_nil_iff.mp hr'', rfl, rfl, enabled_iff_mem, rfl, ?_⟩
    apply iff_of_true _ hstack
    apply availableCell_ne
    rintro output rfl
    exact hd (composeArgs dir name .none configVerb) output (List.mem_cons_of_mem _
      List.mem_cons_self)

theorem listRows_runs {rows : List Row}
    (h : Returns (names.mapM (listRow dir enabled) : Prog Sys (List Row)) t rows)
    (hr : Env.Runs Fs.env fs t fs') (hd : DeclaresProfiles t) :
    fs' = fs ∧ printed t = [] ∧ List.Forall₂ (RowOf fs dir enabled) names rows := by
  induction names generalizing t rows fs with
  | nil =>
    obtain ⟨rfl, rfl⟩ := returns_ret_iff.mp h
    exact ⟨Env.runs_nil_iff.mp hr, rfl, .nil⟩
  | cons name names ih =>
    rw [List.mapM_cons] at h
    obtain ⟨row, t₁, t₂, rfl, h₁, h₂⟩ := returns_bind_iff.mp h
    obtain ⟨rest, t₃, t₄, rfl, h₃, h₄⟩ := returns_bind_iff.mp h₂
    obtain ⟨rfl, rfl⟩ := returns_ret_iff.mp h₄
    rw [List.append_nil] at hr hd ⊢
    obtain ⟨u, hr₁, hr₂⟩ := Env.runs_append_iff.mp hr
    obtain ⟨rfl, hp₁, hrow⟩ := listRow_runs h₁ hr₁ fun args output hm =>
      hd args output (List.mem_append_left _ hm)
    obtain ⟨rfl, hp₂, hrows⟩ := ih h₃ hr₂ fun args output hm =>
      hd args output (List.mem_append_right _ hm)
    exact ⟨rfl, by rw [printed_append, hp₁, hp₂]; rfl, .cons hrow hrows⟩

end Rows

section Enabled

variable {spec text : Str} {target : Target}

theorem comment_line {r : Str} (h : '\n' ∉ r) :
    '\n' ∉ (String.ofList ('#' :: r)).toList ∧ ['#'] <+: (String.ofList ('#' :: r)).toList := by
  rw [String.toList_ofList]
  constructor
  · simp [h]
  · simp

theorem parseEnabled_template : (parseEnabled enabledConfTemplate).targets = [] := by
  rw [enabledConfTemplate]
  generalize hls : List.map String.toList _ = ls
  have hcomment : ∀ l ∈ ls, '\n' ∉ l ∧ ['#'] <+: l := by
    -- Unifying with `String.ofList` spares the kernel decoding the literals.
    rw [← hls, List.forall_mem_map]
    iterate 16
      rw [List.forall_mem_cons]
      refine ⟨comment_line ?_, ?_⟩
      · decide
    exact List.forall_mem_nil _
  apply parseEnabled_comments
  rw [lines_joinLines fun l hl => (hcomment l hl).1]
  intro l hl
  obtain ⟨m, hm, rfl⟩ := List.mem_map.mp hl
  obtain ⟨r, hr⟩ := prefix_trim (by simp) (by decide) (hcomment m hm).2
  rw [trim_stripCr, ← hr]
  rfl

/-- The profiles column of an experiment that is enabled with these profiles. -/
def configuredDisplay : Profiles → Str
  | .none => ['-']
  | .all => ['*']
  | .named names => joinWith ", ".toList (names.map ProfileName.str)

theorem configuredCell_of_mem (hnodup : (enabled.map Target.name).Nodup)
    (hne : target.profiles ≠ .named []) (h : target ∈ enabled) :
    configuredCell enabled target.name = configuredDisplay target.profiles := by
  have hfind : enabled.find? (·.name = target.name) = some target := by
    have hs : (enabled.filter (·.name = target.name)) = [target] :=
      Grouping.filter_key_of_nodup hnodup h
    rw [← List.head?_filter, hs]
    rfl
  rw [configuredCell, hfind, Option.map_some]
  generalize target.profiles = profiles at hne ⊢
  cases profiles with
  | none => rfl
  | all => rfl
  | named profiles =>
    cases profiles with
    | nil => exact absurd rfl hne
    | cons profile profiles =>
      obtain ⟨first, rest, hf, -⟩ := profile.start
      have hd : (Profiles.named (profile :: profiles)).display ≠ [] := by
        cases profiles <;> simp [Profiles.display, joinWith, hf, List.intercalate]
      rw [Option.filter_some, decide_eq_true hd]
      rfl

/-- What a start without arguments selects: what is enabled and has a stack. -/
theorem Selects.enabled_eq {pid : ℕ} (h : Selects pid paths [] .enabled fs fs' selected)
    (he : Holds fs (paths.experimentsDir.join "enabled.conf".toList) existing) :
    selected = (enabledOf existing).filter fun target =>
      HasStack fs paths.experimentsDir target.name := by
  obtain ⟨t, hs, hr⟩ := h
  obtain ⟨r', hsel, hx⟩ := returns_select_enabled hs
  cases r' <;> cases hx
  obtain ⟨t₁, t₂, t₃, text, rfl, h₁, h₂, h₃⟩ := returns_enabledTargets_ok hsel
  obtain ⟨u, hr₁, hr₂⟩ := Env.runs_append_iff.mp hr
  obtain ⟨v, hr₃, hr₄⟩ := Env.runs_append_iff.mp hr₂
  obtain ⟨rfl, htext⟩ := readOptional_runs h₂ hr₃
  obtain ⟨rfl, rfl⟩ := filterFiles_runs h₃ hr₄
  have hsame := sameStacks_ensureFile h₁ hr₁
  have htargets : (parseEnabled (text.getD [])).targets = enabledOf existing := by
    obtain ⟨b, t₄, t₅, rfl, h₄, h₅⟩ := returns_lift_bind_iff.mp h₁
    obtain rfl := returns_perform_iff.mp h₄
    obtain ⟨w, ⟨hw, hb⟩, hr₅⟩ := Env.runs_cons_iff.mp hr₁
    subst hw
    cases b with
    | true =>
      obtain ⟨rfl, -⟩ := returns_ret_iff.mp h₅
      rw [Env.runs_nil_iff.mp hr₅] at htext
      obtain rfl := holds_inj he htext
      cases existing with
      | none => rfl
      | some text => rfl
    | false =>
      -- there was no file, and the template that was written enables nothing
      obtain ⟨x, t₆, t₇, rfl, h₆, h₇⟩ := returns_bind_iff.mp h₅
      obtain ⟨rfl, hx⟩ := returns_ret_iff.mp h₇
      rw [List.append_nil] at hr₅
      have hnone : existing = none := by
        cases existing with
        | none => rfl
        | some text =>
          have hn : w.node (paths.experimentsDir.join "enabled.conf".toList) =
            some (.file (.text text)) := he
          rw [Fs.isFile, hn] at hb
          cases hb
      cases x with
      | error e => cases hx
      | ok _ =>
        obtain rfl := holds_inj ((writeRun_of_returns h₆).holds hr₅) htext
        rw [hnone]
        exact parseEnabled_template
  rw [htargets]
  apply List.filter_congr
  intro target _
  rw [hsame]
  simp

end Enabled

end RobotCtl.Experiments
