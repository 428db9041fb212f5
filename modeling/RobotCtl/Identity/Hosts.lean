import RobotCtl.Identity.Settings

/-! # Deriving the host name again

Both files are compared before they are written, so deriving the host name a
second time should write nothing. It does write if a line that the hosts file
keeps ends in a carriage return, since every rewriting takes one off.
-/

namespace RobotCtl.Identity

open Text Conf

variable {pid pid' : ℕ} {paths : Paths} {config : RobotConfig} {existing : Option Str}
  {t t' : List (Event Sys)} {fs fs' fs'' : Fs}

/-- The two files are different ones, and neither is the temporary of the other. -/
structure Separate (pid : ℕ) (paths : Paths) : Prop where
  hosts_ne : paths.hostsPath ≠ paths.hostnamePath
  hosts_ne_tmp : paths.hostsPath ≠ tmpPath pid paths.hostnamePath
  hostname_ne_tmp : paths.hostnamePath ≠ tmpPath pid paths.hostsPath

/-- The call reads a file. -/
def Reads (o : SysOp) : Prop := ∃ path, o = .readToString path

@[simp] theorem reads_readToString (path : FilePath) : Reads (.readToString path) := ⟨path, rfl⟩

/-- Deriving the host name twice is deriving it once: the rendering of the hosts file is its own
rendering, and a call of `applyFiles` right after a successful one makes no call but reads and
changes nothing; it returns false, unless one of its reads fails. -/
def Settled (existing : Option Str) (config : RobotConfig) : Prop :=
  renderHostsFile (some (renderHostsFile existing config.robotId)) config.robotId =
      renderHostsFile existing config.robotId ∧
    ∀ (pid pid' : ℕ) (paths : Paths) (fs fs' fs'' : Fs) (t t' : List (Event Sys)) (b : Bool)
      (r : Except Error Bool), Separate pid paths → Holds fs paths.hostsPath existing →
      Prog.Returns (applyFiles pid paths config).run t (.ok b) → Env.Runs Fs.env fs t fs' →
      Prog.Returns (applyFiles pid' paths config).run t' r → Env.Runs Fs.env fs' t' fs'' →
      (∀ e ∈ t', Reads e.1) ∧ fs'' = fs' ∧
        (r = .ok false ∨ ∃ path e, ⟨.readToString path, .error e⟩ ∈ t' ∧ ∃ err, r = .error err)

/-- An entry of the local address: the address with a space or a tab after it. -/
def isEntry (line : Str) : Bool :=
  "127.0.1.1 ".toList.isPrefixOf line || "127.0.1.1\t".toList.isPrefixOf line

/-- Every line of the hosts file that is kept ends before its line ending. -/
def NoStrayReturn (existing : Option Str) : Prop :=
  ∀ text ∈ existing, ∀ l ∈ lines text, isEntry l = true ∨ l.getLast? ≠ some '\r'

def hostsEntry (robotId : RobotId) : Str := "127.0.1.1\t".toList ++ robotId.str

theorem isEntry_iff {l : Str} :
    isEntry l = true ↔ "127.0.1.1 ".toList <+: l ∨ "127.0.1.1\t".toList <+: l := by
  rw [isEntry, Bool.or_eq_true, List.isPrefixOf_iff_prefix, List.isPrefixOf_iff_prefix]

/-- The lines that are replaced are the entries. -/
theorem isHostsEntry_eq : isHostsEntry = isEntry := by
  have hspace : "127.0.1.1 ".toList = "127.0.1.1".toList ++ [' '] := rfl
  have htab : "127.0.1.1\t".toList = "127.0.1.1".toList ++ ['\t'] := rfl
  funext l
  rw [Bool.eq_iff_iff, isEntry_iff, hspace, htab]
  unfold isHostsEntry
  split
  · next rest h =>
    rw [stripPrefix_eq_some_iff] at h
    subst h
    rw [List.prefix_append_right_inj, List.prefix_append_right_inj]
    cases rest with
    | nil => simp
    | cons c rest => simp [@eq_comm Char c]
  · next h =>
    have hn := stripPrefix_eq_none_iff.mp h
    constructor
    · intro hf; cases hf
    · rintro (hp | hp)
      · exact absurd ((List.prefix_append _ _).trans hp) hn
      · exact absurd ((List.prefix_append _ _).trans hp) hn

theorem renderHostsFile_some (text : Str) (robotId : RobotId) :
    renderHostsFile (some text) robotId = replaceLines isEntry (hostsEntry robotId) text := by
  rw [← isHostsEntry_eq]
  rfl

theorem isEntry_stripCr (l : Str) : isEntry (stripCr l) = isEntry l := by
  rcases stripCr_cases l with h | h
  · rw [h]
  · have hc : ∀ (address : Str) (c : Char), c ≠ '\r' →
        (address ++ [c] <+: l ↔ address ++ [c] <+: stripCr l) := by
      intro address c hc
      conv_lhs => rw [h, List.prefix_concat_iff]
      simp [hc]
    rw [Bool.eq_iff_iff, isEntry_iff, isEntry_iff]
    exact or_congr (hc "127.0.1.1".toList ' ' (by decide)).symm
      (hc "127.0.1.1".toList '\t' (by decide)).symm

theorem isEntry_hostsEntry (robotId : RobotId) : isEntry (hostsEntry robotId) = true :=
  isEntry_iff.mpr (Or.inr ⟨robotId.str, rfl⟩)

theorem not_mem_hostsEntry {c : Char} (robotId : RobotId) (hid : isIdChar c = false)
    (hc : c ∉ "127.0.1.1\t".toList) : c ∉ hostsEntry robotId := by
  intro h
  rcases List.mem_append.mp h with h | h
  · exact hc h
  · rw [robotId.chars c h] at hid; cases hid

theorem newline_not_mem_hostsEntry (robotId : RobotId) : '\n' ∉ hostsEntry robotId :=
  not_mem_hostsEntry robotId (by decide) (by decide)

theorem stripCr_hostsEntry (robotId : RobotId) :
    stripCr (hostsEntry robotId) = hostsEntry robotId :=
  stripCr_eq_self (not_mem_hostsEntry robotId (by decide) (by decide))

/-- The file made for a missing one is its own rendering, as if it had held the local host. -/
theorem renderHostsFile_none (robotId : RobotId) : renderHostsFile none robotId =
    renderHostsFile (some "127.0.0.1\tlocalhost\n".toList) robotId := by
  have hl : lines "127.0.0.1\tlocalhost\n".toList = ["127.0.0.1\tlocalhost".toList] := by decide
  have hn : isEntry "127.0.0.1\tlocalhost".toList = false := by decide
  have hr : replacedLines isEntry (hostsEntry robotId) ["127.0.0.1\tlocalhost".toList] =
      ["127.0.0.1\tlocalhost".toList, hostsEntry robotId] := by
    simp only [replacedLines, List.map_cons, List.map_nil, List.any_cons, List.any_nil, hn]
    rfl
  rw [renderHostsFile_some, replaceLines_eq, hl, hr, joinLines_cons, joinLines_cons, joinLines_nil]
  rfl

/-- Rendering the hosts file twice is rendering it once exactly if no kept line has a carriage
return to lose. -/
theorem renderHostsFile_renderHostsFile_iff (existing : Option Str) (robotId : RobotId) :
    renderHostsFile (some (renderHostsFile existing robotId)) robotId =
      renderHostsFile existing robotId ↔ NoStrayReturn existing := by
  have hsome : ∀ text, renderHostsFile (some (renderHostsFile (some text) robotId)) robotId =
      renderHostsFile (some text) robotId ↔ NoStrayReturn (some text) := by
    intro text
    simp only [renderHostsFile_some, NoStrayReturn, Option.mem_some_iff, forall_eq',
      ← stripCr_eq_self_iff]
    exact replaceLines_replaceLines_iff text (newline_not_mem_hostsEntry robotId)
      (stripCr_hostsEntry robotId) (isEntry_hostsEntry robotId) isEntry_stripCr
  cases existing with
  | none =>
    rw [renderHostsFile_none, hsome]
    constructor
    · rintro - _ ⟨⟩
    · rintro - _ ⟨⟩
      decide
  | some text => exact hsome text

/-- The parts of a call of `applyFiles`: the hostname file, and unless it failed the hosts file. -/
theorem returns_applyFiles {r : Except Error Bool}
    (h : Prog.Returns (applyFiles pid paths config).run t r) :
    ∃ t₁ r₁, Prog.Returns (writeIfChanged pid paths.hostnamePath
        (renderHostnameFile config.robotId)).run t₁ r₁ ∧
      ((∃ err, r₁ = .error err ∧ t = t₁ ∧ r = .error err) ∨ ∃ b x t₂, r₁ = .ok b ∧
        t = t₁ ++ ⟨.readToString paths.hostsPath, x⟩ :: t₂ ∧
        ((∃ err, optional paths.hostsPath x = .error err ∧ t₂ = [] ∧ r = .error err) ∨
          ∃ existing r₂, optional paths.hostsPath x = .ok existing ∧
            Prog.Returns (writeIfChanged pid paths.hostsPath
              (renderHostsFile existing config.robotId)).run t₂ r₂ ∧ r = r₂.map fun _ => b)) := by
  rcases Prog.returns_try_bind_iff.mp h with ⟨err, h₁, rfl⟩ | ⟨b, t₁, u, rfl, h₁, hu⟩
  · exact ⟨t, _, h₁, Or.inl ⟨err, rfl, rfl, rfl⟩⟩
  refine ⟨t₁, _, h₁, Or.inr ?_⟩
  rcases Prog.returns_try_bind_iff.mp hu with ⟨err, hx, rfl⟩ | ⟨existing, v, t₂, rfl, hx, h₂⟩
  · obtain ⟨x, rfl, ho⟩ := returns_readOptional_iff.mp hx
    exact ⟨b, x, [], rfl, rfl, Or.inl ⟨err, ho.symm, rfl, rfl⟩⟩
  · obtain ⟨x, rfl, ho⟩ := returns_readOptional_iff.mp hx
    obtain ⟨r₂, hr₂, rfl⟩ := Prog.returns_try_map_iff.mp h₂
    exact ⟨b, x, t₂, rfl, rfl, Or.inr ⟨existing, r₂, ho.symm, hr₂, rfl⟩⟩

/-- A call that succeeds leaves both files as they are derived from what the hosts file held. -/
theorem holds_of_applyFiles {b : Bool} (hs : Separate pid paths)
    (he : Holds fs paths.hostsPath existing)
    (h : Prog.Returns (applyFiles pid paths config).run t (.ok b)) (hr : Env.Runs Fs.env fs t fs') :
    Holds fs' paths.hostnamePath (some (renderHostnameFile config.robotId)) ∧
      Holds fs' paths.hostsPath (some (renderHostsFile existing config.robotId)) := by
  obtain ⟨t₁, r₁, h₁, ⟨err, -, -, hb⟩ | ⟨c, x, t₂, rfl, rfl, h₂⟩⟩ := returns_applyFiles h
  · cases hb
  obtain ⟨u, hu, hr⟩ := Env.runs_append_iff.mp hr
  obtain ⟨v, ⟨rfl, hx⟩, hv⟩ := Env.runs_cons_iff.mp hr
  obtain ⟨hname, hframe⟩ := writeIfChanged_runs h₁ hu
  rcases h₂ with ⟨err, -, -, hb⟩ | ⟨existing', r₂, ho, h₂, hb⟩
  · cases hb
  cases r₂ with
  | error err => cases hb
  | ok d =>
    obtain ⟨hhosts, hframe'⟩ := writeIfChanged_runs h₂ hv
    -- the hosts file is still what it was, since a directory in its place could not be read
    have he' := holds_of_optional hx ho
    have hsame : existing' = existing := by
      rcases hframe _ hs.hosts_ne hs.hosts_ne_tmp with hn | ⟨-, hd⟩
      · exact holds_inj he' (hn.trans he)
      · rw [Holds, hd] at he'
        cases existing' <;> cases he'
    refine ⟨?_, hsame ▸ hhosts⟩
    rcases hframe' _ hs.hosts_ne.symm hs.hostname_ne_tmp with hn | ⟨hn, -⟩
    · exact hn.trans hname
    · rw [hname] at hn; cases hn

/-- Over files that are as the host name derives them a call only reads. -/
theorem reads_of_applyFiles {r : Except Error Bool} {hosts : Str}
    (hname : Holds fs paths.hostnamePath (some (renderHostnameFile config.robotId)))
    (hhosts : Holds fs paths.hostsPath (some hosts))
    (hrender : renderHostsFile (some hosts) config.robotId = hosts)
    (h : Prog.Returns (applyFiles pid paths config).run t r) (hr : Env.Runs Fs.env fs t fs') :
    (∀ e ∈ t, Reads e.1) ∧ fs' = fs ∧
      (r = .ok false ∨ ∃ path e, ⟨.readToString path, .error e⟩ ∈ t ∧ ∃ err, r = .error err) := by
  obtain ⟨t₁, r₁, h₁, hrest⟩ := returns_applyFiles h
  rcases hrest with ⟨err, rfl, rfl, rfl⟩ | ⟨b, x, t₂, rfl, rfl, h₂⟩
  · obtain ⟨rfl, x, rfl, hx⟩ := writeIfChanged_same hname h₁ hr
    refine ⟨by simp, rfl, Or.inr ?_⟩
    rcases hx with hx | ⟨e, err', rfl, -⟩
    · cases hx
    · exact ⟨_, e, List.mem_singleton_self _, err, rfl⟩
  obtain ⟨u, hu, hrest⟩ := Env.runs_append_iff.mp hr
  obtain ⟨rfl, y, rfl, hb⟩ := writeIfChanged_same hname h₁ hu
  obtain ⟨rfl⟩ : b = false := by
    rcases hb with hb | ⟨e, err, -, hb⟩
    · exact Except.ok.inj hb
    · cases hb
  obtain ⟨v, ⟨rfl, hx⟩, hv⟩ := Env.runs_cons_iff.mp hrest
  rcases h₂ with ⟨err, ho, rfl, rfl⟩ | ⟨existing, r₂, ho, h₂, rfl⟩
  · refine ⟨by simp, Env.runs_nil_iff.mp hv, Or.inr ?_⟩
    cases x with
    | ok text => cases ho
    | error e => exact ⟨_, e, List.mem_append_right _ (List.mem_singleton_self _), err, rfl⟩
  · obtain rfl := holds_inj (holds_of_optional hx ho) hhosts
    rw [hrender] at h₂
    obtain ⟨rfl, z, rfl, hz⟩ := writeIfChanged_same hhosts h₂ hv
    refine ⟨by simp, rfl, ?_⟩
    rcases hz with rfl | ⟨e, err, rfl, rfl⟩
    · exact Or.inl rfl
    · exact Or.inr ⟨paths.hostsPath, e, by simp, err, rfl⟩

/-- Deriving the host name again writes nothing exactly if no line that the hosts file keeps ends
in a carriage return. -/
theorem settled_iff (existing : Option Str) (config : RobotConfig) :
    Settled existing config ↔ NoStrayReturn existing := by
  constructor
  · intro h
    exact (renderHostsFile_renderHostsFile_iff existing config.robotId).mp h.1
  · intro h
    have hrender := (renderHostsFile_renderHostsFile_iff existing config.robotId).mpr h
    refine ⟨hrender, fun pid pid' paths fs fs' fs'' t t' b r hs he h₁ hr₁ h₂ hr₂ => ?_⟩
    obtain ⟨hname, hhosts⟩ := holds_of_applyFiles hs he h₁ hr₁
    exact reads_of_applyFiles hname hhosts hrender h₂ hr₂

/-- A carriage return at the end of the file is taken for a part of the last line at first, and
for a part of its line ending in the next call. -/
theorem not_settled :
    ¬ ∀ (existing : Option Str) (config : RobotConfig), Settled existing config := by
  intro h
  have hc := (h (some "::1\tlocalhost\r".toList) ⟨idB, ⟨0, by decide⟩⟩).1
  revert hc
  decide

end RobotCtl.Identity
