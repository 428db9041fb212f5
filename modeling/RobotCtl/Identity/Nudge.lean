import RobotCtl.Identity.Settings

/-! # The mDNS nudge

A call of `apply` that replaces the hostname file owes the mDNS unit a restart,
and pays it last. If a file operation fails in between, the call returns an
error with the restart still owed, and the next call finds the hostname file
unchanged and owes nothing.
-/

namespace RobotCtl.Identity

open Text Conf Prog

/-- The event puts a new file at the path. -/
def Replaces (path : FilePath) : Event Sys → Bool
  | ⟨.rename _ q, .ok _⟩ => q = path
  | _ => false

/-- The event asks systemd for a restart of the unit. -/
def Nudges (unit : Str) : Event Sys → Bool
  | ⟨.status program args, _⟩ =>
    program = "systemctl".toList ∧ args = ["--no-block".toList, "try-restart".toList, unit]
  | _ => false

/-- Whether a restart is owed after an event. -/
def owes (paths : Paths) (owed : Bool) (e : Event Sys) : Bool :=
  if Replaces paths.hostnamePath e then true
  else if Nudges paths.mdnsUnit e then false
  else owed

/-- Every replacement of the hostname file is followed by a nudge. -/
def NudgedSince (paths : Paths) (t : List (Event Sys)) : Prop :=
  ∀ before e after, t = before ++ e :: after → Replaces paths.hostnamePath e = true →
    ∃ e' ∈ after, Nudges paths.mdnsUnit e' = true

/-- No file operation fails while a restart is owed. -/
def NoFailureWhileOwed (paths : Paths) (t : List (Event Sys)) : Prop :=
  ∀ before e after, t = before ++ e :: after → before.foldl (owes paths) false = true →
    Fails e = false

/-- The environment that keeps the account, in which nothing fails while a restart is owed. -/
def nudgeEnv (paths : Paths) : Env Sys Bool := fun owed e owed' =>
  (owed = true → Fails e = false) ∧ owes paths owed e = owed'

variable {paths : Paths} {pid : ℕ} {owed : Bool} {t t' : List (Event Sys)}

/-- A restart that is owed is paid by a nudge only. -/
theorem exists_nudge (h : t.foldl (owes paths) true = false) :
    ∃ e ∈ t, Nudges paths.mdnsUnit e = true := by
  by_contra hn
  simp only [not_exists, not_and, Bool.not_eq_true] at hn
  have ht : t.foldl (owes paths) true = true := by
    clear h
    induction t with
    | nil => rfl
    | cons e t ih =>
      have he : owes paths true e = true := by simp [owes, hn e List.mem_cons_self]
      rw [List.foldl_cons, he]
      exact ih fun e' h => hn e' (List.mem_cons_of_mem _ h)
  rw [ht] at h
  cases h

theorem nudgedSince_of_foldl (h : t.foldl (owes paths) owed = false) : NudgedSince paths t := by
  rintro before e after rfl he
  rw [List.foldl_append, List.foldl_cons, owes, if_pos he] at h
  exact exists_nudge h

theorem runs_nudgeEnv (h : NoFailureWhileOwed paths (t ++ t')) :
    Env.Runs (nudgeEnv paths) (t.foldl (owes paths) false) t'
      ((t ++ t').foldl (owes paths) false) := by
  induction t' generalizing t with
  | nil => rw [List.append_nil]; exact .nil _
  | cons e t' ih =>
    refine .cons ⟨fun ho => h t e t' rfl ho, rfl⟩ ?_
    have hs := ih (t := t ++ [e]) (by simpa using h)
    simpa using hs

/-- Writing a temporary changes no account, and succeeds if a restart is owed. -/
theorem wp_writeFile {path : FilePath} {contents : Str} {Q : Io Unit → Bool → Prop}
    (hok : Q (.ok ()) owed) (herr : owed = false → ∀ e, Q (.error e) owed) :
    wp (nudgeEnv paths) (fun _ => True) (Sys.writeFile path contents) Q owed := by
  have hq : ∀ x, (owed = true → ∃ u, x = .ok u) → Q x owed := by
    rintro (e | _) hx
    · cases owed with
      | false => exact herr rfl e
      | true => obtain ⟨u, hu⟩ := hx rfl; cases hu
    · exact hok
  refine ⟨trivial, ?_⟩
  rintro (e | _) _ ⟨hf, rfl⟩
  · exact ⟨trivial, hq _ fun ho => by cases hf ho⟩
  -- the account stays the same through all of the writes
  refine ⟨fun _ o => owed = o, rfl, ?_⟩
  rintro rest _ rfl
  unfold Sys.writeRest
  split
  · exact ⟨trivial, trivial, hok⟩
  · refine ⟨trivial, ?_⟩
    rintro (e | n) _ ⟨hf, rfl⟩
    · exact ⟨trivial, trivial, hq _ fun ho => by cases hf ho⟩
    · cases n with
      | zero => exact ⟨trivial, trivial, hq _ fun ho => by cases hf ho⟩
      | succ n => exact ⟨trivial, rfl⟩

theorem wp_readOptional {path : FilePath} {Q : Except Error (Option Str) → Bool → Prop}
    (hok : ∀ x, Q (.ok x) owed) (herr : owed = false → ∀ e, Q (.error e) owed) :
    wp (nudgeEnv paths) (fun _ => True) (readOptional path).run Q owed := by
  refine ⟨trivial, ?_⟩
  rintro (e | text) _ ⟨hf, rfl⟩
  · refine ⟨trivial, ?_⟩
    by_cases hk : e.kind = .notFound
    · rw [Conf.optional, if_pos hk]; exact hok none
    · rw [Conf.optional, if_neg hk]
      refine herr ?_ _
      by_contra ho
      simpa [Fails, hk] using hf (by simpa using ho)
  · exact ⟨trivial, hok _⟩

/-- Replacing the hostname file is what makes a restart owed. -/
theorem wp_writeAtomically {path : FilePath} {contents : Str} {Q : Except Error Unit → Bool → Prop}
    (hok : Q (.ok ()) (owed || decide (path = paths.hostnamePath)))
    (herr : owed = false ∨ path = [] → ∀ e, Q (.error e) owed) :
    wp (nudgeEnv paths) (fun _ => True) (writeAtomically pid path contents).run Q owed := by
  unfold writeAtomically
  split
  · next hp =>
    refine ⟨trivial, herr (Or.inr ?_) _⟩
    by_contra hc
    simp [FilePath.parent, hc] at hp
  rw [wp_try_bind, wp_orFail]
  refine ⟨trivial, ?_⟩
  rintro (e | _) o ⟨hf, ho⟩ <;> obtain rfl : owed = o := ho
  · refine ⟨trivial, trivial, herr (Or.inl ?_) _⟩
    by_contra ho
    cases hf (by simpa using ho)
  refine ⟨trivial, wp_try_bind.mpr (wp_orFail.mpr (wp_writeFile ?_ ?_))⟩
  · refine wp_orFail.mpr ⟨trivial, ?_⟩
    rintro (e | _) _ ⟨hf, rfl⟩
    · have ho : owed = false := by
        by_contra ho
        cases hf (by simpa using ho)
      refine ⟨trivial, ?_⟩
      rintro _ _ ⟨-, rfl⟩
      exact ⟨trivial, herr (Or.inl ho) _⟩
    · refine ⟨trivial, ?_⟩
      have he : owes paths owed ⟨.rename (tmpPath pid path) path, .ok ()⟩ =
          (owed || decide (path = paths.hostnamePath)) := by
        by_cases hp : path = paths.hostnamePath <;> simp [owes, Replaces, Nudges, hp]
      exact he ▸ hok
  · exact fun ho e => ⟨trivial, herr (Or.inl ho) _⟩

theorem wp_writeIfChanged {path : FilePath} {contents : Str} {Q : Except Error Bool → Bool → Prop}
    (hsame : Q (.ok false) owed) (hok : Q (.ok true) (owed || decide (path = paths.hostnamePath)))
    (herr : owed = false ∨ path = [] → ∀ e, Q (.error e) owed) :
    wp (nudgeEnv paths) (fun _ => True) (writeIfChanged pid path contents).run Q owed := by
  refine wp_try_bind.mpr (wp_readOptional (fun x => ?_) fun ho e => ⟨trivial, herr (Or.inl ho) e⟩)
  by_cases hx : x = some contents
  · simp only [if_pos hx]
    exact ⟨trivial, hsame⟩
  · simp only [if_neg hx]
    exact wp_try_bind.mpr (wp_writeAtomically ⟨trivial, hok⟩ fun ho e => ⟨trivial, herr ho e⟩)

/-- Setting the running host name changes no account. -/
theorem wp_tryPrograms {programs : List (Str × List Str)} {Q : Unit → Bool → Prop}
    (hp : ∀ p ∈ programs, p.1 ≠ systemctl) (hQ : Q () owed) :
    wp (nudgeEnv paths) (fun _ => True) (tryPrograms programs) Q owed := by
  induction programs with
  | nil => exact ⟨trivial, hQ⟩
  | cons p programs ih =>
    obtain ⟨program, args⟩ := p
    have hrest := ih fun q hq => hp q (List.mem_cons_of_mem _ hq)
    refine ⟨trivial, ?_⟩
    intro r o ⟨hf, ho⟩
    have hn : owes paths owed ⟨.status program args, r⟩ = owed := by
      have hne : ¬ Nudges paths.mdnsUnit ⟨.status program args, r⟩ = true := fun hc =>
        hp _ List.mem_cons_self (of_decide_eq_true hc).1
      exact if_neg hne
    obtain rfl : owed = o := hn.symm.trans ho
    rcases r with e | status
    · exact hrest
    · show wp _ _ (if status.success = true then .ret () else tryPrograms programs) Q owed
      split
      · exact ⟨trivial, hQ⟩
      · exact hrest

/-- Deriving the hosts file leaves a restart owed, as it fails only if none is. -/
theorem wp_hosts {robotId : RobotId} (hroot : paths.hostsPath ≠ []) :
    wp (nudgeEnv paths) (fun _ => True)
      (ExceptT.run (m := Prog Sys) do
        let existing ← readOptional paths.hostsPath
        let _ ← writeIfChanged pid paths.hostsPath (renderHostsFile existing robotId)
        pure true)
      (fun r owed => r = .ok true ∧ owed = true ∨ r.isOk = false ∧ owed = false) true := by
  refine wp_try_bind.mpr (wp_readOptional (fun x => ?_) fun ho e => ⟨trivial, Or.inr ⟨rfl, ho⟩⟩)
  refine wp_try_bind.mpr
    (wp_writeIfChanged ⟨trivial, Or.inl ⟨rfl, rfl⟩⟩ ⟨trivial, Or.inl ⟨rfl, rfl⟩⟩ fun ho e => ?_)
  exact ⟨trivial, Or.inr ⟨rfl, ho.resolve_right hroot⟩⟩

theorem hostnameAttempts_ne (robotId : RobotId) :
    ∀ p ∈ hostnameAttempts robotId, p.1 ≠ systemctl := by
  rintro p (_ | ⟨_, _ | ⟨_, ⟨⟩⟩⟩)
  · show "hostnamectl".toList ≠ systemctl
    decide
  · show "hostname".toList ≠ systemctl
    decide

/-- Setting the running host name and nudging pays what is owed. -/
theorem wp_nudge {robotId : RobotId} (hunit : paths.mdnsUnit ≠ []) :
    wp (nudgeEnv paths) (fun _ => True)
      (liftM (applyRuntimeHostname robotId) >>= fun _ =>
        liftM (tryRestartAsync paths.mdnsUnit) : Fallible Unit).run
      (fun _ owed => owed = false) true := by
  apply wp_try_bind.mpr
  apply wp_lift.mpr
  apply wp_tryPrograms (hostnameAttempts_ne _)
  apply wp_lift.mpr
  rw [tryRestartAsync, if_neg hunit]
  refine ⟨trivial, ?_⟩
  rintro r _ ⟨-, rfl⟩
  exact ⟨trivial, if_pos (decide_eq_true ⟨rfl, rfl⟩)⟩

/-- The hostname file is read first, and is found in place. -/
def FindsInPlace (paths : Paths) (robotId : RobotId) (t : List (Event Sys)) : Prop :=
  t.head? = some ⟨.readToString paths.hostnamePath, .ok (robotId.str ++ ['\n'])⟩

theorem owed_of_writeIfChanged {robotId : RobotId} {r : Except Error Bool}
    (h : Returns (writeIfChanged pid paths.hostnamePath (renderHostnameFile robotId)).run t r)
    (hfound : ¬ FindsInPlace paths robotId t) (hr : Env.Runs (nudgeEnv paths) false t owed) :
    r = .ok true ∧ owed = true ∨ r.isOk = false ∧ owed = false := by
  obtain ⟨x, w, rfl, ⟨err, hx, rfl, rfl⟩ | ⟨hx, rfl, rfl⟩ | ⟨existing, r, hx, hne, hw, rfl⟩⟩ :=
    returns_writeIfChanged h
  · obtain ⟨u, ⟨-, rfl⟩, hu⟩ := Env.runs_cons_iff.mp hr
    exact Or.inr ⟨rfl, Env.runs_nil_iff.mp hu⟩
  · cases x with
    | error e =>
      by_cases hk : e.kind = .notFound <;> simp [Conf.optional, hk] at hx
    | ok text =>
      obtain rfl : text = renderHostnameFile robotId := Option.some.inj (Except.ok.inj hx)
      exact absurd rfl hfound
  · obtain ⟨u, ⟨-, rfl⟩, hu⟩ := Env.runs_cons_iff.mp hr
    refine wp_returns hw (wp_writeAtomically (Q := fun r owed =>
      r.map (fun _ => true) = .ok true ∧ owed = true ∨ (r.map fun _ => true).isOk = false ∧
        owed = false) (Or.inl ⟨rfl, ?_⟩) fun _ e => Or.inr ⟨rfl, rfl⟩) hu
    exact Bool.or_eq_true_iff.mpr (Or.inr (decide_eq_true rfl))

theorem FindsInPlace.append {robotId : RobotId} (h : FindsInPlace paths robotId t)
    (t' : List (Event Sys)) : FindsInPlace paths robotId (t ++ t') := by
  rw [FindsInPlace] at h ⊢
  rw [List.head?_append, h]
  rfl

theorem owed_of_applyFiles {config : RobotConfig} {r : Except Error Bool}
    (hroot : paths.hostsPath ≠ []) (h : Returns (applyFiles pid paths config).run t r)
    (hfound : ¬ FindsInPlace paths config.robotId t)
    (hr : Env.Runs (nudgeEnv paths) false t owed) :
    r = .ok true ∧ owed = true ∨ r.isOk = false ∧ owed = false := by
  rcases returns_try_bind_iff.mp h with ⟨err, h₁, rfl⟩ | ⟨renamed, t₁, t₂, rfl, h₁, h₂⟩
  · rcases owed_of_writeIfChanged h₁ hfound hr with ⟨hc, -⟩ | ⟨-, ho⟩
    · cases hc
    · exact Or.inr ⟨rfl, ho⟩
  · obtain ⟨u, hu, hr⟩ := Env.runs_append_iff.mp hr
    rcases owed_of_writeIfChanged h₁ (fun hp => hfound (hp.append t₂)) hu with ⟨hc, rfl⟩ | ⟨hc, -⟩
    · obtain rfl := Except.ok.inj hc
      exact wp_returns h₂ (wp_hosts hroot) hr
    · cases hc

/-- A call that does not find the hostname file in place ends with nothing owed. -/
theorem owed_of_apply {config : RobotConfig} {r : Except Error Unit} (hunit : paths.mdnsUnit ≠ [])
    (hroot : paths.hostsPath ≠ []) (h : Returns (apply pid paths config).run t r)
    (hfound : ¬ FindsInPlace paths config.robotId t)
    (hr : Env.Runs (nudgeEnv paths) false t owed) : owed = false := by
  rcases returns_try_bind_iff.mp h with ⟨err, h₁, rfl⟩ | ⟨renamed, t₁, t₂, rfl, h₁, h₂⟩
  · rcases owed_of_applyFiles hroot h₁ hfound hr with ⟨hc, -⟩ | ⟨-, ho⟩
    · cases hc
    · exact ho
  · obtain ⟨u, hu, hr⟩ := Env.runs_append_iff.mp hr
    rcases owed_of_applyFiles hroot h₁ (fun hp => hfound (hp.append t₂)) hu with ⟨hc, rfl⟩ | ⟨hc, -⟩
    · obtain rfl := Except.ok.inj hc
      exact wp_returns h₂ (wp_nudge hunit) hr
    · cases hc

/-- With the root for a hosts file no call succeeds, as the root is not read as a text. -/
theorem not_ok_of_root {config : RobotConfig} (hroot : paths.hostsPath = [])
    (hread : ∀ text, ⟨.readToString [], .ok text⟩ ∉ t) :
    ¬ Returns (apply pid paths config).run t (.ok ()) := by
  intro h
  obtain ⟨renamed, t₁, t₂, rfl, h₁, -⟩ := returns_try_bind_ok_iff.mp h
  obtain ⟨_, t₃, t₄, rfl, -, h₃⟩ := returns_try_bind_ok_iff.mp h₁
  obtain ⟨existing, t₅, t₆, rfl, -, h₄⟩ := returns_try_bind_ok_iff.mp h₃
  obtain ⟨written, t₇, t₈, rfl, h₅, -⟩ := returns_try_bind_ok_iff.mp h₄
  rw [hroot] at h₅
  obtain ⟨x, w, rfl, ⟨err, -, -, hc⟩ | ⟨hx, -⟩ | ⟨existing', r, -, -, hw, hr⟩⟩ :=
    returns_writeIfChanged h₅
  · cases hc
  · cases x with
    | error e => by_cases hk : e.kind = .notFound <;> simp [Conf.optional, hk] at hx
    | ok text => exact hread text (by simp)
  · cases r with
    | error err => cases hr
    | ok u =>
      obtain ⟨parent, w', hparent, -⟩ := writeRun_ok_iff.mp (writeRun_of_returns hw)
      cases hparent

/-- One call of `apply`, with its trace and result. -/
structure Call where
  pid : ℕ
  config : RobotConfig
  trace : List (Event Sys)
  result : Except Error Unit

def Call.IsRun (paths : Paths) (c : Call) : Prop :=
  Returns (apply c.pid paths c.config).run c.trace c.result

/-- The call leaves a hostname file that it finds in place. It could replace one that is the hosts
file too. -/
def Call.LeavesFound (paths : Paths) (c : Call) : Prop :=
  FindsInPlace paths c.config.robotId c.trace → ∀ e ∈ c.trace, Replaces paths.hostnamePath e = false

/-- Nothing is owed if nothing is replaced. -/
theorem foldl_owes_of_not_replaces (h : ∀ e ∈ t, Replaces paths.hostnamePath e = false) :
    t.foldl (owes paths) false = false := by
  induction t with
  | nil => rfl
  | cons e t ih =>
    obtain ⟨he, ht⟩ := List.forall_mem_cons.mp h
    have ho : owes paths false e = false := by simp [owes, he]
    rw [List.foldl_cons, ho]
    exact ih ht

theorem foldl_owes_calls {calls : List Call} (hunit : paths.mdnsUnit ≠ [])
    (hroot : paths.hostsPath ≠ []) (hcalls : ∀ c ∈ calls, c.IsRun paths ∧ c.LeavesFound paths)
    (hf : NoFailureWhileOwed paths (calls.flatMap Call.trace)) :
    (calls.flatMap Call.trace).foldl (owes paths) false = false := by
  induction calls using List.reverseRecOn with
  | nil => rfl
  | append_singleton calls c ih =>
    rw [List.flatMap_append, List.flatMap_singleton] at hf ⊢
    have hpre : NoFailureWhileOwed paths (calls.flatMap Call.trace) := by
      rintro before e after he
      apply hf before e (after ++ c.trace)
      rw [he, List.append_assoc, List.cons_append]
    have hz := ih (fun c hc => hcalls c (List.mem_append_left _ hc)) hpre
    obtain ⟨hrun, hleaves⟩ := hcalls c (by simp)
    by_cases hfound : FindsInPlace paths c.config.robotId c.trace
    · rw [List.foldl_append, hz]
      exact foldl_owes_of_not_replaces (hleaves hfound)
    · have hr := runs_nudgeEnv hf
      rw [hz] at hr
      exact owed_of_apply hunit hroot hrun hfound hr

/-- In every sequence of calls in which no file operation fails between a replacement of the
hostname file and the nudge, and no call replaces a hostname file that it found in place, no
replacement is left without a nudge when a call returns. -/
theorem nudgedSince_of_apply {calls before after : List Call} {c : Call}
    (hunit : paths.mdnsUnit ≠ []) (hcalls : ∀ c ∈ calls, c.IsRun paths)
    (hread : ∀ c ∈ calls, ∀ text, ⟨.readToString [], .ok text⟩ ∉ c.trace)
    (hf : NoFailureWhileOwed paths (calls.flatMap Call.trace))
    (hl : ∀ c ∈ calls, c.LeavesFound paths)
    (h : calls = before ++ c :: after) (hok : c.result = .ok ()) :
    NudgedSince paths ((before ++ [c]).flatMap Call.trace) := by
  subst h
  have hc : c ∈ before ++ c :: after := by simp
  by_cases hroot : paths.hostsPath = []
  · have hrun := hcalls c hc
    rw [Call.IsRun, hok] at hrun
    exact absurd hrun (not_ok_of_root hroot (hread c hc))
  rw [List.append_cons] at hcalls hf hl
  refine nudgedSince_of_foldl (foldl_owes_calls hunit hroot (fun c' hc => ?_) ?_)
  · have hmem := List.mem_append_left after hc
    exact ⟨hcalls c' hmem, hl c' hmem⟩
  · intro b e a he
    apply hf b e (a ++ after.flatMap Call.trace)
    rw [List.flatMap_append, he, List.append_assoc, List.cons_append]

section Example

/-- A hosts file that already names robot `b`. -/
def hostsText : Str := "127.0.1.1\tb\n".toList

theorem exists_named (text : Str) : ∃ fs : Fs, fs.node [] = some .dir ∧
    Holds fs rootPaths.hostnamePath (some text) ∧ Holds fs rootPaths.hostsPath (some hostsText) ∧
    fs.node (tmpPath 1 rootPaths.hostnamePath) ≠ some .dir := by
  have hne : rootPaths.hostnamePath ≠ rootPaths.hostsPath := by decide
  have htmp : tmpPath 1 rootPaths.hostnamePath ≠ rootPaths.hostnamePath := by decide
  have htmp' : tmpPath 1 rootPaths.hostnamePath ≠ rootPaths.hostsPath := by decide
  obtain ⟨fs, h⟩ : ∃ fs : Fs, fs.node =
      Function.update Fs.empty.node rootPaths.hostnamePath (some (.file (.text text))) :=
    Fs.exists_put [] "hostname".toList (.file (.text text)) Fs.empty.root_dir (by simp)
  have hdir : fs.node [] = some .dir := by
    rw [h, Function.update_of_ne (by decide)]
    exact Fs.empty.root_dir
  have hhosts : fs.node rootPaths.hostsPath = none := by
    rw [h, Function.update_of_ne hne.symm]
    exact Fs.empty_join [] "hosts".toList
  obtain ⟨fs', h'⟩ : ∃ fs' : Fs, fs'.node =
      Function.update fs.node rootPaths.hostsPath (some (.file (.text hostsText))) :=
    Fs.exists_put [] "hosts".toList (.file (.text hostsText)) hdir (by
      rw [show FilePath.join [] "hosts".toList = rootPaths.hostsPath from rfl, hhosts]
      simp)
  refine ⟨fs', ?_, ?_, ?_, ?_⟩
  · rw [h', Function.update_of_ne (by decide), hdir]
  · rw [Holds, h', Function.update_of_ne hne, h, Function.update_self]
    rfl
  · rw [Holds, h', Function.update_self]
    rfl
  · have hroot : tmpPath 1 rootPaths.hostnamePath ≠ [] := by decide
    rw [h', Function.update_of_ne htmp', h, Function.update_of_ne htmp]
    simp [Fs.empty, hroot]

def configB : RobotConfig := ⟨idB, ⟨0, Nat.zero_le _⟩⟩

/-- The events of a call that replaces the hostname file and then cannot read the hosts file. -/
def firstTrace (t : List (Event Sys)) : List (Event Sys) :=
  ⟨.readToString rootPaths.hostnamePath, .ok "a\n".toList⟩ :: t ++
    [⟨.readToString rootPaths.hostsPath, .error ⟨.other, []⟩⟩]

theorem returns_firstTrace (h : Returns (writeAtomically 1 rootPaths.hostnamePath
    (renderHostnameFile idB)).run t (.ok ())) : Returns (apply 1 rootPaths configB).run
      (firstTrace t) (.error ["reading /hosts".toList, []]) := by
  have hw := returns_writeIfChanged_of_ne (x := .ok "a\n".toList) rfl (by decide) h
  refine returns_try_bind_iff.mpr (Or.inl ⟨_, ?_, rfl⟩)
  refine returns_try_bind_iff.mpr (Or.inr ⟨true, _, [_], rfl, hw, ?_⟩)
  exact returns_try_bind_iff.mpr (Or.inl ⟨_, returns_readOptional_iff.mpr ⟨_, rfl, rfl⟩, rfl⟩)

/-- The events after the hostname file, when the hosts file is in place. -/
def restTrace (renamed : Bool) : List (Event Sys) :=
  [⟨.readToString rootPaths.hostsPath, .ok hostsText⟩,
    ⟨.readToString rootPaths.hostsPath, .ok hostsText⟩,
    ⟨.status "hostnamectl".toList ["--transient".toList, "set-hostname".toList, idB.str],
      .ok ⟨true, []⟩⟩] ++
    if renamed then [⟨.status systemctl (tryRestartArgs rootPaths.mdnsUnit), .ok ⟨true, []⟩⟩]
    else []

theorem returns_restTrace {renamed : Bool} (h : Returns (writeIfChanged 1 rootPaths.hostnamePath
    (renderHostnameFile idB)).run t (.ok renamed)) :
    Returns (apply 1 rootPaths configB).run (t ++ restTrace renamed) (.ok ()) := by
  have hhosts : renderHostsFile (some hostsText) idB = hostsText := by decide
  have hfiles : Returns (applyFiles 1 rootPaths configB).run
      (t ++ (restTrace renamed).take 2) (.ok renamed) := by
    refine returns_try_bind_iff.mpr (Or.inr ⟨renamed, t, [_, _], rfl, h, ?_⟩)
    refine returns_try_bind_iff.mpr (Or.inr ⟨some hostsText, [_], [_], rfl,
      returns_readOptional_iff.mpr ⟨_, rfl, rfl⟩, ?_⟩)
    refine returns_try_bind_iff.mpr (Or.inr ⟨false, [_], [], rfl, ?_, .ret _⟩)
    show Returns
      (writeIfChanged 1 rootPaths.hostsPath (renderHostsFile (some hostsText) idB)).run _ _
    rw [hhosts]
    exact returns_writeIfChanged_same rfl
  refine returns_try_bind_iff.mpr (Or.inr ⟨renamed, _, (restTrace renamed).drop 2, ?_, hfiles, ?_⟩)
  · rw [List.append_assoc, List.take_append_drop]
  · refine returns_call_iff.mpr ⟨.ok ⟨true, []⟩, _, rfl, ?_⟩
    cases renamed with
    | false => exact .ret _
    | true => exact returns_call_iff.mpr ⟨.ok ⟨true, []⟩, [], rfl, .ret _⟩

/-- A call that replaces the hostname file and finds the hosts file in place. -/
def renamingCall : Call where
  pid := 1
  config := configB
  trace := ⟨.readToString rootPaths.hostnamePath, .ok "a\n".toList⟩ ::
    [⟨.createDirAll [], .ok ()⟩, ⟨.create (tmpPath 1 rootPaths.hostnamePath), .ok ()⟩,
      ⟨.write (tmpPath 1 rootPaths.hostnamePath) (renderHostnameFile idB), .ok 2⟩,
      ⟨.rename (tmpPath 1 rootPaths.hostnamePath) rootPaths.hostnamePath, .ok ()⟩] ++ restTrace true
  result := .ok ()

theorem renamingCall_isRun : renamingCall.IsRun rootPaths :=
  returns_restTrace (returns_writeIfChanged_of_ne rfl (by decide)
    (returns_writeAtomically_once 1 rfl (by decide)))

theorem returns_secondTrace : Returns (apply 1 rootPaths configB).run
    (⟨.readToString rootPaths.hostnamePath, .ok (renderHostnameFile idB)⟩ :: restTrace false)
    (.ok ()) := returns_restTrace (returns_writeIfChanged_same rfl)

/-- A call that finds no directory for the hostname file. -/
def cutCall : Call where
  pid := 1
  config := configB
  trace := [⟨.readToString rootPaths.hostnamePath, .ok "a\n".toList⟩,
    ⟨.createDirAll [], .error ⟨.other, []⟩⟩]
  result := .error ["creating /".toList, []]

/-- A call that finds the hostname file in place and cannot read the hosts file. -/
def blindCall : Call where
  pid := 1
  config := configB
  trace := [⟨.readToString rootPaths.hostnamePath, .ok (renderHostnameFile idB)⟩,
    ⟨.readToString rootPaths.hostsPath, .error ⟨.other, []⟩⟩]
  result := .error ["reading /hosts".toList, []]

/-- A call that finds both files in place. -/
def steadyCall : Call where
  pid := 1
  config := configB
  trace := ⟨.readToString rootPaths.hostnamePath, .ok (renderHostnameFile idB)⟩ :: restTrace false
  result := .ok ()

theorem foldl_owes_of_runs {owed' : Bool} (h : Env.Runs (nudgeEnv paths) owed t owed') :
    t.foldl (owes paths) owed = owed' := by
  induction h with
  | nil => rfl
  | cons he _ ih => rw [List.foldl_cons, he.2, ih]

theorem noFailureWhileOwed_of_runs (h : Env.Runs (nudgeEnv paths) false t owed) :
    NoFailureWhileOwed paths t := by
  rintro before e after rfl ho
  obtain ⟨u, hb, ha⟩ := Env.runs_append_iff.mp h
  obtain ⟨v, ⟨hf, -⟩, -⟩ := Env.runs_cons_iff.mp ha
  rw [foldl_owes_of_runs hb] at ho
  exact hf ho

theorem runs_of_not_fails (h : ∀ e ∈ t, Fails e = false) :
    Env.Runs (nudgeEnv paths) owed t (t.foldl (owes paths) owed) := by
  induction t generalizing owed with
  | nil => exact .nil _
  | cons e t ih =>
    obtain ⟨he, ht⟩ := List.forall_mem_cons.mp h
    exact .cons ⟨fun _ => he, rfl⟩ (ih ht)

/-- Calls for one name, of which two fail. -/
def retries : List Call := [cutCall, renamingCall, blindCall, steadyCall]

theorem cutCall_isRun : cutCall.IsRun rootPaths := .call _ (.call _ (.ret _))

theorem blindCall_isRun : blindCall.IsRun rootPaths := .call _ (.call _ (.ret _))

theorem isRun_of_mem_retries : ∀ c ∈ retries, c.IsRun rootPaths := by
  simpa [retries] using
    ⟨cutCall_isRun, renamingCall_isRun, blindCall_isRun, returns_secondTrace⟩

theorem noFailureWhileOwed_retries :
    NoFailureWhileOwed rootPaths (retries.flatMap Call.trace) := by
  have hcut : Env.Runs (nudgeEnv rootPaths) false cutCall.trace false :=
    .cons ⟨by decide, rfl⟩ (.cons ⟨by decide, rfl⟩ (.nil _))
  have hrenaming : Env.Runs (nudgeEnv rootPaths) false renamingCall.trace false :=
    runs_of_not_fails (by decide)
  have hblind : Env.Runs (nudgeEnv rootPaths) false blindCall.trace false :=
    .cons ⟨by decide, rfl⟩ (.cons ⟨by decide, rfl⟩ (.nil _))
  have hsteady : Env.Runs (nudgeEnv rootPaths) false steadyCall.trace false :=
    runs_of_not_fails (by decide)
  have hruns : Env.Runs (nudgeEnv rootPaths) false (retries.flatMap Call.trace) false :=
    Env.runs_append_iff.mpr ⟨_, hcut, Env.runs_append_iff.mpr ⟨_, hrenaming,
      Env.runs_append_iff.mpr ⟨_, hblind, Env.runs_append_iff.mpr ⟨_, hsteady, .nil _⟩⟩⟩⟩
  exact noFailureWhileOwed_of_runs hruns

/-- The call that meets a failure before the hostname file and the one that meets it with nothing
owed leave the nudge to the call between them. -/
theorem nudgedSince_retries : (∃ e ∈ renamingCall.trace, Replaces rootPaths.hostnamePath e = true) ∧
    NudgedSince rootPaths (([cutCall, renamingCall, blindCall] ++ [steadyCall]).flatMap Call.trace)
    := by
  have hread : ∀ e ∈ retries.flatMap Call.trace, e.1 ≠ .readToString [] := by decide
  have hrenames : ¬ FindsInPlace rootPaths idB renamingCall.trace := by
    intro h
    injection h with h
    injection h with _ h
    have hne : "a\n".toList ≠ idB.str ++ ['\n'] := by decide
    exact absurd (Except.ok.inj h) hne
  have hleaves : ∀ c ∈ retries, c.LeavesFound rootPaths := by
    simp only [retries, List.forall_mem_cons]
    exact ⟨fun _ => by decide, fun h => absurd h hrenames, fun _ => by decide,
      fun _ => by decide, by simp⟩
  exact ⟨by decide, nudgedSince_of_apply (by decide) isRun_of_mem_retries
    (fun c hc text he => hread _ (List.mem_flatMap_of_mem hc he) rfl)
    noFailureWhileOwed_retries hleaves rfl rfl⟩

theorem runs_secondTrace {fs : Fs}
    (hn : Holds fs rootPaths.hostnamePath (some (renderHostnameFile idB)))
    (hh : Holds fs rootPaths.hostsPath (some hostsText)) : Env.Runs Fs.env fs
      (⟨.readToString rootPaths.hostnamePath, .ok (renderHostnameFile idB)⟩ :: restTrace false)
      fs :=
  .cons ⟨rfl, Fs.readsAs_ok_iff.mpr hn⟩ (.cons ⟨rfl, Fs.readsAs_ok_iff.mpr hh⟩
    (.cons ⟨rfl, Fs.readsAs_ok_iff.mpr hh⟩ (.cons rfl (.nil _))))

/-- A hosts file that cannot be read after the hostname file was replaced loses the nudge: the call
is repeated, finds the hostname file in place, and succeeds without asking for a restart. -/
theorem not_nudgedSince : ¬ ∀ (paths : Paths) (calls before after : List Call) (c : Call)
    (fs fs' : Fs), paths.mdnsUnit ≠ [] → (∀ c ∈ calls, c.IsRun paths) →
    Env.Runs Fs.env fs (calls.flatMap Call.trace) fs' → calls = before ++ c :: after →
    c.result = .ok () → NudgedSince paths ((before ++ [c]).flatMap Call.trace) := by
  intro h
  obtain ⟨fs, hdir, hn, hh, htmp⟩ := exists_named "a\n".toList
  have hpar : rootPaths.hostnamePath.parent = some [] := rfl
  have hne : renderHostnameFile idB ≠ [] := by decide
  obtain ⟨t, fs', hw, hr, hn', hq⟩ :=
    exists_writeAtomically 1 hpar hne hdir (by rw [hn]; simp) htmp
  have hh' : Holds fs' rootPaths.hostsPath (some hostsText) := by
    rw [Holds, hq _ (by decide) (by decide)]
    exact hh
  have h₁ := returns_firstTrace hw
  have hruns : Env.Runs Fs.env fs (firstTrace t) fs' :=
    .cons ⟨rfl, Fs.readsAs_ok_iff.mpr hn⟩ (Env.runs_append_iff.mpr ⟨fs', hr, .cons ⟨rfl,
      Fs.readsAs_error_iff.mpr (by simp)⟩ (.nil _)⟩)
  obtain ⟨parent, w, -, -, rfl⟩ := writeRun_ok_iff.mp (writeRun_of_returns hw)
  have hc := h rootPaths [⟨1, configB, _, _⟩, ⟨1, configB, _, _⟩] [⟨1, configB, _, _⟩] []
    ⟨1, configB, _, _⟩ fs fs' (by decide) (by simpa [Call.IsRun] using ⟨h₁, returns_secondTrace⟩)
    (by simpa using Env.runs_append_iff.mpr ⟨fs', hruns, runs_secondTrace hn' hh'⟩) rfl rfl
  obtain ⟨e', he', hnudge⟩ := hc (⟨.readToString rootPaths.hostnamePath, .ok "a\n".toList⟩ ::
    ⟨.createDirAll parent, .ok ()⟩ :: w)
    ⟨.rename (tmpPath 1 rootPaths.hostnamePath) rootPaths.hostnamePath, .ok ()⟩
    (⟨.readToString rootPaths.hostsPath, .error ⟨.other, []⟩⟩ ::
      ⟨.readToString rootPaths.hostnamePath, .ok (renderHostnameFile idB)⟩ :: restTrace false)
    (by simp [firstTrace]) (by decide)
  have hnone : ∀ e ∈ ⟨.readToString rootPaths.hostsPath, .error ⟨.other, []⟩⟩ ::
      ⟨.readToString rootPaths.hostnamePath, .ok (renderHostnameFile idB)⟩ :: restTrace false,
      Nudges rootPaths.mdnsUnit e = false := by decide
  rw [hnone e' he'] at hnudge
  cases hnudge

end Example

end RobotCtl.Identity
