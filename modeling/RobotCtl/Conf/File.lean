import RobotCtl.Library.FileSystem
import RobotCtl.Conf.Update

/-! # Configuration files

A file is written to a temporary next to it, named after the process, and
renamed over the old file once the temporary is complete.
-/

namespace RobotCtl

open Text

/-- The message of an error and of each of its causes, outermost first. -/
abbrev Error := List Str

abbrev Fallible (α : Type) := ExceptT Error (Prog Sys) α

/-- Fail with a message made from an input or output error. -/
def orFail {α : Type} (p : Prog Sys (Io α)) (f : IoError → Error) : Fallible α :=
  ExceptT.mk (p.bind fun x => .ret (x.mapError f))

theorem returns_orFail_iff {α : Type} {p : Prog Sys (Io α)} {f : IoError → Error}
    {t : List (Event Sys)} {r : Except Error α} :
    Prog.Returns (orFail p f).run t r ↔ ∃ x, Prog.Returns p t x ∧ r = x.mapError f := by
  simp only [orFail, ExceptT.run_mk, Prog.returns_bind_iff, Prog.returns_ret_iff]
  constructor
  · rintro ⟨x, t₁, t₂, rfl, h, rfl, rfl⟩; exact ⟨x, by rwa [List.append_nil], rfl⟩
  · rintro ⟨x, h, rfl⟩; exact ⟨x, t, [], by simp, h, rfl, rfl⟩

theorem returns_orFail_ok_iff {α : Type} {p : Prog Sys (Io α)} {f : IoError → Error}
    {t : List (Event Sys)} {a : α} :
    Prog.Returns (orFail p f).run t (.ok a) ↔ Prog.Returns p t (.ok a) := by
  rw [returns_orFail_iff]
  constructor
  · rintro ⟨e | b, h, hb⟩
    · cases hb
    · cases hb; exact h
  · intro h; exact ⟨_, h, rfl⟩

theorem returns_orFail_error_iff {α : Type} {p : Prog Sys (Io α)} {f : IoError → Error}
    {t : List (Event Sys)} {err : Error} :
    Prog.Returns (orFail p f).run t (.error err) ↔
      ∃ e, Prog.Returns p t (.error e) ∧ err = f e := by
  rw [returns_orFail_iff]
  constructor
  · rintro ⟨e | b, h, hb⟩
    · cases hb; exact ⟨e, h, rfl⟩
    · cases hb
  · rintro ⟨e, h, rfl⟩; exact ⟨_, h, rfl⟩

/-- Put a message in front of an error. -/
def withContext {α : Type} (message : Str) (p : Fallible α) : Fallible α :=
  ExceptT.mk (p.run.bind fun r => .ret (r.mapError (message :: ·)))

theorem returns_withContext {message : Str} {p : Fallible Unit} {t : List (Event Sys)}
    (h : Prog.Returns p.run t (.ok ())) : Prog.Returns (withContext message p).run t (.ok ()) := by
  have hb : Prog.Returns (withContext message p).run (t ++ []) (.ok ()) := h.bind (.ret _)
  rwa [List.append_nil] at hb

def liftExcept {α : Type} (r : Except Error α) : Fallible α := ExceptT.mk (.ret r)

theorem wp_orFail {α W : Type} {env : Env Sys W} {I : W → Prop} {p : Prog Sys (Io α)}
    {f : IoError → Error} {Q : Except Error α → W → Prop} {w : W} :
    Prog.wp env I (orFail p f).run Q w ↔
      Prog.wp env I p (fun x w => Q (x.mapError f) w) w := by
  rw [orFail, ExceptT.run_mk, Prog.wp_bind]
  exact ⟨Prog.wp_mono fun _ _ _ hw => hw.2, Prog.wp_mono fun _ _ hi hw => ⟨hi, hw⟩⟩

theorem wp_withContext {α W : Type} {env : Env Sys W} {I : W → Prop} {message : Str}
    {p : Fallible α} {Q : Except Error α → W → Prop} {w : W} :
    Prog.wp env I (withContext message p).run Q w ↔
      Prog.wp env I p.run (fun r w => Q (r.mapError (message :: ·)) w) w := by
  rw [withContext, ExceptT.run_mk, Prog.wp_bind]
  exact ⟨Prog.wp_mono fun _ _ _ hw => hw.2, Prog.wp_mono fun _ _ hi hw => ⟨hi, hw⟩⟩

theorem uses_orFail {α : Type} {allowed : SysOp → Prop} {p : Prog Sys (Io α)} {f : IoError → Error}
    (h : p.Uses allowed) : (orFail p f).run.Uses allowed := h.bind fun _ => trivial

theorem uses_withContext {α : Type} {allowed : SysOp → Prop} {message : Str} {p : Fallible α}
    (h : p.run.Uses allowed) : (withContext message p).run.Uses allowed := h.bind fun _ => trivial

namespace Conf

open Sys

/-- What `readOptional` makes of the reply to its read. -/
def optional (path : FilePath) : Io Str → Except Error (Option Str)
  | .ok text => .ok (some text)
  | .error err =>
    if err.kind = .notFound then .ok none
    else .error ["reading ".toList ++ path.display, err.text]

/-- What a read finds: the text of a file, or no file. -/
inductive Finds : Io Str → Option Str → Prop
  | text (s : Str) : Finds (.ok s) (some s)
  | missing {e : IoError} : e.kind = .notFound → Finds (.error e) none

theorem optional_eq_ok_iff {path : FilePath} {reply : Io Str} {existing : Option Str} :
    optional path reply = .ok existing ↔ Finds reply existing := by
  constructor
  · intro h
    unfold optional at h
    split at h
    · cases h
      exact .text _
    · split_ifs at h with hk
      cases h
      exact .missing hk
  · intro h
    cases h with
    | text s => rfl
    | missing hk => rw [optional, if_pos hk]

def readOptional (path : FilePath) : Fallible (Option Str) :=
  ExceptT.mk ((readToString path).bind fun r => .ret (optional path r))

def annotatePermission (err : IoError) (path : FilePath) : Error :=
  if err.kind = .permissionDenied then
    ["permission denied writing ".toList ++ path.display ++
      " - this command must be run as root".toList]
  else [err.text]

/-- The temporary that the process with this id writes before it replaces a file. -/
def tmpPath (pid : ℕ) (path : FilePath) : FilePath :=
  path.withExtension ("tmp.".toList ++ decimal pid)

/-- Replace a file by its temporary, or remove the temporary. -/
def replace (tmp path : FilePath) : Prog Sys (Io Unit) :=
  (rename tmp path).bind fun
    | .ok _ => .ret (.ok ())
    | .error err => (removeFile tmp).bind fun _ => .ret (.error err)

def writeAtomically (pid : ℕ) (path : FilePath) (contents : Str) : Fallible Unit := do
  match path.parent with
  | none => throw [path.display ++ " has no parent directory".toList]
  | some parent =>
    orFail (createDirAll parent) fun err =>
      ("creating ".toList ++ parent.display) :: annotatePermission err parent
    let tmp := tmpPath pid path
    orFail (writeFile tmp contents) fun err =>
      ("writing ".toList ++ tmp.display) :: annotatePermission err tmp
    orFail (replace tmp path) fun err => ["replacing ".toList ++ path.display, err.text]

/-- Writes only if the content would change. Returns whether it wrote. -/
def writeIfChanged (pid : ℕ) (path : FilePath) (contents : Str) : Fallible Bool := do
  if (← readOptional path) = some contents then pure false
  else
    writeAtomically pid path contents
    pure true

variable {pid : ℕ} {path : FilePath} {contents : Str} {t : List (Event Sys)}

theorem returns_readOptional_iff {r : Except Error (Option Str)} :
    Prog.Returns (readOptional path).run t r ↔
      ∃ x, t = [⟨.readToString path, x⟩] ∧ r = optional path x := by
  simp only [readOptional, ExceptT.run_mk, readToString, Prog.call_bind, Prog.ret_bind,
    Prog.returns_call_iff, Prog.returns_ret_iff]
  constructor
  · rintro ⟨x, _, ht, rfl, hr⟩; exact ⟨x, ht, hr⟩
  · rintro ⟨x, ht, hr⟩; exact ⟨x, [], ht, rfl, hr⟩

/-- Writing a file creates it and writes to it, and makes no other call. -/
theorem writeFile_uses (path : FilePath) (contents : Str) :
    (writeFile path contents).Uses fun o =>
      o = SysOp.create path ∨ ∃ d, o = SysOp.write path d := by
  refine ⟨Or.inl rfl, ?_⟩
  rintro (e | _)
  · trivial
  · refine ⟨fun rest => ?_, fun _ => trivial⟩
    unfold writeRest
    split
    · trivial
    · refine ⟨Or.inr ⟨rest, rfl⟩, ?_⟩
      rintro (e | n)
      · trivial
      · cases n <;> trivial

theorem rename_not_mem_writeFile {a b : FilePath} {x : Io Unit} {r : Io Unit}
    (h : Prog.Returns (writeFile path contents) t r) : ⟨.rename a b, x⟩ ∉ t := by
  intro hm
  rcases (writeFile_uses _ _).returns h _ hm with hc | ⟨d, hc⟩ <;> cases hc

/-- The call reads or changes the contents of a file. -/
def FileCall : SysOp → Prop
  | .readToString _ | .createDirAll _ | .create _ | .write _ _ | .rename _ _ | .removeFile _ => True
  | _ => False

theorem readOptional_uses (path : FilePath) : (readOptional path).run.Uses FileCall :=
  ⟨trivial, fun _ => trivial⟩

theorem writeAtomically_uses (pid : ℕ) (path : FilePath) (contents : Str) :
    (writeAtomically pid path contents).run.Uses FileCall := by
  unfold writeAtomically
  split
  · trivial
  refine Prog.Uses.try_bind (uses_orFail (p := createDirAll _) ⟨trivial, fun _ => trivial⟩)
    fun _ => ?_
  refine (uses_orFail ((writeFile_uses _ _).mono ?_)).try_bind fun _ => uses_orFail ?_
  · rintro o (rfl | ⟨d, rfl⟩) <;> trivial
  · refine ⟨trivial, ?_⟩
    rintro (e | _)
    · exact ⟨trivial, fun _ => trivial⟩
    · trivial

/-- Writing a file, for an environment that keeps the node at its path as `J` says: it ends with
the contents there, or fails with something there, however many writes it takes. -/
theorem wp_writeFile {W : Type} {env : Env Sys W} {I : W → Prop} {Q : Io Unit → W → Prop} {w : W}
    {n : Option Node} (J : Option Node → W → Prop) (hI : ∀ {n w}, J n w → I w)
    (hstep : ∀ {n w w' e}, (e.1 = SysOp.create path ∨ ∃ d, e.1 = SysOp.write path d) → J n w →
      env w e w' → J (Fs.effect path n e) w')
    (hok : ∀ {w}, J (some (.file (.text contents))) w → Q (.ok ()) w)
    (herr : ∀ {n w} e, J n w → Q (.error e) w) (hw : J n w) :
    Prog.wp env I (writeFile path contents) Q w := by
  refine ⟨hI hw, ?_⟩
  rintro (e | _) w' he
  · have hj := hstep (Or.inl rfl) hw he
    exact ⟨hI hj, herr e hj⟩
  have hj := hstep (Or.inl rfl) hw he
  rw [Fs.effect, if_pos rfl] at hj
  -- what has been written so far, and what is left
  refine Prog.wp_loop (fun rest w => ∃ done, contents = done ++ rest ∧
    J (some (.file (.text done))) w) ⟨[], rfl, hj⟩ ?_
  rintro rest w ⟨done, rfl, hj⟩
  unfold writeRest
  split
  · next hr =>
    rw [hr, List.append_nil] at hok
    exact ⟨hI hj, hI hj, hok hj⟩
  · refine ⟨hI hj, ?_⟩
    rintro (e | k) w' he
    · have hj' := hstep (Or.inr ⟨rest, rfl⟩) hj he
      exact ⟨hI hj', hI hj', herr e hj'⟩
    · have hj' := hstep (Or.inr ⟨rest, rfl⟩) hj he
      cases k with
      | zero => exact ⟨hI hj', hI hj', herr _ hj'⟩
      | succ k =>
        rw [Fs.effect, if_pos rfl] at hj'
        exact ⟨hI hj', done ++ rest.take (k + 1), by simp, hj'⟩

/-- A file that was written without an error holds the contents. -/
theorem foldl_effect_writeFile (n : Option Node)
    (h : Prog.Returns (writeFile path contents) t (.ok ())) :
    t.foldl (Fs.effect path) n = some (.file (.text contents)) := by
  have hw : Prog.wp (Fs.at_ path) (fun _ => True) (writeFile path contents)
      (fun r n => r = .ok () → n = some (.file (.text contents))) n := by
    apply wp_writeFile (fun m n => n = m) (fun _ => trivial) _ (fun h _ => h) (fun _ _ => nofun) rfl
    rintro m _ n' e - rfl he
    exact he
  exact Prog.wp_returns h hw (Fs.runs_at_iff.mpr rfl) rfl

/-- The runs of an atomic write: it stops at the first failure, removing the temporary only if
it could not be renamed, and succeeds with the rename. -/
inductive WriteRun (pid : ℕ) (path : FilePath) (contents : Str) :
    List (Event Sys) → Except Error Unit → Prop
  | noParent (err : Error) : path.parent = none → WriteRun pid path contents [] (.error err)
  | noDirectory {parent : FilePath} {e : IoError} (err : Error) : path.parent = some parent →
      WriteRun pid path contents [⟨.createDirAll parent, .error e⟩] (.error err)
  | notWritten {parent : FilePath} {e : IoError} {w : List (Event Sys)} (err : Error) :
      path.parent = some parent →
      Prog.Returns (writeFile (tmpPath pid path) contents) w (.error e) →
      WriteRun pid path contents (⟨.createDirAll parent, .ok ()⟩ :: w) (.error err)
  | notReplaced {parent : FilePath} {e : IoError} {x : Io Unit} {w : List (Event Sys)}
      (err : Error) : path.parent = some parent →
      Prog.Returns (writeFile (tmpPath pid path) contents) w (.ok ()) →
      WriteRun pid path contents (⟨.createDirAll parent, .ok ()⟩ :: w ++
        [⟨.rename (tmpPath pid path) path, .error e⟩, ⟨.removeFile (tmpPath pid path), x⟩])
        (.error err)
  | replaced {parent : FilePath} {w : List (Event Sys)} : path.parent = some parent →
      Prog.Returns (writeFile (tmpPath pid path) contents) w (.ok ()) →
      WriteRun pid path contents (⟨.createDirAll parent, .ok ()⟩ :: w ++
        [⟨.rename (tmpPath pid path) path, .ok ()⟩]) (.ok ())

theorem returns_replace {tmp : FilePath} {x : Io Unit} (h : Prog.Returns (replace tmp path) t x) :
    (x = .ok () ∧ t = [⟨.rename tmp path, .ok ()⟩]) ∨
      ∃ e y, x = .error e ∧ t = [⟨.rename tmp path, .error e⟩, ⟨.removeFile tmp, y⟩] := by
  obtain ⟨r, t', rfl, h₁⟩ := Prog.returns_call_iff.mp h
  cases r with
  | error e =>
    obtain ⟨y, t'', rfl, h₂⟩ := Prog.returns_call_iff.mp h₁
    obtain ⟨rfl, rfl⟩ := Prog.returns_ret_iff.mp h₂
    exact Or.inr ⟨e, y, rfl, rfl⟩
  | ok u =>
    obtain ⟨rfl, rfl⟩ := Prog.returns_ret_iff.mp h₁
    exact Or.inl ⟨rfl, rfl⟩

theorem writeRun_of_returns {r : Except Error Unit}
    (h : Prog.Returns (writeAtomically pid path contents).run t r) :
    WriteRun pid path contents t r := by
  unfold writeAtomically at h
  split at h
  · next hp =>
    obtain ⟨rfl, rfl⟩ := Prog.returns_ret_iff.mp h
    exact .noParent _ hp
  · next parent hp =>
    rcases Prog.returns_try_bind_iff.mp h with ⟨err, hd, rfl⟩ | ⟨_, _, t₁, rfl, hd, h₁⟩
    · obtain ⟨e, hd, -⟩ := returns_orFail_error_iff.mp hd
      obtain rfl := Prog.returns_perform_iff.mp hd
      exact .noDirectory _ hp
    obtain rfl := Prog.returns_perform_iff.mp (returns_orFail_ok_iff.mp hd)
    rcases Prog.returns_try_bind_iff.mp h₁ with ⟨err, hw, rfl⟩ | ⟨_, w, t₂, rfl, hw, h₂⟩
    · obtain ⟨e, hw, -⟩ := returns_orFail_error_iff.mp hw
      exact .notWritten _ hp hw
    obtain ⟨x, hr, rfl⟩ := returns_orFail_iff.mp h₂
    rcases returns_replace hr with ⟨rfl, rfl⟩ | ⟨e, y, rfl, rfl⟩
    · exact .replaced hp (returns_orFail_ok_iff.mp hw)
    · exact .notReplaced _ hp (returns_orFail_ok_iff.mp hw)

theorem writeRun_ok_iff : WriteRun pid path contents t (.ok ()) ↔
    ∃ parent w, path.parent = some parent ∧
      Prog.Returns (writeFile (tmpPath pid path) contents) w (.ok ()) ∧
      t = ⟨.createDirAll parent, .ok ()⟩ :: w ++ [⟨.rename (tmpPath pid path) path, .ok ()⟩] := by
  constructor
  · intro h
    generalize hx : Except.ok () = r at h
    cases h with
    | replaced hp hw => exact ⟨_, _, hp, hw, rfl⟩
    | _ => cases hx
  · rintro ⟨parent, w, hp, hw, rfl⟩
    exact .replaced hp hw

theorem returns_writeFile_once (hc : contents ≠ []) : Prog.Returns (writeFile path contents)
    [⟨.create path, .ok ()⟩, ⟨.write path contents, .ok contents.length⟩] (.ok ()) := by
  refine Prog.returns_call_iff.mpr ⟨.ok (), _, rfl, ?_⟩
  have hw : Prog.Returns (writeRest path contents)
      [⟨.write path contents, .ok contents.length⟩] (.inl []) := by
    obtain ⟨n, hn⟩ : ∃ n, contents.length = n + 1 :=
      Nat.exists_eq_succ_of_ne_zero (by simpa using hc)
    rw [writeRest, if_neg hc, hn]
    refine Prog.returns_call_iff.mpr ⟨.ok (n + 1), [], rfl, Prog.returns_ret_iff.mpr ⟨rfl, ?_⟩⟩
    rw [← hn, List.drop_length]
  exact .again hw (.exit (t := []) (by rw [writeRest, if_pos rfl]; exact .ret _) (.ret _))

/-- The run of an atomic write in which every call succeeds at once. -/
theorem returns_writeAtomically_once (pid : ℕ) {parent : FilePath} (hp : path.parent = some parent)
    (hc : contents ≠ []) : Prog.Returns (writeAtomically pid path contents).run
      [⟨.createDirAll parent, .ok ()⟩, ⟨.create (tmpPath pid path), .ok ()⟩,
        ⟨.write (tmpPath pid path) contents, .ok contents.length⟩,
        ⟨.rename (tmpPath pid path) path, .ok ()⟩] (.ok ()) := by
  unfold writeAtomically
  rw [hp]
  refine Prog.returns_try_bind_iff.mpr (Or.inr ⟨(), [_], _, rfl,
    returns_orFail_ok_iff.mpr (Prog.returns_perform_iff.mpr rfl), ?_⟩)
  refine Prog.returns_try_bind_iff.mpr (Or.inr ⟨(), [_, _], [_], rfl,
    returns_orFail_ok_iff.mpr (returns_writeFile_once hc), ?_⟩)
  exact returns_orFail_ok_iff.mpr
    (Prog.returns_call_iff.mpr ⟨.ok (), [], rfl, Prog.returns_ret_iff.mpr ⟨rfl, rfl⟩⟩)

theorem returns_writeIfChanged_same {x : Io Str} (hx : optional path x = .ok (some contents)) :
    Prog.Returns (writeIfChanged pid path contents).run [⟨.readToString path, x⟩] (.ok false) := by
  refine Prog.returns_try_bind_iff.mpr (Or.inr ⟨some contents, [_], [], rfl,
    returns_readOptional_iff.mpr ⟨x, rfl, hx.symm⟩, ?_⟩)
  rw [if_pos rfl]
  exact .ret _

theorem returns_writeIfChanged_of_ne {x : Io Str} {existing : Option Str} {r : Except Error Unit}
    (hx : optional path x = .ok existing) (hne : existing ≠ some contents)
    (hw : Prog.Returns (writeAtomically pid path contents).run t r) :
    Prog.Returns (writeIfChanged pid path contents).run (⟨.readToString path, x⟩ :: t)
      (r.map fun _ => true) := by
  refine Prog.returns_try_bind_iff.mpr (Or.inr ⟨existing, [_], t, rfl,
    returns_readOptional_iff.mpr ⟨x, rfl, hx.symm⟩, ?_⟩)
  rw [if_neg hne]
  cases r with
  | error e => exact Prog.returns_try_bind_iff.mpr (Or.inl ⟨e, hw, rfl⟩)
  | ok u =>
    exact Prog.returns_try_bind_iff.mpr (Or.inr ⟨u, t, [], (List.append_nil t).symm, hw, .ret _⟩)

/-- A conditional write reads, and then stops or is a write. -/
theorem returns_writeIfChanged {r : Except Error Bool}
    (h : Prog.Returns (writeIfChanged pid path contents).run t r) :
    ∃ x w, t = ⟨.readToString path, x⟩ :: w ∧
      ((∃ err, optional path x = .error err ∧ w = [] ∧ r = .error err) ∨
        (optional path x = .ok (some contents) ∧ w = [] ∧ r = .ok false) ∨
        ∃ existing r', optional path x = .ok existing ∧ existing ≠ some contents ∧
          Prog.Returns (writeAtomically pid path contents).run w r' ∧
          r = r'.map fun _ => true) := by
  rcases Prog.returns_try_bind_iff.mp h with ⟨err, hr, rfl⟩ | ⟨existing, t₁, w, rfl, hr, hw⟩
  · obtain ⟨x, rfl, hx⟩ := returns_readOptional_iff.mp hr
    exact ⟨x, [], rfl, Or.inl ⟨err, hx.symm, rfl, rfl⟩⟩
  · obtain ⟨x, rfl, hx⟩ := returns_readOptional_iff.mp hr
    refine ⟨x, w, rfl, Or.inr ?_⟩
    split at hw
    · next he =>
      obtain ⟨rfl, rfl⟩ := Prog.returns_ret_iff.mp hw
      exact Or.inl ⟨he ▸ hx.symm, rfl, rfl⟩
    · next he =>
      obtain ⟨r', hr', rfl⟩ := Prog.returns_try_map_iff.mp hw
      exact Or.inr ⟨existing, r', hx.symm, he, hr', rfl⟩

/-- The temporary is never the file itself. -/
theorem tmpPath_ne (pid : ℕ) {path parent : FilePath} (h : path.parent = some parent) :
    tmpPath pid path ≠ path := by
  obtain ⟨init, name, rfl⟩ : ∃ init name, path = FilePath.join init name := by
    cases path using List.reverseRecOn with
    | nil => simp [FilePath.parent] at h
    | append_singleton init name _ => exact ⟨init, name, rfl⟩
  exact FilePath.withExtension_ne init name "tmp".toList (decimal pid)

end Conf

end RobotCtl
