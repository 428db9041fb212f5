import Mathlib.Logic.Function.Basic
import RobotCtl.Library.System

/-! # The file system as an environment

A file system maps paths to files and directories, and only directories have
entries. Reads, tests and listings reply with what is there; a call that
changes something may fail and then changes no file. Along a trace the node at
a path that nobody renames onto follows from the events on that path alone.
-/

/-- The content of a file: a text, or bytes that are not valid UTF-8. -/
inductive Content where
  | text (s : Str)
  | binary (bytes : List UInt8)
  deriving DecidableEq, Repr

inductive Node where
  | file (c : Content)
  | dir
  deriving DecidableEq, Repr

/-- A tree of files and directories. -/
structure Fs where
  node : FilePath → Option Node
  root_dir : node [] = some .dir
  parent_dir : ∀ p name, node (FilePath.join p name) ≠ none → node p = some .dir

namespace Fs

@[ext] theorem ext {fs fs' : Fs} (h : fs.node = fs'.node) : fs = fs' := by
  cases fs; cases fs'; cases h; rfl

/-- A regular file. -/
def isFile (fs : Fs) (p : FilePath) : Bool :=
  match fs.node p with
  | some (.file _) => true
  | _ => false

/-- What reading the node at a path can reply. -/
def ReadsAs : Option Node → Io Str → Prop
  | some (.file (.text s)), .ok t => t = s
  | some _, .ok _ => False
  | none, .ok _ => False
  | some _, .error e => e.kind ≠ .notFound
  | none, .error _ => True

theorem readsAs_ok_iff {n : Option Node} {s : Str} :
    ReadsAs n (.ok s) ↔ n = some (.file (.text s)) := by
  rcases n with _ | (t | b) | _
  · simp [ReadsAs]
  · simpa [ReadsAs] using eq_comm
  · simp [ReadsAs]
  · simp [ReadsAs]

theorem readsAs_error_iff {n : Option Node} {e : IoError} :
    ReadsAs n (.error e) ↔ (e.kind = .notFound → n = none) := by
  cases n <;> simp [ReadsAs]

/-- The names in a listing that are valid Unicode. -/
def entryNames (es : List (Io (Option Str))) : List Str :=
  es.filterMap fun e => e.toOption.join

/-- What listing a directory can reply: each entry once and in any order, with any number of
names that are not Unicode. A listing in which an entry failed can be incomplete. -/
def ListsAs (fs : Fs) (p : FilePath) : Io (List (Io (Option Str))) → Prop
  | .ok es => fs.node p = some .dir ∧ (entryNames es).Nodup ∧
      (∀ name ∈ entryNames es, fs.node (p.join name) ≠ none) ∧
      ((∀ e, .error e ∉ es) → ∀ name, fs.node (p.join name) ≠ none → name ∈ entryNames es)
  | .error e => fs.node p ≠ none → e.kind ≠ .notFound

/-- Add text to the end of a text file. -/
def append : Option Node → Str → Option Node
  | some (.file (.text s)), d => some (.file (.text (s ++ d)))
  | n, _ => n

/-- Directories above a path may have been added, and nothing else has changed. -/
def MadeDirs (p : FilePath) (fs fs' : Fs) : Prop :=
  ∀ q, fs'.node q = fs.node q ∨ q <+: p ∧ fs.node q = none ∧ fs'.node q = some .dir

/-- How a system call and its reply can change the file system. -/
def env : Env Sys Fs := fun fs e fs' =>
  match e with
  | ⟨.readToString p, r⟩ => fs' = fs ∧ ReadsAs (fs.node p) r
  | ⟨.isFile p, r⟩ => fs' = fs ∧ r = fs.isFile p
  | ⟨.readDir p, r⟩ => fs' = fs ∧ fs.ListsAs p r
  | ⟨.createDirAll p, r⟩ => fs.MadeDirs p fs' ∧ (r = .ok () → fs'.node p = some .dir)
  | ⟨.create p, .ok _⟩ =>
      fs.node p ≠ some .dir ∧ fs'.node = Function.update fs.node p (some (.file (.text [])))
  | ⟨.write p d, .ok n⟩ => fs'.node = Function.update fs.node p (append (fs.node p) (d.take n))
  | ⟨.rename a b, .ok _⟩ => fs.isFile a ∧ fs.node b ≠ some .dir ∧
      fs'.node = Function.update (Function.update fs.node a none) b (fs.node a)
  | ⟨.removeFile p, .ok _⟩ => fs.isFile p ∧ fs'.node = Function.update fs.node p none
  | _ => fs' = fs

/-- The call leaves every file alone. -/
def Still : SysOp → Prop
  | .createDirAll _ | .create _ | .write _ _ | .rename _ _ | .removeFile _ => False
  | _ => True

theorem eq_of_still {fs fs' : Fs} {o : SysOp} {r : SysReply o} (h : Still o)
    (he : env fs ⟨o, r⟩ fs') : fs' = fs := by
  cases o with
  | createDirAll | create | write | rename | removeFile => exact h.elim
  | readToString | isFile | readDir => exact he.1
  | _ => exact he

/-- The node at a path after an event, if the event puts nothing else there. -/
def effect (p : FilePath) (n : Option Node) (e : Event Sys) : Option Node :=
  match e with
  | ⟨.create q, .ok _⟩ => if q = p then some (.file (.text [])) else n
  | ⟨.write q d, .ok k⟩ => if q = p then append n (d.take k) else n
  | ⟨.rename q _, .ok _⟩ => if q = p then none else n
  | ⟨.removeFile q, .ok _⟩ => if q = p then none else n
  | _ => n

/-- The event neither renames onto the path nor makes a directory at it. -/
def Local (p : FilePath) (e : Event Sys) : Prop :=
  match e with
  | ⟨.rename _ q, _⟩ => q ≠ p
  | ⟨.createDirAll q, _⟩ => ¬ p <+: q
  | _ => True

theorem node_of_env {fs fs' : Fs} {e : Event Sys} {p : FilePath} (h : env fs e fs')
    (hl : Local p e) : fs'.node p = effect p (fs.node p) e := by
  obtain ⟨o, r⟩ := e
  cases o with
  | createDirAll q =>
    rcases h.1 p with he | ⟨hp, -⟩
    · exact he
    · exact absurd hp hl
  | create q =>
    cases r with
    | error e => exact congrArg (·.node p) h
    | ok u => simp only [h.2, Function.update_apply, effect, eq_comm]
  | write q d =>
    cases r with
    | error e => exact congrArg (·.node p) h
    | ok k =>
      have h : fs'.node = _ := h
      by_cases hq : q = p
      · subst hq; simp [h, effect]
      · simp [h, effect, hq, Ne.symm hq]
  | rename a b =>
    cases r with
    | error e => exact congrArg (·.node p) h
    | ok u =>
      have hb : p ≠ b := Ne.symm hl
      simp only [h.2.2, Function.update_apply, if_neg hb, effect, eq_comm]
  | removeFile q =>
    cases r with
    | error e => exact congrArg (·.node p) h
    | ok u => simp only [h.2, Function.update_apply, effect, eq_comm]
  | readToString q => exact congrArg (·.node p) h.1
  | isFile q => exact congrArg (·.node p) h.1
  | readDir q => exact congrArg (·.node p) h.1
  | _ => exact congrArg (·.node p) h

theorem quiet_of_still {e : Event Sys} (h : Still e.1) (p : FilePath) :
    Local p e ∧ ∀ n, effect p n e = n := by
  obtain ⟨o, r⟩ := e
  cases o with
  | createDirAll | create | write | rename | removeFile => exact h.elim
  | _ => exact ⟨trivial, fun _ => rfl⟩

/-- Along a trace of local events a node changes by the effects on its own path. -/
theorem node_of_runs {fs fs' : Fs} {t : List (Event Sys)} {p : FilePath} (h : Env.Runs env fs t fs')
    (hl : ∀ e ∈ t, Local p e) : fs'.node p = t.foldl (effect p) (fs.node p) := by
  induction h with
  | nil => rfl
  | cons he _ ih =>
    rw [ih fun e h => hl e (List.mem_cons_of_mem _ h), node_of_env he (hl _ List.mem_cons_self)]
    rfl

theorem node_eq_of_runs {fs fs' : Fs} {t : List (Event Sys)} {p : FilePath}
    (h : Env.Runs env fs t fs') (hq : ∀ e ∈ t, Local p e ∧ ∀ n, effect p n e = n) :
    fs'.node p = fs.node p := by
  refine h.rel (R := fun fs fs' : Fs => fs'.node p = fs.node p) (fun _ => rfl)
    (fun h h' => Eq.trans h' h) fun e he _ _ hs => ?_
  obtain ⟨hl, hn⟩ := hq e he
  rw [node_of_env hs hl, hn]

/-- The environment of a single path, whose state is the node there. -/
def at_ (p : FilePath) : Env Sys (Option Node) := fun n e n' => n' = effect p n e

theorem runs_at_iff {p : FilePath} {n n' : Option Node} {t : List (Event Sys)} :
    Env.Runs (at_ p) n t n' ↔ n' = t.foldl (effect p) n := by
  induction t generalizing n with
  | nil => simp [Env.runs_nil_iff]
  | cons e t ih => simp [Env.runs_cons_iff, at_, ih]

variable {fs : Fs}

theorem join_ne (p : FilePath) (name : Str) : p ≠ p.join name := fun h => by
  simpa [FilePath.join] using congrArg List.length h

/-- Put a file or an empty directory into a directory. -/
def put (fs : Fs) (p : FilePath) (name : Str) (n : Node) (hp : fs.node p = some .dir)
    (hn : fs.node (p.join name) ≠ some .dir) : Fs where
  node := Function.update fs.node (p.join name) (some n)
  root_dir := by rw [Function.update_of_ne (by simp [FilePath.join])]; exact fs.root_dir
  parent_dir q m h := by
    have hq : q ≠ p.join name ∨ fs.node (q.join m) = none := by
      by_contra hc
      rw [not_or, not_not] at hc
      exact hn (hc.1 ▸ fs.parent_dir q m hc.2)
    by_cases he : q.join m = p.join name
    · obtain ⟨rfl, rfl⟩ := FilePath.join_inj.mp he
      rw [Function.update_of_ne (join_ne _ _)]
      exact hp
    · rw [Function.update_of_ne he] at h
      rw [Function.update_of_ne (hq.resolve_right h)]
      exact fs.parent_dir q m h

/-- Take a file away. -/
def erase (fs : Fs) (p : FilePath) (hp : fs.isFile p) : Fs where
  node := Function.update fs.node p none
  root_dir := by
    rw [Function.update_of_ne]
    · exact fs.root_dir
    · rintro rfl; simp [isFile, fs.root_dir] at hp
  parent_dir q m h := by
    have hm : q.join m ≠ p := by rintro rfl; simp at h
    rw [Function.update_of_ne hm] at h
    have hd := fs.parent_dir q m h
    rw [Function.update_of_ne]
    · exact hd
    · rintro rfl; simp [isFile, hd] at hp

@[simp] theorem put_node {p : FilePath} {name : Str} {n : Node} (hp : fs.node p = some .dir)
    (hn : fs.node (p.join name) ≠ some .dir) :
    (fs.put p name n hp hn).node = Function.update fs.node (p.join name) (some n) := rfl

theorem exists_put (p : FilePath) (name : Str) (n : Node) (hp : fs.node p = some .dir)
    (hn : fs.node (p.join name) ≠ some .dir) :
    ∃ fs' : Fs, fs'.node = Function.update fs.node (p.join name) (some n) :=
  ⟨fs.put p name n hp hn, rfl⟩

@[simp] theorem erase_node {p : FilePath} (hp : fs.isFile p) :
    (fs.erase p hp).node = Function.update fs.node p none := rfl

theorem exists_create {p : FilePath} {name : Str} (hp : fs.node p = some .dir)
    (hn : fs.node (p.join name) ≠ some .dir) :
    ∃ fs', env fs ⟨.create (p.join name), .ok ()⟩ fs' ∧
      fs'.node = Function.update fs.node (p.join name) (some (.file (.text []))) :=
  ⟨fs.put p name (.file (.text [])) hp hn, ⟨hn, rfl⟩, rfl⟩

theorem exists_write {p : FilePath} {name d s : Str}
    (h : fs.node (p.join name) = some (.file (.text s))) :
    ∃ fs', env fs ⟨.write (p.join name) d, .ok d.length⟩ fs' ∧
      fs'.node = Function.update fs.node (p.join name) (some (.file (.text (s ++ d)))) := by
  have hp := fs.parent_dir p name (by simp [h])
  refine ⟨fs.put p name (.file (.text (s ++ d))) hp (by simp [h]), ?_, rfl⟩
  simp [env, h, append]

theorem exists_rename {p : FilePath} {a b : Str} {c : Content} (hne : a ≠ b)
    (ha : fs.node (p.join a) = some (.file c)) (hb : fs.node (p.join b) ≠ some .dir) :
    ∃ fs', env fs ⟨.rename (p.join a) (p.join b), .ok ()⟩ fs' ∧ fs'.node =
      Function.update (Function.update fs.node (p.join a) none) (p.join b) (some (.file c)) := by
  have hf : fs.isFile (p.join a) = true := by simp [isFile, ha]
  have hd : (fs.erase (p.join a) hf).node p = some .dir := by
    rw [erase_node, Function.update_of_ne (join_ne p a)]
    exact fs.parent_dir p a (by simp [ha])
  have hab : p.join b ≠ p.join a := fun h => hne (FilePath.join_inj.mp h).2.symm
  refine ⟨(fs.erase (p.join a) hf).put p b (.file c) hd ?_, ⟨hf, hb, ?_⟩, ?_⟩
  · rwa [erase_node, Function.update_of_ne hab]
  · simp [ha]
  · simp

/-- The file system with nothing but its root. -/
def empty : Fs where
  node p := if p = [] then some .dir else none
  root_dir := rfl
  parent_dir p name h := by simp [FilePath.join] at h

@[simp] theorem empty_join (p : FilePath) (name : Str) : empty.node (p.join name) = none := by
  simp [empty, FilePath.join]

/-- There can be an empty directory at any path. -/
theorem exists_dir (p : FilePath) :
    ∃ fs : Fs, fs.node p = some .dir ∧ ∀ name, fs.node (p.join name) = none := by
  induction p using List.reverseRecOn with
  | nil => exact ⟨empty, rfl, fun name => empty_join [] name⟩
  | append_singleton p last ih =>
    obtain ⟨fs, hd, hn⟩ := ih
    obtain ⟨fs', h'⟩ := exists_put p last .dir hd (by rw [hn]; simp)
    refine ⟨fs', by rw [h']; exact Function.update_self .., fun name => ?_⟩
    have hne : (FilePath.join p last).join name ≠ FilePath.join p last := (join_ne _ _).symm
    have hnone : fs.node ((FilePath.join p last).join name) = none := by
      by_contra hc
      have hparent := fs.parent_dir _ name hc
      rw [hn] at hparent
      cases hparent
    rw [h']
    exact (Function.update_of_ne hne _ _).trans hnone

end Fs
