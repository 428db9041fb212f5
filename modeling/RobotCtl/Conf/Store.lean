import RobotCtl.Conf.File
import RobotCtl.Library.Interleaving

/-! # Configuration files in a file system

What reads and atomic writes do to the files they touch. An atomic write works
on a temporary that no other process touches, and changes the file itself only
by its last step.
-/

namespace RobotCtl.Conf

open Sys

variable {pid pid' : ℕ} {path parent : FilePath} {contents : Str} {t : List (Event Sys)}
  {fs fs' : Fs}

/-- The file at a path is absent, or a text. -/
def Holds (fs : Fs) (path : FilePath) (existing : Option Str) : Prop :=
  fs.node path = existing.map fun text => .file (.text text)

theorem holds_inj {existing existing' : Option Str} (h : Holds fs path existing)
    (h' : Holds fs path existing') : existing = existing' := by
  have he := h.symm.trans h'
  refine Option.map_injective (fun a b hab => ?_) he
  simpa using hab

/-- A read that does not fail finds what the file holds. -/
theorem holds_of_optional {x : Io Str} {existing : Option Str}
    (hr : Fs.ReadsAs (fs.node path) x) (hx : optional path x = .ok existing) :
    Holds fs path existing := by
  cases x with
  | ok text =>
    obtain rfl : some text = existing := by simpa [optional] using hx
    exact Fs.readsAs_ok_iff.mp hr
  | error e =>
    by_cases hk : e.kind = .notFound
    · obtain rfl : none = existing := by simpa [optional, hk] using hx
      exact Fs.readsAs_error_iff.mp hr hk
    · simp [optional, hk] at hx

/-- A file that holds a text, or nothing, can be read. -/
theorem Holds.exists_reply {existing : Option Str} (h : Holds fs path existing) :
    ∃ x, Fs.ReadsAs (fs.node path) x ∧ optional path x = .ok existing := by
  rw [h]
  cases existing with
  | none => exact ⟨.error ⟨.notFound, []⟩, trivial, rfl⟩
  | some text => exact ⟨.ok text, rfl, rfl⟩

theorem readOptional_runs {existing : Option Str}
    (h : Prog.Returns (readOptional path).run t (.ok existing)) (hr : Env.Runs Fs.env fs t fs') :
    fs' = fs ∧ Holds fs path existing := by
  obtain ⟨x, rfl, hx⟩ := returns_readOptional_iff.mp h
  obtain ⟨u, ⟨rfl, hs⟩, hu⟩ := Env.runs_cons_iff.mp hr
  rw [Env.runs_nil_iff.mp hu]
  exact ⟨rfl, holds_of_optional hs hx.symm⟩

/-- A file operation that fails. A read that finds no file does not. -/
def Fails : Event Sys → Bool
  | ⟨.readToString _, .error e⟩ => e.kind ≠ .notFound
  | ⟨.createDirAll _, .error _⟩ => true
  | ⟨.create _, .error _⟩ => true
  | ⟨.write _ _, .error _⟩ => true
  | ⟨.write _ _, .ok n⟩ => n = 0
  | ⟨.rename _ _, .error _⟩ => true
  | _ => false

/-- The calls of an atomic write. -/
inductive WriteOp (pid : ℕ) (path : FilePath) : SysOp → Prop
  | createDirAll {parent : FilePath} : path.parent = some parent →
      WriteOp pid path (.createDirAll parent)
  | create : WriteOp pid path (.create (tmpPath pid path))
  | write (data : Str) : WriteOp pid path (.write (tmpPath pid path) data)
  | rename : WriteOp pid path (.rename (tmpPath pid path) path)
  | removeFile : WriteOp pid path (.removeFile (tmpPath pid path))

theorem writeOp_of_writeFile {r : Io Unit}
    (h : Prog.Returns (writeFile (tmpPath pid path) contents) t r) :
    ∀ e ∈ t, WriteOp pid path e.1 := by
  intro e he
  rcases (writeFile_uses _ _).returns h e he with h | ⟨d, h⟩
  · rw [h]; exact .create
  · rw [h]; exact .write d

theorem WriteRun.ops {r : Except Error Unit} (h : WriteRun pid path contents t r) :
    ∀ e ∈ t, WriteOp pid path e.1 := by
  cases h with
  | noParent err hp => simp
  | noDirectory err hp => simpa using WriteOp.createDirAll hp
  | notWritten err hp hw =>
    exact List.forall_mem_cons.mpr ⟨.createDirAll hp, writeOp_of_writeFile hw⟩
  | notReplaced err hp hw =>
    refine List.forall_mem_cons.mpr ⟨.createDirAll hp, List.forall_mem_append.mpr
      ⟨writeOp_of_writeFile hw, ?_⟩⟩
    simpa using ⟨WriteOp.rename, WriteOp.removeFile⟩
  | replaced hp hw =>
    refine List.forall_mem_cons.mpr ⟨.createDirAll hp, List.forall_mem_append.mpr
      ⟨writeOp_of_writeFile hw, ?_⟩⟩
    simpa using WriteOp.rename

theorem exists_join_of_parent (h : path.parent = some parent) :
    ∃ name, path = parent.join name := by
  cases path using List.reverseRecOn with
  | nil => simp [FilePath.parent] at h
  | append_singleton init name _ =>
    have hp : FilePath.parent (init ++ [name]) = some init := FilePath.parent_join init name
    exact ⟨name, by rw [← Option.some.inj (hp.symm.trans h)]; rfl⟩

theorem join_not_isPrefix (p : FilePath) (name : Str) : ¬ p.join name <+: p := fun h => by
  have := h.length_le
  simp only [FilePath.join, List.length_append, List.length_singleton] at this
  omega

/-- The temporary is next to the file. -/
theorem parent_tmpPath (pid : ℕ) (h : path.parent = some parent) :
    (tmpPath pid path).parent = some parent := by
  obtain ⟨name, rfl⟩ := exists_join_of_parent h
  rw [tmpPath, FilePath.withExtension_join, FilePath.parent_join]

/-- Different processes write different temporaries. -/
theorem tmpPath_inj (h : path.parent = some parent)
    (he : tmpPath pid path = tmpPath pid' path) : pid = pid' := by
  obtain ⟨name, rfl⟩ := exists_join_of_parent h
  simp only [tmpPath, FilePath.withExtension_join, FilePath.join_inj, true_and,
    List.append_cancel_left_eq, List.cons.injEq] at he
  simpa using congrArg Text.digitsValue he

/-- Writing the file changes no node other than the file, its temporary and directories above. -/
theorem WriteOp.quiet_of_not_isPrefix {e : Event Sys} {q : FilePath} (h : WriteOp pid path e.1)
    (hq : ¬ q <+: path) (ht : q ≠ tmpPath pid path) :
    Fs.Local q e ∧ ∀ n, Fs.effect q n e = n := by
  obtain ⟨o, r⟩ := e
  have ht := ht.symm
  cases h with
  | createDirAll hpar =>
    obtain ⟨name, rfl⟩ := exists_join_of_parent hpar
    exact ⟨fun hp => hq (hp.trans (List.prefix_append _ _)), fun n => rfl⟩
  | create => exact ⟨trivial, fun n => by cases r <;> simp [Fs.effect, ht]⟩
  | write d => exact ⟨trivial, fun n => by cases r <;> simp [Fs.effect, ht]⟩
  | rename =>
    exact ⟨fun hp => hq (hp ▸ List.prefix_rfl), fun n => by cases r <;> simp [Fs.effect, ht]⟩
  | removeFile => exact ⟨trivial, fun n => by cases r <;> simp [Fs.effect, ht]⟩

theorem WriteOp.quiet {e : Event Sys} {q : FilePath} (h : WriteOp pid path e.1)
    (hq : q.parent = path.parent) (hp : q ≠ path) (ht : q ≠ tmpPath pid path) :
    Fs.Local q e ∧ ∀ n, Fs.effect q n e = n := by
  have hl := FilePath.length_eq_of_parent hq
  exact h.quiet_of_not_isPrefix (fun hpre => hp (hpre.eq_of_length hl)) ht

/-- Elsewhere a write can do nothing but make directories. -/
theorem WriteOp.frame {e : Event Sys} {q : FilePath} (h : WriteOp pid path e.1)
    (he : Fs.env fs e fs') (hq : q ≠ path) (ht : q ≠ tmpPath pid path) :
    fs'.node q = fs.node q ∨ fs.node q = none ∧ fs'.node q = some .dir := by
  by_cases hpre : q <+: path
  · obtain ⟨o, r⟩ := e
    cases h with
    | createDirAll hpar => exact (he.1 q).imp_right And.right
    | create =>
      have hn := Fs.node_of_env (p := q) he trivial
      cases r <;> simp_all [Fs.effect, ht.symm]
    | write d =>
      have hn := Fs.node_of_env (p := q) he trivial
      cases r <;> simp_all [Fs.effect, ht.symm]
    | rename =>
      have hn := Fs.node_of_env (p := q) he (Ne.symm hq)
      cases r <;> simp_all [Fs.effect, ht.symm]
    | removeFile =>
      have hn := Fs.node_of_env (p := q) he trivial
      cases r <;> simp_all [Fs.effect, ht.symm]
  · obtain ⟨hl, hn⟩ := h.quiet_of_not_isPrefix hpre ht
    exact Or.inl ((Fs.node_of_env he hl).trans (hn _))

theorem WriteOp.local_tmp {e : Event Sys} (h : WriteOp pid path e.1)
    (hp : path.parent = some parent) : Fs.Local (tmpPath pid path) e := by
  obtain ⟨o, r⟩ := e
  cases h with
  | createDirAll hpar =>
    obtain ⟨name, ht⟩ := exists_join_of_parent (parent_tmpPath pid hpar)
    rw [ht]
    exact join_not_isPrefix _ _
  | rename => exact (tmpPath_ne pid hp).symm
  | _ => trivial

/-- Writing the file changes it by the rename only. -/
theorem WriteOp.quiet_self {e : Event Sys} (h : WriteOp pid path e.1)
    (hpar : path.parent = some parent) (hr : e.1 ≠ .rename (tmpPath pid path) path) :
    Fs.Local path e ∧ ∀ n, Fs.effect path n e = n := by
  obtain ⟨o, r⟩ := e
  have ht := tmpPath_ne pid hpar
  cases h with
  | createDirAll h =>
    obtain ⟨name, rfl⟩ := exists_join_of_parent h
    exact ⟨join_not_isPrefix _ _, fun n => rfl⟩
  | create => exact ⟨trivial, fun n => by cases r <;> simp [Fs.effect, ht]⟩
  | write d => exact ⟨trivial, fun n => by cases r <;> simp [Fs.effect, ht]⟩
  | rename => exact absurd rfl hr
  | removeFile => exact ⟨trivial, fun n => by cases r <;> simp [Fs.effect, ht]⟩

/-- Only a rename that succeeds changes the file. -/
theorem WriteOp.node_self {e : Event Sys} (h : WriteOp pid path e.1)
    (hpar : path.parent = some parent) (he : Fs.env fs e fs')
    (hr : e ≠ ⟨.rename (tmpPath pid path) path, .ok ()⟩) : fs'.node path = fs.node path := by
  by_cases ho : e.1 = .rename (tmpPath pid path) path
  · obtain ⟨o, r⟩ := e
    obtain rfl : o = .rename (tmpPath pid path) path := ho
    cases r with
    | error err => exact congrArg (·.node path) he
    | ok _ => exact absurd rfl hr
  · obtain ⟨hl, hn⟩ := h.quiet_self hpar ho
    exact (Fs.node_of_env he hl).trans (hn _)

theorem WriteRun.rename_not_mem {err : Error} (h : WriteRun pid path contents t (.error err)) :
    ⟨.rename (tmpPath pid path) path, .ok ()⟩ ∉ t := by
  cases h with
  | noParent err hp => simp
  | noDirectory err hp => simp
  | notWritten err hp hr => simpa using rename_not_mem_writeFile hr
  | notReplaced err hp hr => simpa using rename_not_mem_writeFile hr

/-- An atomic write that fails leaves the file as it was. -/
theorem WriteRun.unchanged {err : Error} (h : WriteRun pid path contents t (.error err))
    (hr : Env.Runs Fs.env fs t fs') : fs'.node path = fs.node path := by
  by_cases ht : t = []
  · subst ht
    rw [Env.runs_nil_iff.mp hr]
  obtain ⟨parent, hpar⟩ : ∃ parent, path.parent = some parent := by
    cases h with
    | noParent err hp => exact absurd rfl ht
    | noDirectory err hp => exact ⟨_, hp⟩
    | notWritten err hp hw => exact ⟨_, hp⟩
    | notReplaced err hp hw => exact ⟨_, hp⟩
  have hops := h.ops
  have hne := h.rename_not_mem
  refine hr.rel (R := fun fs fs' : Fs => fs'.node path = fs.node path) (fun _ => rfl)
    (fun h h' => Eq.trans h' h) fun e he _ _ hs => ?_
  exact (hops e he).node_self hpar hs (ne_of_mem_of_not_mem he hne)

/-- Among processes that read the file and write it atomically, the temporary of each is its own:
the node there follows from what that process does. -/
theorem node_tmpPath_of_runs {ι : Type} [DecidableEq ι] {pid : ι → ℕ}
    {w : List (ι × Event Sys)} (hpid : Function.Injective pid) (hpar : path.parent = some parent)
    (hops : ∀ j e, (j, e) ∈ w → e.1 = .readToString path ∨ WriteOp (pid j) path e.1)
    (hr : Env.Runs Fs.env fs (w.map Prod.snd) fs') (i : ι) :
    fs'.node (tmpPath (pid i) path) = (Interleaving.proj i w).foldl
      (Fs.effect (tmpPath (pid i) path)) (fs.node (tmpPath (pid i) path)) := by
  have hother : ∀ j e, (j, e) ∈ w → j ≠ i → Fs.Local (tmpPath (pid i) path) e ∧
      ∀ n, Fs.effect (tmpPath (pid i) path) n e = n := by
    intro j e he hj
    rcases hops j e he with ho | ho
    · obtain ⟨o, r⟩ := e
      cases ho
      exact ⟨trivial, fun n => rfl⟩
    · exact ho.quiet ((parent_tmpPath _ hpar).trans hpar.symm) (tmpPath_ne _ hpar) fun hc =>
        hj (hpid (tmpPath_inj hpar hc)).symm
  have hlocal : ∀ e ∈ w.map Prod.snd, Fs.Local (tmpPath (pid i) path) e := by
    intro e he
    obtain ⟨⟨j, e⟩, hm, rfl⟩ := List.mem_map.mp he
    by_cases hj : j = i
    · subst hj
      rcases hops j e hm with ho | ho
      · obtain ⟨o, r⟩ := e
        cases ho
        trivial
      · exact ho.local_tmp hpar
    · exact (hother j e hm hj).1
  rw [Fs.node_of_runs hr hlocal, Interleaving.foldl_proj fun j e he hj => (hother j e he hj).2]

/-- Before the rename the temporary holds the contents, whatever was there. -/
theorem foldl_effect_tmp {w : List (Event Sys)} (n : Option Node)
    (hw : Prog.Returns (writeFile (tmpPath pid path) contents) w (.ok ())) :
    (⟨.createDirAll parent, .ok ()⟩ :: w).foldl (Fs.effect (tmpPath pid path)) n =
      some (.file (.text contents)) := by
  rw [List.foldl_cons]
  exact foldl_effect_writeFile _ hw

/-- An atomic write that succeeds leaves exactly its contents. -/
theorem WriteRun.holds (h : WriteRun pid path contents t (.ok ())) (hr : Env.Runs Fs.env fs t fs') :
    Holds fs' path (some contents) := by
  have hops := h.ops
  obtain ⟨parent, w, hp, hw, rfl⟩ := writeRun_ok_iff.mp h
  obtain ⟨u, hu, hr⟩ := Env.runs_append_iff.mp hr
  obtain ⟨fs', ⟨hf, -, hn⟩, he⟩ := Env.runs_cons_iff.mp hr
  obtain rfl := Env.runs_nil_iff.mp he
  have ht := Fs.node_of_runs hu fun e he => (hops e (List.mem_append_left _ he)).local_tmp hp
  rw [foldl_effect_tmp _ hw] at ht
  rw [Holds, hn, Function.update_self, ht]
  rfl

theorem WriteOp.frame_runs {q : FilePath} (h : ∀ e ∈ t, WriteOp pid path e.1)
    (hr : Env.Runs Fs.env fs t fs') (hq : q ≠ path) (ht : q ≠ tmpPath pid path) :
    fs'.node q = fs.node q ∨ fs.node q = none ∧ fs'.node q = some .dir := by
  refine hr.rel (R := fun fs fs' : Fs =>
    fs'.node q = fs.node q ∨ fs.node q = none ∧ fs'.node q = some .dir)
    (fun _ => Or.inl rfl) ?_ fun e he _ _ hs => (h e he).frame hs hq ht
  rintro u v w (h₁ | ⟨hn, hd⟩) h₂
  · rwa [h₁] at h₂
  · rcases h₂ with h₂ | ⟨hn', -⟩
    · exact Or.inr ⟨hn, h₂.trans hd⟩
    · rw [hd] at hn'
      cases hn'

/-- A conditional write that succeeds leaves exactly its contents, and elsewhere does nothing but
make directories. -/
theorem writeIfChanged_runs {b : Bool}
    (h : Prog.Returns (writeIfChanged pid path contents).run t (.ok b))
    (hr : Env.Runs Fs.env fs t fs') : Holds fs' path (some contents) ∧
      ∀ q, q ≠ path → q ≠ tmpPath pid path →
        fs'.node q = fs.node q ∨ fs.node q = none ∧ fs'.node q = some .dir := by
  obtain ⟨x, w, rfl, hw⟩ := returns_writeIfChanged h
  obtain ⟨u, ⟨rfl, hs⟩, hu⟩ := Env.runs_cons_iff.mp hr
  rcases hw with ⟨err, -, -, hb⟩ | ⟨hx, rfl, -⟩ | ⟨existing, r, -, -, hw, hb⟩
  · cases hb
  · obtain rfl := Env.runs_nil_iff.mp hu
    exact ⟨holds_of_optional hs hx, fun q _ _ => Or.inl rfl⟩
  · cases r with
    | error e => cases hb
    | ok u =>
      have hw := writeRun_of_returns hw
      exact ⟨hw.holds hu, fun q hq ht => WriteOp.frame_runs hw.ops hu hq ht⟩

/-- A conditional write of what the file holds is a read. -/
theorem writeIfChanged_same {r : Except Error Bool} (hh : Holds fs path (some contents))
    (h : Prog.Returns (writeIfChanged pid path contents).run t r)
    (hr : Env.Runs Fs.env fs t fs') :
    fs' = fs ∧ ∃ x, t = [⟨.readToString path, x⟩] ∧ (r = .ok false ∨
      ∃ e err, x = .error e ∧ r = .error err) := by
  obtain ⟨x, w, rfl, hw⟩ := returns_writeIfChanged h
  obtain ⟨u, ⟨rfl, hs⟩, hu⟩ := Env.runs_cons_iff.mp hr
  rcases hw with ⟨err, hx, rfl, rfl⟩ | ⟨-, rfl, rfl⟩ | ⟨existing, r, hx, hne, -, -⟩
  · refine ⟨Env.runs_nil_iff.mp hu, x, rfl, Or.inr ?_⟩
    cases x with
    | ok text => cases hx
    | error e => exact ⟨e, err, rfl, rfl⟩
  · exact ⟨Env.runs_nil_iff.mp hu, x, rfl, Or.inl rfl⟩
  · exact absurd (holds_inj (holds_of_optional hs hx) hh) hne

/-- An atomic write can succeed wherever its directory exists and no directory is in its way. -/
theorem exists_writeAtomically (pid : ℕ) (hpar : path.parent = some parent) (hc : contents ≠ [])
    (hd : fs.node parent = some .dir) (hp : fs.node path ≠ some .dir)
    (ht : fs.node (tmpPath pid path) ≠ some .dir) :
    ∃ t fs', Prog.Returns (writeAtomically pid path contents).run t (.ok ()) ∧
      Env.Runs Fs.env fs t fs' ∧ Holds fs' path (some contents) ∧
      ∀ q, q ≠ path → q ≠ tmpPath pid path → fs'.node q = fs.node q := by
  have hret := returns_writeAtomically_once pid hpar hc
  have hne := tmpPath_ne pid hpar
  obtain ⟨name, rfl⟩ := exists_join_of_parent hpar
  obtain ⟨tmp, htmp⟩ := exists_join_of_parent (parent_tmpPath pid hpar)
  rw [htmp] at hret ht hne ⊢
  obtain ⟨fs₁, h₁, hn₁⟩ := Fs.exists_create hd ht
  obtain ⟨fs₂, h₂, hn₂⟩ := Fs.exists_write (d := contents) (hn₁ ▸ Function.update_self ..)
  have htext : fs₂.node (parent.join tmp) = some (.file (.text contents)) := by
    rw [hn₂, Function.update_self, List.nil_append]
  obtain ⟨fs₃, h₃, hn₃⟩ := Fs.exists_rename (b := name) (fun h => hne (h ▸ rfl)) htext
    (by rwa [hn₂, hn₁, Function.update_of_ne hne.symm, Function.update_of_ne hne.symm])
  have h₀ : Fs.env fs ⟨.createDirAll parent, .ok ()⟩ fs := ⟨fun q => Or.inl rfl, fun _ => hd⟩
  refine ⟨_, fs₃, hret, .cons h₀ (.cons h₁ (.cons h₂ (.cons h₃ (.nil _)))), ?_, ?_⟩
  · rw [Holds, hn₃, Function.update_self]
    rfl
  · intro q hq hq'
    rw [hn₃, Function.update_of_ne hq, Function.update_of_ne hq', hn₂, Function.update_of_ne hq',
      hn₁, Function.update_of_ne hq']

end RobotCtl.Conf
