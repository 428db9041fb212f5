import RobotCtl.Conf.Store

/-! # Concurrent writers of one file

Each process writes its own temporary, and what it renames over the file is the
complete contents of one of its calls. So whatever the order of their steps, and
wherever processes fail or crash, the file is what it was at the start or the
complete contents of some call.
-/

namespace RobotCtl.Conf

open Sys Interleaving

variable {pid : ℕ} {path parent : FilePath} {t : List (Event Sys)} {fs fs' : Fs}

/-- A call that writes the file. -/
inductive WriteCall where
  | writeAtomically (contents : Str)
  | writeIfChanged (contents : Str)

namespace WriteCall

def contents : WriteCall → Str
  | writeAtomically contents | writeIfChanged contents => contents

/-- The call, whose result only its process sees. -/
def run (pid : ℕ) (path : FilePath) : WriteCall → Prog Sys Unit
  | writeAtomically contents => (Conf.writeAtomically pid path contents).run.bind fun _ => .ret ()
  | writeIfChanged contents => (Conf.writeIfChanged pid path contents).run.bind fun _ => .ret ()

end WriteCall

/-- What a process does that makes calls one after the other, each whatever the ones before it
returned, until it is done or crashes in the middle of the last one. -/
inductive Performs (pid : ℕ) (path : FilePath) : List WriteCall → List (Event Sys) → Prop
  | done : Performs pid path [] []
  | crash {c : WriteCall} {t : List (Event Sys)} : Prog.Partial (c.run pid path) t →
      Performs pid path [c] t
  | call {c : WriteCall} {cs : List WriteCall} {t t' : List (Event Sys)} :
      Prog.Returns (c.run pid path) t () → Performs pid path cs t' →
      Performs pid path (c :: cs) (t ++ t')

/-- The calls of a process that writes the file. -/
def WriterOp (pid : ℕ) (path : FilePath) (o : SysOp) : Prop :=
  o = .readToString path ∨ WriteOp pid path o

theorem writeAtomically_writes (pid : ℕ) (path : FilePath) (contents : Str) :
    (writeAtomically pid path contents).run.Uses (WriteOp pid path) := by
  unfold writeAtomically
  split
  · trivial
  next parent hp =>
  apply Prog.Uses.try_bind
  · exact uses_orFail (p := createDirAll _) ⟨.createDirAll hp, fun _ => trivial⟩
  intro _
  apply Prog.Uses.try_bind
  · apply uses_orFail ((writeFile_uses _ _).mono _)
    rintro o (rfl | ⟨d, rfl⟩)
    · exact .create
    · exact .write d
  intro _
  apply uses_orFail
  constructor
  · exact .rename
  · rintro (e | _)
    · exact ⟨.removeFile, fun _ => trivial⟩
    · trivial

theorem WriteCall.uses (pid : ℕ) (path : FilePath) (c : WriteCall) :
    (c.run pid path).Uses (WriterOp pid path) := by
  have hw := fun contents => (writeAtomically_writes pid path contents).mono fun o ho =>
    (Or.inr ho : WriterOp pid path o)
  cases c with
  | writeAtomically contents => exact (hw contents).bind fun _ => trivial
  | writeIfChanged contents =>
    refine Prog.Uses.bind ?_ fun _ => trivial
    refine Prog.Uses.try_bind ⟨Or.inl rfl, fun _ => trivial⟩ fun existing => ?_
    split
    · trivial
    · exact (hw contents).try_bind fun _ => trivial

theorem Performs.ops {cs : List WriteCall} (h : Performs pid path cs t) :
    ∀ e ∈ t, WriterOp pid path e.1 := by
  induction h with
  | done => simp
  | crash h => exact (WriteCall.uses pid path _).cut h
  | call h _ ih => exact List.forall_mem_append.mpr ⟨(WriteCall.uses pid path _).returns h, ih⟩

/-- A process that writes can crash at any step. -/
theorem Performs.shorten {cs : List WriteCall} {u : List (Event Sys)} (h : Performs pid path cs t)
    (hu : u <+: t) : ∃ cs', cs' <+: cs ∧ Performs pid path cs' u := by
  induction h generalizing u with
  | done => exact ⟨[], List.prefix_rfl, List.prefix_nil.mp hu ▸ .done⟩
  | crash h => exact ⟨_, List.prefix_rfl, .crash (h.shorten hu)⟩
  | @call c cs t t' h _ ih =>
    rcases Prog.isPrefix_append_cases hu with hu | ⟨v, rfl, hv⟩
    · exact ⟨[c], by simp, .crash (h.shorten hu)⟩
    · obtain ⟨cs', hcs, hp⟩ := ih hv
      exact ⟨c :: cs', by simpa using hcs, .call h hp⟩

/-- The temporary of a process, and what it last renamed over the file. -/
structure Published where
  tmp : Option Node
  file : Option Node

/-- What an event of a process that writes the file does to its temporary and to the file. -/
def publish (tmp path : FilePath) (s : Published) (e : Event Sys) : Published where
  tmp := Fs.effect tmp s.tmp e
  file := match e with
    | ⟨.rename a b, .ok _⟩ => if a = tmp ∧ b = path then s.tmp else s.file
    | _ => s.file

/-- A process alone with its temporary and the file. -/
def publishEnv (tmp path : FilePath) : Env Sys Published := fun s e s' => s' = publish tmp path s e

theorem runs_publishEnv_iff {tmp : FilePath} {s s' : Published} :
    Env.Runs (publishEnv tmp path) s t s' ↔ s' = t.foldl (publish tmp path) s := by
  induction t generalizing s with
  | nil => simp [Env.runs_nil_iff]
  | cons e t ih => simp [Env.runs_cons_iff, publishEnv, ih]

theorem foldl_publish_tmp (tmp path : FilePath) (s : Published) (t : List (Event Sys)) :
    (t.foldl (publish tmp path) s).tmp = t.foldl (Fs.effect tmp) s.tmp := by
  induction t generalizing s with
  | nil => rfl
  | cons e t ih => exact ih _

theorem publish_rename (tmp path : FilePath) (s : Published) :
    (publish tmp path s ⟨.rename tmp path, .ok ()⟩).file = s.tmp := if_pos ⟨rfl, rfl⟩

theorem publish_file_of_ne {tmp : FilePath} {e : Event Sys} (s : Published)
    (he : e.1 ≠ .rename tmp path) : (publish tmp path s e).file = s.file := by
  obtain ⟨o, r⟩ := e
  cases o with
  | rename a b =>
    have hab : ¬ (a = tmp ∧ b = path) := by
      rintro ⟨rfl, rfl⟩
      exact he rfl
    cases r with
    | error e => rfl
    | ok u => exact if_neg hab
  | _ => rfl

/-- In a file system a write does to the temporary and to the file what it does alone. -/
theorem publish_of_env {e : Event Sys} (h : WriteOp pid path e.1) (hpar : path.parent = some parent)
    (he : Fs.env fs e fs') : (⟨fs'.node (tmpPath pid path), fs'.node path⟩ : Published) =
      publish (tmpPath pid path) path ⟨fs.node (tmpPath pid path), fs.node path⟩ e := by
  have htmp := Fs.node_of_env he (h.local_tmp hpar)
  by_cases hr : e = ⟨.rename (tmpPath pid path) path, .ok ()⟩
  · subst hr
    have hfile : fs'.node path = fs.node (tmpPath pid path) := by rw [he.2.2, Function.update_self]
    rw [publish, if_pos ⟨rfl, rfl⟩, htmp, hfile]
  · have hfile : (publish (tmpPath pid path) path
        ⟨fs.node (tmpPath pid path), fs.node path⟩ e).file = fs.node path := by
      by_cases ho : e.1 = .rename (tmpPath pid path) path
      · obtain ⟨o, r⟩ := e
        obtain rfl : o = .rename (tmpPath pid path) path := ho
        cases r with
        | error err => rfl
        | ok u => exact absurd rfl hr
      · exact publish_file_of_ne _ ho
    rw [h.node_self hpar he hr, htmp]
    exact (congrArg (Published.mk _) hfile).symm

/-- An atomic write, for an environment in which a write does what it does alone: the file is what
it was or the complete contents at every moment, and the contents once the write has succeeded. -/
theorem wp_writeAtomically {W : Type} {env : Env Sys W} {I : W → Prop} {contents : Str}
    {s : Published} {w : W} (J : Published → W → Prop)
    (hI : ∀ {u w}, J u w → u.file = s.file ∨ u.file = some (.file (.text contents)) → I w)
    (hstep : ∀ {u w w' e}, WriteOp pid path e.1 → J u w → env w e w' →
      J (publish (tmpPath pid path) path u e) w') (hw : J s w) :
    Prog.wp env I (writeAtomically pid path contents).run (fun r w' => ∃ u, J u w' ∧
      (u.file = s.file ∨ u.file = some (.file (.text contents))) ∧
      (r = .ok () → u.file = some (.file (.text contents)))) w := by
  unfold writeAtomically
  split
  · exact ⟨hI hw (Or.inl rfl), s, hw, Or.inl rfl, nofun⟩
  next parent hpar =>
  rw [Prog.wp_try_bind, wp_orFail]
  refine ⟨hI hw (Or.inl rfl), ?_⟩
  rintro r w₁ he
  have h₁ := hstep (.createDirAll hpar) hw he
  rw [show publish _ _ s _ = ⟨s.tmp, s.file⟩ from rfl] at h₁
  have hi := hI h₁ (Or.inl rfl)
  cases r with
  | error e => exact ⟨hi, hi, _, h₁, Or.inl rfl, nofun⟩
  | ok _ =>
    refine ⟨hi, ?_⟩
    simp only [Except.mapError]
    rw [Prog.wp_try_bind, wp_orFail]
    -- until the rename the file is what it was
    refine wp_writeFile (fun n w => J ⟨n, s.file⟩ w) (fun hj => hI hj (Or.inl rfl)) ?_ ?_ ?_ h₁
    · rintro n u u' e he hj hu
      have hop : WriteOp pid path e.1 := by
        rcases he with he | ⟨d, he⟩
        · exact he ▸ .create
        · exact he ▸ .write d
      have hfile : (publish (tmpPath pid path) path ⟨n, s.file⟩ e).file = s.file := by
        apply publish_file_of_ne
        rcases he with he | ⟨d, he⟩ <;> rw [he] <;> simp
      have hpub : publish (tmpPath pid path) path ⟨n, s.file⟩ e =
          ⟨Fs.effect (tmpPath pid path) n e, s.file⟩ := congrArg (Published.mk _) hfile
      exact hpub ▸ hstep hop hj hu
    · intro u hj
      simp only [Except.mapError]
      rw [wp_orFail]
      refine ⟨hI hj (Or.inl rfl), ?_⟩
      rintro (e | _) u' hu
      · have hj' := hstep .rename hj hu
        refine ⟨hI hj' (Or.inl rfl), ?_⟩
        rintro r u'' hu'
        have hj'' := hstep .removeFile hj' hu'
        have hi := hI hj'' (Or.inl rfl)
        exact ⟨hi, _, hj'', Or.inl rfl, nofun⟩
      · have hj' := hstep .rename hj hu
        have hfile : (publish (tmpPath pid path) path ⟨some (.file (.text contents)), s.file⟩
            ⟨.rename (tmpPath pid path) path, .ok ()⟩).file = some (.file (.text contents)) :=
          publish_rename _ _ _
        have hi := hI hj' (Or.inr hfile)
        exact ⟨hi, _, hj', Or.inr hfile, fun _ => hfile⟩
    · intro n u e hj
      have hi := hI hj (Or.inl rfl)
      exact ⟨hi, _, hj, Or.inl rfl, nofun⟩

section Single

/-- What an atomic write has done so far: the file is as it was or holds the contents, and elsewhere
directories above it may have been made. -/
structure Written (pid : ℕ) (path : FilePath) (contents : Str) (fs fs' : Fs) : Prop where
  file : fs'.node path = fs.node path ∨
    fs.node path ≠ some .dir ∧ fs'.node path = some (.file (.text contents))
  frame : ∀ q, q ≠ path → q ≠ tmpPath pid path → fs'.node q = fs.node q ∨
    q <+: path ∧ fs.node q = none ∧ fs'.node q = some .dir

/-- Elsewhere the nodes change by the directories that are made. -/
theorem WriteOp.frame_above {e : Event Sys} {q : FilePath} (h : WriteOp pid path e.1)
    (he : Fs.env fs e fs') (hq : q ≠ path) (ht : q ≠ tmpPath pid path) :
    fs'.node q = fs.node q ∨ q <+: path ∧ fs.node q = none ∧ fs'.node q = some .dir := by
  by_cases hpre : q <+: path
  · exact (h.frame he hq ht).imp_right fun hn => ⟨hpre, hn⟩
  · obtain ⟨hl, hn⟩ := h.quiet_of_not_isPrefix hpre ht
    exact Or.inl ((Fs.node_of_env he hl).trans (hn _))

/-- A write that is alone in the file system, for an invariant that what it has done keeps. -/
theorem wp_writeAtomically_alone {I : Fs → Prop} {contents : Str}
    (hI : ∀ {u}, Written pid path contents fs u → I u) :
    Prog.wp Fs.env I (writeAtomically pid path contents).run (fun r fs' =>
      Written pid path contents fs fs' ∧ (r = .ok () → Holds fs' path (some contents))) fs := by
  cases hpar : path.parent with
  | none =>
    have hw : Written pid path contents fs fs := ⟨Or.inl rfl, fun q _ _ => Or.inl rfl⟩
    unfold writeAtomically
    rw [hpar]
    exact ⟨hI hw, hw, nofun⟩
  | some parent =>
    -- what the write has done, and why a directory in its place is still there
    let J : Published → Fs → Prop := fun u w => u = ⟨w.node (tmpPath pid path), w.node path⟩ ∧
      (w.node path = fs.node path ∨ fs.node path ≠ some .dir) ∧
      ∀ q, q ≠ path → q ≠ tmpPath pid path → w.node q = fs.node q ∨
        q <+: path ∧ fs.node q = none ∧ w.node q = some .dir
    have hwritten : ∀ {u w}, J u w →
        u.file = fs.node path ∨ u.file = some (.file (.text contents)) →
        Written pid path contents fs w := by
      rintro _ w ⟨rfl, hd, hf⟩ hu
      refine ⟨?_, hf⟩
      rcases hu with hu | hu
      · exact Or.inl hu
      · exact hd.imp_right fun hd => ⟨hd, hu⟩
    have hstep : ∀ {u w w' e}, WriteOp pid path e.1 → J u w → Fs.env w e w' →
        J (publish (tmpPath pid path) path u e) w' := by
      rintro _ w w' e ho ⟨rfl, hd, hf⟩ he
      refine ⟨(publish_of_env ho hpar he).symm, ?_, fun q hq ht => ?_⟩
      · by_cases hr : e = ⟨.rename (tmpPath pid path) path, .ok ()⟩
        · subst hr
          exact Or.inr (hd.elim (fun hs => hs ▸ he.2.1) id)
        · rwa [ho.node_self hpar he hr]
      · rcases ho.frame_above he hq ht with hn | ⟨hp, hn, hn'⟩
        · rw [hn]
          exact hf q hq ht
        · rcases hf q hq ht with hs | ⟨-, -, hs⟩
          · exact Or.inr ⟨hp, hs ▸ hn, hn'⟩
          · rw [hs] at hn
            cases hn
    have hstart : J ⟨fs.node (tmpPath pid path), fs.node path⟩ fs :=
      ⟨rfl, Or.inl rfl, fun q _ _ => Or.inl rfl⟩
    apply (wp_writeAtomically J (fun hj hu => hI (hwritten hj hu)) hstep hstart).mono
    rintro r w - ⟨u, hj, hu, hok⟩
    refine ⟨hwritten hj hu, fun hr => ?_⟩
    exact (congrArg Published.file hj.1).symm.trans (hok hr)

theorem Written.refl (fs : Fs) : Written pid path contents fs fs :=
  ⟨Or.inl rfl, fun _ _ _ => Or.inl rfl⟩

theorem wp_readOptional_alone {I : Fs → Prop} {Q : Except Error (Option Str) → Fs → Prop}
    (hi : I fs) (hok : ∀ existing, Holds fs path existing → Q (.ok existing) fs)
    (herr : ∀ err, Q (.error err) fs) : Prog.wp Fs.env I (readOptional path).run Q fs := by
  refine ⟨hi, ?_⟩
  rintro x _ ⟨rfl, hx⟩
  refine ⟨hi, ?_⟩
  cases ho : optional path x with
  | error err => exact herr err
  | ok existing => exact hok existing (holds_of_optional hx ho)

theorem wp_writeIfChanged_alone {I : Fs → Prop} (hI : ∀ {u}, Written pid path contents fs u → I u) :
    Prog.wp Fs.env I (writeIfChanged pid path contents).run (fun r u =>
      Written pid path contents fs u ∧ ∀ b, r = .ok b → Holds u path (some contents)) fs := by
  have hi := hI (.refl fs)
  refine Prog.wp_try_bind.mpr (wp_readOptional_alone hi (fun existing hh => ?_) fun err => ?_)
  · by_cases he : existing = some contents
    · simp only [if_pos he]
      exact ⟨hi, Written.refl fs, fun _ _ => he ▸ hh⟩
    · simp only [if_neg he]
      refine Prog.wp_try_bind.mpr ((wp_writeAtomically_alone hI).mono ?_)
      rintro (err | _) u hu ⟨hw, hok⟩
      · exact ⟨hu, hw, nofun⟩
      · exact ⟨hu, hw, fun _ _ => hok rfl⟩
  · exact ⟨hi, Written.refl fs, nofun⟩

theorem wp_still {I : Fs → Prop} {α : Type} {p : Prog Sys α} (h : p.Uses Fs.Still) (hi : I fs) :
    Prog.wp Fs.env I p (fun _ u => u = fs) fs := by
  refine Prog.wp_of_uses (R := fun u v => v = u) (fun _ => rfl) (fun h h' => h'.trans h) ?_ h hi
  intro o r u v ho hu he
  obtain rfl := Fs.eq_of_still ho he
  exact ⟨hu, rfl⟩

end Single

section Alone

variable {P : Option Node → Prop} {s : Published}

theorem WriteCall.wp_run (c : WriteCall) (hc : P (some (.file (.text c.contents))))
    (hs : P s.file) : Prog.wp (publishEnv (tmpPath pid path) path) (fun s => P s.file)
      (c.run pid path) (fun _ s => P s.file) s := by
  have hw : ∀ contents, P (some (.file (.text contents))) →
      Prog.wp (publishEnv (tmpPath pid path) path) (fun s => P s.file)
        (Conf.writeAtomically pid path contents).run (fun _ s => P s.file) s :=
    fun contents hc => by
      refine (wp_writeAtomically (s := s) (fun u w => w = u) ?_ ?_ rfl).mono ?_
      · rintro u _ rfl (hu | hu)
        · rwa [hu]
        · rwa [hu]
      · rintro u _ _ e - rfl rfl
        rfl
      · rintro r w hp -
        exact hp
  cases c with
  | writeAtomically contents =>
    rw [WriteCall.run, Prog.wp_bind]
    exact (hw contents hc).mono fun _ _ _ h => ⟨h, h⟩
  | writeIfChanged contents =>
    rw [WriteCall.run, Prog.wp_bind, Conf.writeIfChanged, Prog.wp_try_bind]
    refine ⟨hs, ?_⟩
    rintro x _ rfl
    refine ⟨hs, ?_⟩
    cases optional path x with
    | error err => exact ⟨hs, hs, hs⟩
    | ok existing =>
      dsimp only
      split
      · exact ⟨hs, hs, hs⟩
      · rw [Prog.wp_try_bind]
        refine (hw contents hc).mono fun r u _ h => ?_
        cases r with
        | ok _ => exact ⟨h, h, h⟩
        | error _ => exact ⟨h, h, h⟩

/-- All that a process renames over the file is the complete contents of one of its calls. -/
theorem Performs.published {cs : List WriteCall} (h : Performs pid path cs t)
    (hc : ∀ c ∈ cs, P (some (.file (.text c.contents)))) (hs : P s.file) :
    P (t.foldl (publish (tmpPath pid path) path) s).file := by
  induction h generalizing s with
  | done => exact hs
  | @crash c t h =>
    have hp := Prog.wp_cut h (c.wp_run (hc c List.mem_cons_self) hs) (runs_publishEnv_iff.mpr rfl)
    exact hp
  | @call c cs t t' h _ ih =>
    rw [List.foldl_append]
    apply ih fun c' h => hc c' (List.mem_cons_of_mem _ h)
    exact Prog.wp_returns h (c.wp_run (hc c List.mem_cons_self) hs) (runs_publishEnv_iff.mpr rfl)

end Alone

section Concurrent

/-- The file is what it was at the start, or the complete contents of a call. -/
def Whole {ι : Type} (calls : ι → List WriteCall) (start n : Option Node) : Prop :=
  n = start ∨ ∃ i, ∃ c ∈ calls i, n = some (.file (.text c.contents))

variable {ι : Type} [DecidableEq ι] {pids : ι → ℕ} {calls : ι → List WriteCall}
  {w w' : List (ι × Event Sys)}

theorem whole_of_shortened (hpid : Function.Injective pids)
    (hpar : path.parent = some parent)
    (hw : ∀ i, ∃ cs, cs <+: calls i ∧ Performs (pids i) path cs (proj i w))
    (hr : Env.Runs Fs.env fs (w.map Prod.snd) fs') :
    Whole calls (fs.node path) (fs'.node path) := by
  -- induction on the steps: the last one is a rename of a complete temporary, or changes nothing
  induction w using List.reverseRecOn generalizing fs' with
  | nil =>
    rw [Env.runs_nil_iff.mp hr]
    exact Or.inl rfl
  | append_singleton w x ih =>
    obtain ⟨i, e⟩ := x
    rw [List.map_append, Env.runs_append_iff] at hr
    obtain ⟨u, hu, hr⟩ := hr
    obtain ⟨v, he, hv⟩ := Env.runs_cons_iff.mp hr
    obtain rfl := Env.runs_nil_iff.mp hv
    have hw' : ∀ j, ∃ cs, cs <+: calls j ∧ Performs (pids j) path cs (proj j w) := by
      intro j
      obtain ⟨cs, hcs, hp⟩ := hw j
      rw [proj_append] at hp
      obtain ⟨cs', hcs', hp'⟩ := hp.shorten (List.prefix_append _ _)
      exact ⟨cs', hcs'.trans hcs, hp'⟩
    have hops : ∀ j e, (j, e) ∈ w → WriterOp (pids j) path e.1 := by
      intro j e hm
      obtain ⟨cs, -, hp⟩ := hw' j
      exact hp.ops e (mem_proj_iff.mpr hm)
    obtain ⟨cs, hcs, hp⟩ := hw i
    rw [proj_append, proj_cons_self, proj_nil] at hp
    have hop := hp.ops e (List.mem_append_right _ (List.mem_singleton_self e))
    by_cases ho : e = ⟨.rename (tmpPath (pids i) path) path, .ok ()⟩
    · subst ho
      have htmp := node_tmpPath_of_runs hpid hpar hops hu i
      have hpub := hp.published (P := Whole calls (fs.node path))
        (s := ⟨fs.node (tmpPath (pids i) path), fs.node path⟩)
        (fun c hc => Or.inr ⟨i, c, hcs.mem hc, rfl⟩) (Or.inl rfl)
      rw [List.foldl_append, List.foldl_cons, List.foldl_nil, publish_rename, foldl_publish_tmp,
        ← htmp] at hpub
      rwa [he.2.2, Function.update_self]
    · have hsame : fs'.node path = u.node path := by
        rcases hop with hop | hop
        · obtain ⟨o, r⟩ := e
          obtain rfl := hop
          exact congrArg (·.node path) he.1
        · exact hop.node_self hpar he ho
      rw [hsame]
      exact ih hw' hu

/-- Whatever processes with different ids write the file, in whatever order their steps come and
wherever each fails or crashes, at every moment the file is what it was at the start or the
complete contents of one of their calls. -/
theorem whole_of_performs (hpid : Function.Injective pids)
    (hw : ∀ i, Performs (pids i) path (calls i) (proj i w)) (hpre : w' <+: w)
    (hr : Env.Runs Fs.env fs (w'.map Prod.snd) fs') :
    Whole calls (fs.node path) (fs'.node path) := by
  have hcut : ∀ i, ∃ cs, cs <+: calls i ∧ Performs (pids i) path cs (proj i w') := by
    intro i
    obtain ⟨v, rfl⟩ := hpre
    have hp := hw i
    rw [proj_append] at hp
    exact hp.shorten (List.prefix_append _ _)
  cases hpar : path.parent with
  | some parent => exact whole_of_shortened hpid hpar hcut hr
  | none =>
    have hroot : path = [] := by simpa [FilePath.parent] using hpar
    rw [hroot, fs.root_dir, fs'.root_dir]
    exact Or.inl rfl

end Concurrent

section Example

def exampleConf : FilePath := FilePath.join [] "robot.conf".toList

def exampleCalls : Bool → List WriteCall
  | true => [.writeAtomically ['a']]
  | false => [.writeAtomically ['b']]

/-- One process crashes before it writes anything, and another replaces the file. -/
theorem whole_after_crash : ∃ fs', Whole exampleCalls (Fs.empty.node exampleConf)
    (fs'.node exampleConf) ∧ Holds fs' exampleConf (some ['b']) := by
  have hpar : exampleConf.parent = some [] := FilePath.parent_join _ _
  obtain ⟨name, hname⟩ := exists_join_of_parent (parent_tmpPath 2 hpar)
  have hb : ['b'] ≠ [] := by simp
  obtain ⟨t, fs', ht, hr, hh, -⟩ := exists_writeAtomically 2 hpar hb
    Fs.empty.root_dir (by simp [exampleConf]) (by simp [hname])
  have hdir : Fs.env Fs.empty ⟨.createDirAll [], .ok ()⟩ Fs.empty :=
    ⟨fun q => Or.inl rfl, fun _ => rfl⟩
  have hpid : Function.Injective fun b : Bool => if b then 1 else 2 := by
    rintro (_ | _) (_ | _) <;> simp
  refine ⟨fs', whole_of_performs (w := (true, ⟨.createDirAll [], .ok ()⟩) :: t.map (Prod.mk false))
    hpid (Bool.forall_bool.mpr ⟨?_, ?_⟩) List.prefix_rfl ?_, hh⟩
  · rw [proj_cons_of_ne (by decide), proj_map_self]
    have hcall : Prog.Returns ((WriteCall.writeAtomically ['b']).run 2 exampleConf) (t ++ []) () :=
      ht.bind (.ret ())
    rw [List.append_nil] at hcall
    exact (List.append_nil t) ▸ .call hcall .done
  · rw [proj_cons_self, proj_map_of_ne _ (by decide)]
    have hcut : Prog.Partial ((WriteCall.writeAtomically ['a']).run 1 exampleConf)
        [⟨.createDirAll [], .ok ()⟩] := .call _ (.nil _)
    exact .crash hcut
  · rw [List.map_cons, map_snd_map_mk]
    exact .cons hdir hr

end Example

end RobotCtl.Conf
