import RobotCtl.Conf.Store

/-! # Writes that fail

An atomic write that fails has not touched the file. Its temporary is another
matter: only the failed rename removes it, so a write that fails once the
temporary is open leaves there what it has written so far.
-/

namespace RobotCtl.Conf

open Sys

variable {pid : ℕ} {path parent : FilePath} {contents : Str} {t : List (Event Sys)}
  {fs fs' : Fs} {err : Error}

/-- What a write that failed should leave: the file as it was, and no temporary. -/
structure LeavesNothing (pid : ℕ) (path : FilePath) (fs fs' : Fs) : Prop where
  file : fs'.node path = fs.node path
  tmp : fs'.isFile (tmpPath pid path) = false

/-- The write failed before it could open the temporary, and found none there; or the rename
failed, and the temporary could be removed. -/
def CleansUp (pid : ℕ) (path : FilePath) (fs : Fs) (t : List (Event Sys)) : Prop :=
  (fs.isFile (tmpPath pid path) = false ∧ ⟨.create (tmpPath pid path), .ok ()⟩ ∉ t) ∨
    ((∃ e, ⟨.rename (tmpPath pid path) path, .error e⟩ ∈ t) ∧
      ⟨.removeFile (tmpPath pid path), .ok ()⟩ ∈ t)

section Temporary

/-- Writing a file opens it, and then does nothing but write to it. -/
theorem returns_writeFile_cases {r : Io Unit} {w : List (Event Sys)}
    (h : Prog.Returns (writeFile path contents) w r) :
    (∃ e, r = .error e ∧ w = [⟨.create path, .error e⟩]) ∨
      ∃ v, w = ⟨.create path, .ok ()⟩ :: v ∧ ∀ e ∈ v, ∃ d, e.1 = .write path d := by
  obtain ⟨x, v, rfl, hv⟩ := Prog.returns_call_iff.mp h
  cases x with
  | error e =>
    obtain ⟨rfl, rfl⟩ := Prog.returns_ret_iff.mp hv
    exact Or.inl ⟨e, rfl, rfl⟩
  | ok u =>
    have huses : (Prog.loop (writeRest path) contents .ret : Prog Sys (Io Unit)).Uses
        fun o => ∃ d, o = SysOp.write path d := by
      refine ⟨fun rest => ?_, fun _ => trivial⟩
      unfold writeRest
      split
      · trivial
      · refine ⟨⟨rest, rfl⟩, ?_⟩
        rintro (e | n)
        · trivial
        · cases n <;> trivial
    exact Or.inr ⟨v, rfl, huses.returns hv⟩

/-- A file that is written to stays a file. -/
theorem foldl_effect_writes {w : List (Event Sys)} {c : Content}
    (hw : ∀ e ∈ w, ∃ d, e.1 = .write path d) :
    ∃ c', w.foldl (Fs.effect path) (some (.file c)) = some (.file c') := by
  induction w generalizing c with
  | nil => exact ⟨c, rfl⟩
  | cons e w ih =>
    obtain ⟨c', hc⟩ : ∃ c', Fs.effect path (some (.file c)) e = some (.file c') := by
      obtain ⟨d, hd⟩ := hw e List.mem_cons_self
      obtain ⟨o, r⟩ := e
      obtain rfl : o = .write path d := hd
      cases r with
      | error err => exact ⟨c, rfl⟩
      | ok k =>
        cases c with
        | text s => exact ⟨_, if_pos rfl⟩
        | binary bytes => exact ⟨_, if_pos rfl⟩
    rw [List.foldl_cons, hc]
    exact ih fun e h => hw e (List.mem_cons_of_mem _ h)

theorem WriteRun.node_tmp {r : Except Error Unit} (h : WriteRun pid path contents t r)
    (hpar : path.parent = some parent) (hr : Env.Runs Fs.env fs t fs') :
    fs'.node (tmpPath pid path) =
      t.foldl (Fs.effect (tmpPath pid path)) (fs.node (tmpPath pid path)) :=
  Fs.node_of_runs hr fun e he => (h.ops e he).local_tmp hpar

end Temporary

/-- After a write that failed there is no temporary, exactly if the write cleaned up. -/
theorem WriteRun.tmp_iff (h : WriteRun pid path contents t (.error err))
    (hr : Env.Runs Fs.env fs t fs') :
    fs'.isFile (tmpPath pid path) = false ↔ CleansUp pid path fs t := by
  have hrun := h
  cases h with
  | noParent err hp =>
    rw [Env.runs_nil_iff.mp hr]
    simp [CleansUp]
  | noDirectory err hp =>
    have hn := hrun.node_tmp hp hr
    simp [CleansUp, Fs.isFile, hn, Fs.effect]
  | @notWritten parent e w err hp hw =>
    have hn := hrun.node_tmp hp hr
    rcases returns_writeFile_cases hw with ⟨e, -, rfl⟩ | ⟨v, rfl, hv⟩
    · simp [CleansUp, Fs.isFile, hn, Fs.effect]
    · -- the temporary was opened, and nothing removes it
      obtain ⟨c, hc⟩ := foldl_effect_writes (c := .text []) hv
      have htmp : fs'.node (tmpPath pid path) = some (.file c) := by
        rw [hn, ← hc]
        simp [Fs.effect]
      constructor
      · intro hf
        simp [Fs.isFile, htmp] at hf
      · rintro (⟨-, hm⟩ | ⟨⟨x, hm⟩, -⟩)
        · simp at hm
        · simp [rename_not_mem_writeFile hw] at hm
  | @notReplaced parent e x w err hp hw =>
    have hn := hrun.node_tmp hp hr
    rw [List.foldl_append, foldl_effect_tmp _ hw] at hn
    obtain ⟨v, rfl⟩ : ∃ v, w = ⟨.create (tmpPath pid path), .ok ()⟩ :: v := by
      rcases returns_writeFile_cases hw with ⟨e, he, -⟩ | ⟨v, hv, -⟩
      · cases he
      · exact ⟨v, hv⟩
    have hremove : ∀ x, ⟨.removeFile (tmpPath pid path), x⟩ ∉ v := by
      intro x hm
      rcases (writeFile_uses _ _).returns hw _ (List.mem_cons_of_mem _ hm) with hc | ⟨d, hc⟩
      · cases hc
      · cases hc
    cases x with
    | ok u => simp [CleansUp, Fs.isFile, hn, Fs.effect]
    | error e => simp [CleansUp, Fs.isFile, hn, Fs.effect, hremove]

/-- A write that failed left the file as it was, and it left no temporary exactly if it cleaned
up. -/
theorem leavesNothing_iff
    (h : Prog.Returns (writeAtomically pid path contents).run t (.error err))
    (hr : Env.Runs Fs.env fs t fs') : LeavesNothing pid path fs fs' ↔ CleansUp pid path fs t := by
  have hrun := writeRun_of_returns h
  rw [← hrun.tmp_iff hr]
  exact ⟨fun hl => hl.tmp, fun htmp => ⟨hrun.unchanged hr, htmp⟩⟩

/-- Each way in which a write can fail is a run of it. -/
theorem WriteRun.exists_returns (h : WriteRun pid path contents t (.error err)) :
    ∃ err', Prog.Returns (writeAtomically pid path contents).run t (.error err') := by
  have hdir : ∀ {parent : FilePath} {x : Io Unit}, Prog.Returns (createDirAll parent)
      [⟨.createDirAll parent, x⟩] x := Prog.returns_perform_iff.mpr rfl
  unfold writeAtomically
  cases h with
  | noParent err hp =>
    rw [hp]
    exact ⟨_, .ret _⟩
  | noDirectory err hp =>
    rw [hp]
    exact ⟨_, Prog.returns_try_bind_iff.mpr (Or.inl ⟨_,
      returns_orFail_error_iff.mpr ⟨_, hdir, rfl⟩, rfl⟩)⟩
  | @notWritten parent e w err hp hw =>
    rw [hp]
    refine ⟨("writing ".toList ++ (tmpPath pid path).display) ::
      annotatePermission e (tmpPath pid path), ?_⟩
    refine Prog.Returns.try_bind (t := [_]) (returns_orFail_ok_iff.mpr hdir) ?_
    refine Prog.returns_try_bind_iff.mpr (Or.inl ⟨_, ?_, rfl⟩)
    exact returns_orFail_error_iff.mpr ⟨e, hw, rfl⟩
  | @notReplaced parent e x w err hp hw =>
    rw [hp]
    refine ⟨["replacing ".toList ++ path.display, e.text], ?_⟩
    refine Prog.Returns.try_bind (t := [_]) (returns_orFail_ok_iff.mpr hdir) ?_
    refine Prog.Returns.try_bind (returns_orFail_ok_iff.mpr hw) ?_
    have hreplace : Prog.Returns (replace (tmpPath pid path) path)
        [⟨.rename (tmpPath pid path) path, .error e⟩, ⟨.removeFile (tmpPath pid path), x⟩]
        (.error e) := .call _ (.call _ (.ret _))
    exact returns_orFail_error_iff.mpr ⟨e, hreplace, rfl⟩

section Example

def robotConf : FilePath := FilePath.join [] "robot.conf".toList

theorem robotConf_parent : robotConf.parent = some [] := FilePath.parent_join _ _

/-- The temporary next to a file whose directory exists can be opened. -/
theorem exists_opened (pid : ℕ) (hpar : path.parent = some parent)
    (hd : fs.node parent = some .dir) (ht : fs.node (tmpPath pid path) ≠ some .dir) :
    ∃ fs', Fs.env fs ⟨.createDirAll parent, .ok ()⟩ fs ∧
      Fs.env fs ⟨.create (tmpPath pid path), .ok ()⟩ fs' ∧
      fs'.node (tmpPath pid path) = some (.file (.text [])) := by
  obtain ⟨name, hname⟩ := exists_join_of_parent (parent_tmpPath pid hpar)
  rw [hname] at ht ⊢
  obtain ⟨fs', hcreate, hn⟩ := Fs.exists_create hd ht
  refine ⟨fs', ⟨fun q => Or.inl rfl, fun _ => hd⟩, hcreate, ?_⟩
  rw [hn, Function.update_self]

/-- A rename fails, and the temporary is removed. -/
theorem leavesNothing_after_rename : ∃ t fs' err,
    Prog.Returns (writeAtomically 1 robotConf ['a']).run t (.error err) ∧
      Env.Runs Fs.env Fs.empty t fs' ∧ LeavesNothing 1 robotConf Fs.empty fs' := by
  have hw : Prog.Returns (writeFile (tmpPath 1 robotConf) ['a']) _ _ :=
    returns_writeFile_once (List.cons_ne_nil 'a' [])
  have hrun := WriteRun.notReplaced (e := ⟨.other, []⟩) (x := .ok ()) [] robotConf_parent hw
  obtain ⟨err, hret⟩ := hrun.exists_returns
  obtain ⟨name, hname⟩ := exists_join_of_parent (parent_tmpPath 1 robotConf_parent)
  obtain ⟨fs₁, hdir, hcreate, hn⟩ :=
    exists_opened 1 robotConf_parent Fs.empty.root_dir (by simp [hname])
  obtain ⟨fs₂, hwrite, hn₂⟩ := Fs.exists_write (d := ['a']) (hname ▸ hn)
  rw [← hname] at hwrite hn₂
  have hfile : fs₂.isFile (tmpPath 1 robotConf) = true := by
    rw [Fs.isFile, hn₂, Function.update_self]
  have hrename : Fs.env fs₂ ⟨.rename (tmpPath 1 robotConf) robotConf, .error ⟨.other, []⟩⟩ fs₂ :=
    rfl
  have hremove : Fs.env fs₂ ⟨.removeFile (tmpPath 1 robotConf), .ok ()⟩ (fs₂.erase _ hfile) :=
    ⟨hfile, rfl⟩
  have hr := Env.runs_append_iff.mpr ⟨fs₂, .cons hdir (.cons hcreate (.cons hwrite (.nil _))),
    .cons hrename (.cons hremove (.nil _))⟩
  exact ⟨_, _, err, hret, hr, (leavesNothing_iff hret hr).mpr (Or.inr (by simp))⟩

/-- The disk is full once the temporary is open. -/
theorem not_leavesNothing : ∃ t fs' err,
    Prog.Returns (writeAtomically 1 robotConf ['a']).run t (.error err) ∧
      Env.Runs Fs.env Fs.empty t fs' ∧ ¬ LeavesNothing 1 robotConf Fs.empty fs' := by
  have hw : Prog.Returns (writeFile (tmpPath 1 robotConf) ['a'])
      [⟨.create (tmpPath 1 robotConf), .ok ()⟩,
        ⟨.write (tmpPath 1 robotConf) ['a'], .error ⟨.other, "disk full".toList⟩⟩]
      (.error ⟨.other, "disk full".toList⟩) :=
    .call _ (.exit (t := [_]) (.call _ (.ret _)) (.ret _))
  have hrun := WriteRun.notWritten [] robotConf_parent hw
  obtain ⟨err, hret⟩ := hrun.exists_returns
  obtain ⟨name, hname⟩ := exists_join_of_parent (parent_tmpPath 1 robotConf_parent)
  obtain ⟨fs', hdir, hcreate, hn⟩ :=
    exists_opened 1 robotConf_parent Fs.empty.root_dir (by simp [hname])
  refine ⟨_, fs', err, hret, .cons hdir (.cons hcreate (.cons rfl (.nil _))), fun hl => ?_⟩
  have htmp := hl.tmp
  rw [Fs.isFile, hn] at htmp
  cases htmp

end Example

end RobotCtl.Conf
