import RobotCtl.Identity.Settings
import RobotCtl.Library.Grouping

/-! # The identity as a record

Started without a file, `robot.conf` is a record of the settings: one line for
each key that was set, in the order in which the keys were first set, with the
value set last. Loading it gives back the last value of each field.
-/

namespace RobotCtl.Identity

open Text Conf Grouping

variable {paths : Paths} {settings : List Setting} {s : Setting} {key : Str} {fs fs' : Fs}

namespace Setting

end Setting

/-- The keys that were set, in the order in which they were first set. -/
def keysSet (settings : List Setting) : List Str := (settings.map Setting.key).eraseDups

/-- The value that was last set for a key. -/
def lastSet (settings : List Setting) (key : Str) : Option Str :=
  (settings.filterMap fun s => if s.key = key then some s.value else none).getLast?

def recordLine (settings : List Setting) (key : Str) : Str :=
  key ++ ['='] ++ (lastSet settings key).getD []

def recordLines (settings : List Setting) : List Str :=
  (keysSet settings).map (recordLine settings)

/-- The file that is the record of the settings, or no file if nothing was set. -/
def recordText (settings : List Setting) : Option Str :=
  if settings = [] then none else some (joinLines (recordLines settings))

theorem lastSet_concat (settings : List Setting) (s : Setting) (key : Str) :
    lastSet (settings ++ [s]) key = if key = s.key then some s.value else lastSet settings key := by
  unfold lastSet
  by_cases h : key = s.key
  · simp [h]
  · simp [h, Ne.symm h]

theorem keysSet_concat (settings : List Setting) (s : Setting) : keysSet (settings ++ [s]) =
    if s.key ∈ keysSet settings then keysSet settings else keysSet settings ++ [s.key] := by
  simp only [keysSet, List.map_append, List.map_singleton, eraseDups_concat, List.mem_eraseDups]

/-- What was last set for a key is the value of one of the settings. -/
theorem exists_lastSet (h : key ∈ keysSet settings) :
    ∃ s ∈ settings, s.key = key ∧ lastSet settings key = some s.value := by
  induction settings using List.reverseRecOn with
  | nil => cases h
  | append_singleton settings s ih =>
    rw [lastSet_concat]
    by_cases hk : key = s.key
    · exact ⟨s, by simp, hk.symm, if_pos hk⟩
    · have hm : key ∈ keysSet settings := by
        rw [keysSet_concat] at h
        split at h
        · exact h
        · simpa [hk] using h
      obtain ⟨u, hu, hkey, hv⟩ := ih hm
      exact ⟨u, List.mem_append_left _ hu, hkey, by rw [if_neg hk, hv]⟩

theorem recordLine_eq (settings : List Setting) (key : Str) :
    recordLine settings key = assignPrefix key ++ (lastSet settings key).getD [] := rfl

theorem exists_recordLine (h : key ∈ keysSet settings) :
    ∃ s ∈ settings, s.key = key ∧ recordLine settings key = assignPrefix s.key ++ s.value := by
  obtain ⟨s, hs, rfl, hv⟩ := exists_lastSet h
  exact ⟨s, hs, rfl, by rw [recordLine_eq, hv, Option.getD_some]⟩

theorem isKey_of_mem_keysSet (h : key ∈ keysSet settings) : IsKey key := by
  obtain ⟨s, -, rfl, -⟩ := exists_lastSet h
  exact s.isKey

/-- Every character of a line of the record is visible. -/
theorem visible_recordLine (h : key ∈ keysSet settings) :
    ∀ c ∈ recordLine settings key, isWhitespace c = false := by
  obtain ⟨s, -, -, hl⟩ := exists_recordLine h
  rw [hl]
  exact List.forall_mem_append.mpr ⟨s.isKey.visible_prefix, s.plain.visible⟩

theorem not_mem_recordLines {c : Char} (hc : isWhitespace c = true) :
    ∀ l ∈ recordLines settings, c ∉ l := by
  intro l hl hm
  obtain ⟨key, hkey, rfl⟩ := List.mem_map.mp hl
  rw [visible_recordLine hkey c hm] at hc
  cases hc

theorem lines_recordLines (settings : List Setting) :
    lines (joinLines (recordLines settings)) = recordLines settings := by
  rw [lines_joinLines (not_mem_recordLines (by decide))]
  apply map_eq_self_iff.mpr
  intro l hl
  exact stripCr_eq_self (not_mem_recordLines (by decide) l hl)

/-- The writer recognises the line of a key, and no other line of the record. -/
theorem startsWithKey_recordLine (hk : IsKey key) {key' : Str} (h : key' ∈ keysSet settings) :
    startsWithKey key (recordLine settings key') = decide (key' = key) := by
  by_cases he : key' = key
  · subst he
    rw [decide_eq_true rfl]
    exact startsWithKey_assignment
  · rw [decide_eq_false he, Bool.eq_false_iff]
    intro hs
    exact he (eq_of_assignPrefix (isKey_of_mem_keysSet h) hk (List.prefix_append _ _)
      (startsWithKey_iff.mp hs))

theorem recordLine_concat (settings : List Setting) (s : Setting) (key : Str) :
    recordLine (settings ++ [s]) key =
      if key = s.key then assignPrefix s.key ++ s.value else recordLine settings key := by
  rw [recordLine_eq, recordLine_eq, lastSet_concat]
  split
  · next h => rw [h, Option.getD_some]
  · rfl

/-- Setting one more value replaces the line of its key, or adds it at the end. -/
theorem recordLines_concat (settings : List Setting) (s : Setting) :
    recordLines (settings ++ [s]) =
      replacedLines (startsWithKey s.key) (assignPrefix s.key ++ s.value)
        (recordLines settings) := by
  have hmap : (keysSet settings).map (recordLine (settings ++ [s])) =
      (recordLines settings).map fun l =>
        if startsWithKey s.key l then assignPrefix s.key ++ s.value else l := by
    rw [recordLines, List.map_map]
    apply List.map_congr_left
    intro key hkey
    simp only [recordLine_concat, Function.comp_apply, startsWithKey_recordLine s.isKey hkey,
      decide_eq_true_eq]
  have hany : (recordLines settings).any (startsWithKey s.key) =
      decide (s.key ∈ keysSet settings) := by
    rw [Bool.eq_iff_iff, List.any_eq_true, decide_eq_true_eq]
    constructor
    · rintro ⟨l, hl, hs⟩
      obtain ⟨key, hkey, rfl⟩ := List.mem_map.mp hl
      rw [startsWithKey_recordLine s.isKey hkey, decide_eq_true_eq] at hs
      exact hs ▸ hkey
    · intro h
      refine ⟨_, List.mem_map.mpr ⟨s.key, h, rfl⟩, ?_⟩
      rw [startsWithKey_recordLine s.isKey h, decide_eq_true rfl]
  rw [replacedLines, hany, ← hmap, recordLines, keysSet_concat]
  by_cases h : s.key ∈ keysSet settings
  · simp [h]
  · simp [h, recordLine_concat]

/-- One more update turns the record into the record of one more setting. -/
theorem recordText_concat (settings : List Setting) (s : Setting) :
    recordText (settings ++ [s]) = some (upsertKey (recordText settings) s.key s.value) := by
  have hne : settings ++ [s] ≠ [] := by simp
  rw [recordText, if_neg hne, recordLines_concat, recordText]
  by_cases h : settings = []
  · subst h
    rw [if_pos rfl, upsertKey_none]
    rfl
  · rw [if_neg h, upsertKey, replaceLines_eq, lines_recordLines]

/-- A sequence of updates of `robot.conf`, with the values that were set. An update that fails
sets nothing, and anything may happen in between that leaves the file alone. -/
inductive Updates (paths : Paths) (fs : Fs) : List Setting → Fs → Prop
  | nil : Updates paths fs [] fs
  | set {settings : List Setting} {pid : ℕ} {s : Setting} {t : List (Event Sys)} {fs' fs'' : Fs} :
      Updates paths fs settings fs' → Prog.Returns (s.set pid paths).run t (.ok ()) →
      Env.Runs Fs.env fs' t fs'' → Updates paths fs (settings ++ [s]) fs''
  | failed {settings : List Setting} {pid : ℕ} {s : Setting} {t : List (Event Sys)}
      {fs' fs'' : Fs} {err : Error} :
      Updates paths fs settings fs' → Prog.Returns (s.set pid paths).run t (.error err) →
      Env.Runs Fs.env fs' t fs'' → Updates paths fs settings fs''
  | other {settings : List Setting} {fs' fs'' : Fs} : Updates paths fs settings fs' →
      fs''.node paths.robotConf = fs'.node paths.robotConf → Updates paths fs settings fs''

/-- After any updates the file is the record of what was set. -/
theorem Updates.holds (h : Updates paths fs settings fs') (h₀ : Holds fs paths.robotConf none) :
    Holds fs' paths.robotConf (recordText settings) := by
  induction h with
  | nil => exact h₀
  | @set settings pid s t fs' fs'' _ hs hr ih =>
    obtain ⟨existing, he, hw⟩ := holds_of_setKey hs hr
    rw [recordText_concat, holds_inj ih he]
    exact hw
  | failed _ hs hr ih => exact (unchanged_of_setKey hs hr).trans ih
  | other _ hn ih => exact hn.trans ih

section Example

end Example

end RobotCtl.Identity
