import RobotCtl.Identity.Hosts

/-! # Renaming a robot in its hosts file

The hosts file belongs to the system. A rename writes the entries of the local
address and no other line: each entry becomes the entry of the new robot ID in
its place, or one is added at the end. So entries never accumulate, and none
has an earlier robot ID.
-/

namespace RobotCtl.Identity

open Text

/-- The lines of a hosts file, compared without carriage returns at their ends. -/
def hostsLines (text : Str) : List Str := (lines text).map trimReturns

def entryCount (text : Str) : ℕ := (hostsLines text).countP isEntry

/-- What a rename does to a hosts file. -/
structure Renamed (robotId : RobotId) (text text' : Str) : Prop where
  terminated : text'.getLast? = some '\n'
  kept : (hostsLines text').filter (!isEntry ·) = (hostsLines text).filter (!isEntry ·)
  entries : ∀ l ∈ hostsLines text', isEntry l = true → l = hostsEntry robotId
  places : (∃ l ∈ hostsLines text, isEntry l = true) →
    (hostsLines text').map isEntry = (hostsLines text).map isEntry
  added : (∀ l ∈ hostsLines text, isEntry l = false) →
    hostsLines text' = hostsLines text ++ [hostsEntry robotId]

/-- Renames one after another. -/
def renameAll (text : Str) (robotIds : List RobotId) : Str :=
  robotIds.foldl (fun text robotId => renderHostsFile (some text) robotId) text

theorem isEntry_concat_cr (l : Str) : isEntry (l ++ ['\r']) = isEntry l := by
  rw [← isEntry_stripCr (l ++ ['\r']), stripCr_concat]

theorem trimReturns_hostsEntry (robotId : RobotId) :
    trimReturns (hostsEntry robotId) = hostsEntry robotId :=
  trimReturns_eq_self (not_mem_hostsEntry robotId (by decide) (by decide))

/-- The lines after a rename are the lines before it with the entries replaced. -/
theorem hostsLines_renderHostsFile (text : Str) (robotId : RobotId) :
    hostsLines (renderHostsFile (some text) robotId) =
      replacedLines isEntry (hostsEntry robotId) (hostsLines text) := by
  have hcr : ∀ ls : List Str, (ls.map stripCr).map trimReturns = ls.map trimReturns := by
    intro ls
    rw [List.map_map]
    exact List.map_congr_left fun l _ => trimReturns_stripCr l
  rw [hostsLines, renderHostsFile_some, lines_replaceLines _ (newline_not_mem_hostsEntry robotId),
    hcr, map_replacedLines (apply_trimReturns isEntry_concat_cr)
      (trimReturns_hostsEntry robotId), hostsLines]

theorem renamed_renderHostsFile (text : Str) (robotId : RobotId) :
    Renamed robotId text (renderHostsFile (some text) robotId) where
  terminated := by
    rw [renderHostsFile_some, replaceLines_eq]
    exact joinLines_getLast? (replacedLines_ne_nil _)
  kept := by
    rw [hostsLines_renderHostsFile]
    exact filter_replacedLines (isEntry_hostsEntry robotId) _
  entries := by
    rw [hostsLines_renderHostsFile]
    intro l hl he
    rcases mem_replacedLines hl with rfl | ⟨-, hn⟩
    · rfl
    · rw [hn] at he; cases he
  places := by
    intro h
    rw [hostsLines_renderHostsFile]
    exact map_isEntry_replacedLines (isEntry_hostsEntry robotId) (List.any_eq_true.mpr h)
  added := by
    intro h
    rw [hostsLines_renderHostsFile]
    exact replacedLines_of_not_any (List.any_eq_false.mpr fun l hl => by simp [h l hl])

theorem entryCount_renderHostsFile (text : Str) (robotId : RobotId) :
    entryCount (renderHostsFile (some text) robotId) = max 1 (entryCount text) := by
  rw [entryCount, hostsLines_renderHostsFile]
  exact countP_replacedLines (isEntry_hostsEntry robotId) _

theorem renameAll_concat (text : Str) (robotIds : List RobotId) (robotId : RobotId) :
    renameAll text (robotIds ++ [robotId]) =
      renderHostsFile (some (renameAll text robotIds)) robotId := by
  simp [renameAll]

theorem entryCount_renameAll_le (text : Str) (robotIds : List RobotId) :
    entryCount (renameAll text robotIds) ≤ max 1 (entryCount text) := by
  induction robotIds using List.reverseRecOn with
  | nil => exact le_max_right _ _
  | append_singleton robotIds robotId ih =>
    rw [renameAll_concat, entryCount_renderHostsFile]
    exact max_le (le_max_left _ _) ih

/-- A rename changes the entries of the local address only, and after any renames there are no
more of them than one or than there were, all with the last robot ID. -/
theorem renames_replace_entries (text : Str) :
    (∀ robotId : RobotId, Renamed robotId text (renderHostsFile (some text) robotId)) ∧
      ∀ robotIds : List RobotId,
        entryCount (renameAll text robotIds) ≤ max 1 (entryCount text) ∧
        ∀ robotId ∈ robotIds.getLast?, ∀ l ∈ hostsLines (renameAll text robotIds),
          isEntry l = true → l = hostsEntry robotId := by
  refine ⟨renamed_renderHostsFile text, fun robotIds =>
    ⟨entryCount_renameAll_le text robotIds, fun robotId hlast => ?_⟩⟩
  obtain ⟨earlier, rfl⟩ := List.getLast?_eq_some_iff.mp hlast
  rw [renameAll_concat]
  exact (renamed_renderHostsFile _ robotId).entries

/-- Two entries, one with an alias, around an address that only looks like one. -/
example : renameAll "127.0.1.1 a b\r\n127.0.1.10 c\n127.0.1.1\ta".toList [idB, idB] =
    "127.0.1.1\tb\n127.0.1.10 c\n127.0.1.1\tb\n".toList := by decide

end RobotCtl.Identity
