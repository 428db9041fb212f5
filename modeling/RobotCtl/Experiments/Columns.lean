import RobotCtl.Experiments.Listing

/-! # Columns of a table

The columns of a printed table start where its header line says. Cells that fit
into their columns and end with no whitespace are cut apart where they were put
together, so that a table is read back from its output as it was.
-/

namespace RobotCtl.Experiments

open Text

section Columns

/-- The widths of all columns but the last, from the line that has their headers. -/
def columnWidths : List Str → Str → List ℕ
  | header :: next :: rest, line =>
    let after := line.drop header.length
    let gap := (after.takeWhile (· == ' ')).length
    (header.length + gap - 2) :: columnWidths (next :: rest) (after.drop gap)
  | _, _ => []

/-- The cells of a line, whose last one is as wide as it likes. -/
def cutLine : List ℕ → Str → List Str
  | [], line => [line]
  | width :: widths, line => trimEnd (line.take width) :: cutLine widths (line.drop (width + 2))

/-- The cells fit into columns of these widths, and end with no whitespace. -/
inductive Fits : List ℕ → List Str → Prop
  | last (cell : Str) : Fits [] [cell]
  | cons {width : ℕ} {widths : List ℕ} {cell : Str} {cells : List Str} : cell.length ≤ width →
      trimEnd cell = cell → Fits widths cells → Fits (width :: widths) (cell :: cells)

variable {ws : List ℕ} {cells titles : List Str} {rows : List (List Str)} {width : ℕ} {cell : Str}

theorem trimEnd_append_spaces (s : Str) (n : ℕ) :
    trimEnd (s ++ List.replicate n ' ') = trimEnd s := by
  induction n with
  | zero => rw [List.replicate_zero, List.append_nil]
  | succ n ih =>
    rw [List.replicate_succ', ← List.append_assoc, ← ih]
    exact List.rdropWhile_concat_pos _ _ _ (by decide)

theorem padded_cons (h : Fits ws cells) (last : ℕ) :
    padded (width :: (ws ++ [last])) (cell :: cells) =
      cell ++ List.replicate (width - cell.length + 2) ' ' ++ padded (ws ++ [last]) cells := by
  rw [List.replicate_add, ← List.append_assoc]
  cases h <;> rfl

/-- Padded cells are cut apart where they were put together. -/
theorem cutLine_padded (h : Fits ws cells) (last : ℕ) :
    cutLine ws (padded (ws ++ [last]) cells) = cells := by
  induction h with
  | last cell => rfl
  | @cons width ws cell cells hl ht h ih =>
    rw [List.cons_append, padded_cons h, cutLine, List.replicate_add, ← List.append_assoc]
    have hw : (cell ++ List.replicate (width - cell.length) ' ').length = width := by
      rw [List.length_append, List.length_replicate]
      exact Nat.add_sub_cancel' hl
    have htake := trimEnd_append_spaces cell (width - cell.length)
    rw [List.append_assoc, List.take_left' hw, htake, ht, ← List.append_assoc,
      List.drop_left' (by rw [List.length_append, hw, List.length_replicate]), ih]

/-- The header line tells the widths, if no header starts with a space. -/
theorem columnWidths_padded (h : Fits ws titles) (hh : ∀ c ∈ titles, ∃ first rest,
    c = first :: rest ∧ first ≠ ' ') (last : ℕ) :
    columnWidths titles (padded (ws ++ [last]) titles) = ws := by
  induction h with
  | last cell => rfl
  | @cons width ws cell cells hl ht h ih =>
    obtain ⟨-, hh⟩ := List.forall_mem_cons.mp hh
    obtain ⟨next, rest, rfl⟩ : ∃ next rest, cells = next :: rest := by cases h <;> exact ⟨_, _, rfl⟩
    obtain ⟨first, more, hnext, hfirst⟩ := hh next List.mem_cons_self
    obtain ⟨line, hline⟩ : ∃ line, padded (ws ++ [last]) (next :: rest) = first :: line := by
      cases h with
      | last cell => exact ⟨more, hnext⟩
      | cons hl ht h => exact ⟨_, by rw [List.cons_append, padded_cons h, hnext]; rfl⟩
    rw [List.cons_append, padded_cons h, columnWidths, List.append_assoc, List.drop_left]
    have hgap : (List.replicate (width - cell.length + 2) ' ' ++
        padded (ws ++ [last]) (next :: rest)).takeWhile (· == ' ') =
          List.replicate (width - cell.length + 2) ' ' := by
      rw [List.takeWhile_append_of_pos (by simp), hline,
        List.takeWhile_cons_of_neg (by simpa using hfirst), List.append_nil]
    rw [hgap, List.length_replicate, List.drop_left' (by simp), ih hh]
    congr 1
    omega

/-- No cell is wider than its column. -/
def Wide (cells : List Str) (ws : List ℕ) : Prop :=
  List.Forall₂ (fun cell width => cell.length ≤ width) cells ws

/-- The widths after one more row. -/
def widen (ws : List ℕ) (row : List Str) : List ℕ :=
  List.zipWith (fun width cell => max width cell.length) ws row

theorem length_widen {row : List Str} (hw : row.length = ws.length) :
    (widen ws row).length = ws.length := by
  rw [widen, List.length_zipWith, hw, min_self]

theorem Wide.widen {row : List Str} (h : Wide cells ws) (hw : row.length = ws.length) :
    Wide cells (widen ws row) := by
  induction h generalizing row with
  | nil => rw [List.length_eq_zero_iff.mp hw]; exact .nil
  | cons hl _ ih =>
    cases row with
    | nil => cases hw
    | cons c row => exact .cons (hl.trans (le_max_left ..)) (ih (Nat.succ.inj hw))

theorem wide_widen {row : List Str} (hw : row.length = ws.length) : Wide row (widen ws row) := by
  induction ws generalizing row with
  | nil => rw [List.length_eq_zero_iff.mp hw]; exact .nil
  | cons w ws ih =>
    cases row with
    | nil => cases hw
    | cons c row => exact .cons (le_max_right ..) (ih (Nat.succ.inj hw))

theorem Wide.foldl_widen (h : Wide cells ws) (hr : ∀ row ∈ rows, row.length = ws.length) :
    Wide cells (rows.foldl Experiments.widen ws) := by
  induction rows generalizing ws with
  | nil => exact h
  | cons row rows ih =>
    obtain ⟨hw, hr⟩ := List.forall_mem_cons.mp hr
    refine ih (h.widen hw) fun r hm => ?_
    rw [hr r hm, length_widen hw]

theorem wide_foldl_widen (hr : ∀ row ∈ rows, row.length = ws.length) :
    ∀ row ∈ rows, Wide row (rows.foldl widen ws) := by
  induction rows generalizing ws with
  | nil => exact nofun
  | cons row rows ih =>
    obtain ⟨hw, hr⟩ := List.forall_mem_cons.mp hr
    have hr' : ∀ r ∈ rows, r.length = (widen ws row).length := fun r hm => by
      rw [hr r hm, length_widen hw]
    exact List.forall_mem_cons.mpr ⟨(wide_widen hw).foldl_widen hr', ih hr'⟩

theorem length_le_utf8Len (s : Str) : s.length ≤ utf8Len s := by
  induction s with
  | nil => exact le_rfl
  | cons c s ih =>
    rw [List.length_cons, utf8Len_cons, Nat.add_comm]
    exact Nat.add_le_add c.utf8Size_pos ih

/-- The header and the rows are no wider than the columns. -/
theorem wide_widths (hr : ∀ row ∈ rows, row.length = titles.length) :
    ∀ row ∈ titles :: rows, Wide row (widths titles rows) := by
  have hl : ∀ row ∈ rows, row.length = (titles.map utf8Len).length := by simpa using hr
  have ht : Wide titles (titles.map utf8Len) := by
    refine List.forall₂_map_right_iff.mpr (List.forall₂_same.mpr fun title _ => ?_)
    exact length_le_utf8Len title
  exact List.forall_mem_cons.mpr ⟨ht.foldl_widen hl, wide_foldl_widen hl⟩

theorem Wide.fits {last : ℕ} (h : Wide cells (ws ++ [last])) (ht : ∀ c ∈ cells, trimEnd c = c) :
    Fits ws cells := by
  induction ws generalizing cells with
  | nil =>
    obtain ⟨c, rest, -, hrest, rfl⟩ := List.forall₂_cons_right_iff.mp h
    rw [List.forall₂_nil_right_iff.mp hrest]
    exact .last c
  | cons w ws ih =>
    obtain ⟨c, rest, hc, hrest, rfl⟩ := List.forall₂_cons_right_iff.mp h
    obtain ⟨hct, ht⟩ := List.forall_mem_cons.mp ht
    exact .cons hc hct (ih hrest ht)

theorem trimEnd_append_self {a b : Str} (hn : b ≠ []) (ht : trimEnd b = b) :
    trimEnd (a ++ b) = a ++ b := by
  rw [trimEnd, List.rdropWhile_eq_self_iff] at ht ⊢
  intro _
  rw [List.getLast_append_of_ne_nil _ hn]
  exact ht hn

/-- A line ends with its last cell, so that there is nothing to trim. -/
theorem Fits.trimEnd_padded (h : Fits ws cells) (hn : ∀ c ∈ cells, c ≠ [])
    (ht : ∀ c ∈ cells, trimEnd c = c) (last : ℕ) : padded (ws ++ [last]) cells ≠ [] ∧
      trimEnd (padded (ws ++ [last]) cells) = padded (ws ++ [last]) cells := by
  induction h with
  | last c => exact ⟨hn c List.mem_cons_self, ht c List.mem_cons_self⟩
  | cons hl hc h ih =>
    obtain ⟨ihn, iht⟩ := ih (List.forall_mem_of_forall_mem_cons hn)
      (List.forall_mem_of_forall_mem_cons ht)
    rw [List.cons_append, padded_cons h]
    exact ⟨List.append_ne_nil_of_right_ne_nil _ ihn, trimEnd_append_self ihn iht⟩

theorem stripCr_of_trimEnd {s : Str} (h : trimEnd s = s) : stripCr s = s := by
  rw [stripCr_eq_self_iff]
  intro hl
  rw [trimEnd, List.rdropWhile_eq_self_iff] at h
  have hn : s ≠ [] := by rintro rfl; cases hl
  rw [List.getLast?_eq_some_getLast hn, Option.some.injEq] at hl
  exact h hn (by rw [hl]; decide)

theorem Fits.newline_not_mem (h : Fits ws cells) (hn : ∀ c ∈ cells, '\n' ∉ c) (last : ℕ) :
    '\n' ∉ padded (ws ++ [last]) cells := by
  induction h with
  | last c => exact hn c List.mem_cons_self
  | cons hl ht h ih =>
    obtain ⟨hc, hn⟩ := List.forall_mem_cons.mp hn
    rw [List.cons_append, padded_cons h]
    simp [hc, ih hn]

end Columns

section Rows

/-- A cell that can be read back. -/
structure IsCell (cell : Str) : Prop where
  ne_nil : cell ≠ []
  trimmed : trimEnd cell = cell
  no_newline : '\n' ∉ cell

def Row.ofCells : List Str → Option Row
  | [name, enabled, configured, available] => some ⟨name, enabled, configured, available⟩
  | _ => none

/-- The rows that the output of a listing shows. -/
def readTable (text : Str) : List Row :=
  match lines text with
  | [] => []
  | header :: body => body.filterMap fun line =>
      Row.ofCells (cutLine (columnWidths ["NAME".toList, "ENABLED".toList, "CONFIGURED".toList,
        "AVAILABLE PROFILES".toList] header) line)

theorem isCell_headers : ∀ c ∈ headers, IsCell c := by
  intro c hc
  have hd : ∀ c ∈ headers, c ≠ [] ∧ trimEnd c = c ∧ '\n' ∉ c := by decide
  obtain ⟨h₁, h₂, h₃⟩ := hd c hc
  exact ⟨h₁, h₂, h₃⟩

variable {rows : List Row} {ws : List ℕ} {last : ℕ}

/-- All lines of a table have the same columns. -/
theorem exists_columns (h : ∀ cells ∈ headers :: rows.map Row.cells, ∀ c ∈ cells, IsCell c) :
    ∃ ws last, widths headers (rows.map Row.cells) = ws ++ [last] ∧
      ∀ cells ∈ headers :: rows.map Row.cells, Fits ws cells := by
  have hwide : ∀ cells ∈ headers :: rows.map Row.cells,
      Wide cells (widths headers (rows.map Row.cells)) :=
    wide_widths (List.forall_mem_map.mpr fun _ _ => rfl)
  obtain ⟨ws, last, hws⟩ : ∃ ws last, widths headers (rows.map Row.cells) = ws ++ [last] := by
    refine (List.eq_nil_or_concat' _).resolve_left fun hn => ?_
    have hl := (hwide headers List.mem_cons_self).length_eq
    rw [hn] at hl
    cases hl
  rw [hws] at hwide
  exact ⟨ws, last, hws, fun cells hm => (hwide cells hm).fits fun c hc => (h cells hm c hc).trimmed⟩

/-- The lines of a table are its padded cells, as they are. -/
theorem lines_tableLines (h : ∀ cells ∈ headers :: rows.map Row.cells, ∀ c ∈ cells, IsCell c)
    (hws : widths headers (rows.map Row.cells) = ws ++ [last])
    (hfits : ∀ cells ∈ headers :: rows.map Row.cells, Fits ws cells) :
    lines (joinLines (tableLines rows)) =
      (headers :: rows.map Row.cells).map (padded (ws ++ [last])) := by
  have htrim : ∀ cells ∈ headers :: rows.map Row.cells,
      trimEnd (padded (ws ++ [last]) cells) = padded (ws ++ [last]) cells := fun cells hm =>
    ((hfits cells hm).trimEnd_padded (fun c hc => (h cells hm c hc).ne_nil)
      (fun c hc => (h cells hm c hc).trimmed) last).2
  have hline : (headers :: rows.map Row.cells).map (tableLine (ws ++ [last])) =
      (headers :: rows.map Row.cells).map (padded (ws ++ [last])) := List.map_congr_left htrim
  rw [tableLines, hws, hline, lines_joinLines]
  · rw [List.map_map]
    exact List.map_congr_left fun cells hm => stripCr_of_trimEnd (htrim cells hm)
  · refine List.forall_mem_map.mpr fun cells hm => ?_
    exact (hfits cells hm).newline_not_mem (fun c hc => (h cells hm c hc).no_newline) last

/-- A printed table is read back as it was. -/
theorem readTable_tableLines (h : ∀ row ∈ rows, ∀ c ∈ row.cells, IsCell c) :
    readTable (joinLines (tableLines rows)) = rows := by
  have hcells : ∀ cells ∈ headers :: rows.map Row.cells, ∀ c ∈ cells, IsCell c :=
    List.forall_mem_cons.mpr ⟨isCell_headers, List.forall_mem_map.mpr h⟩
  obtain ⟨ws, last, hws, hfits⟩ := exists_columns hcells
  have hstart : ∀ c ∈ headers, ∃ first rest, c = first :: rest ∧ first ≠ ' ' := by
    simp only [headers, List.forall_mem_cons]
    exact ⟨⟨_, _, rfl, by decide⟩, ⟨_, _, rfl, by decide⟩, ⟨_, _, rfl, by decide⟩,
      ⟨_, _, rfl, by decide⟩, nofun⟩
  obtain ⟨hheader, hrows⟩ := List.forall_mem_cons.mp hfits
  rw [readTable, lines_tableLines hcells hws hfits, List.map_cons]
  have hcolumns := columnWidths_padded hheader hstart last
  rw [headers] at hcolumns
  simp only [headers, hcolumns]
  rw [List.map_map, List.filterMap_map]
  refine Eq.trans (List.filterMap_congr fun row hm => ?_) List.filterMap_some
  have hcut := cutLine_padded (hrows _ (List.mem_map_of_mem hm)) last
  simp only [Function.comp_apply, hcut]
  rfl

end Rows

end RobotCtl.Experiments
