import Mathlib.Data.List.DropRight
import Mathlib.Data.List.Infix
import Mathlib.Tactic.Set

/-! # Text and its lines

A text is a list of Unicode scalar values. Lines end at a newline, with one
carriage return before it removed, and an unterminated last line counts as one.
Writing lines back with newlines and splitting again gives the same lines, up
to trailing carriage returns.
-/

/-- A string as the sequence of its Unicode scalar values. -/
abbrev Str := List Char

namespace Text

/-- What holds of every character is decided on the characters of the string. -/
instance (priority := 2000) {p : Char → Prop} [DecidablePred p] (s : Str) :
    Decidable (∀ c ∈ s, p c) := List.decidableBAll p s

/-- The rest of a string after a prefix, if it has that prefix. -/
def stripPrefix : Str → Str → Option Str
  | [], s => some s
  | _ :: _, [] => none
  | c :: p, d :: s => if c = d then stripPrefix p s else none

/-- The front of a string before a suffix, if it has that suffix. -/
def stripSuffix (p s : Str) : Option Str :=
  (stripPrefix p.reverse s.reverse).map List.reverse

theorem stripPrefix_eq_some_iff {p s r : Str} : stripPrefix p s = some r ↔ s = p ++ r := by
  induction p generalizing s with
  | nil => simp [stripPrefix]
  | cons c p ih =>
    cases s with
    | nil => simp [stripPrefix]
    | cons d s =>
      by_cases h : c = d
      · simp [stripPrefix, h, ih]
      · simp [stripPrefix, h, Ne.symm h]

@[simp] theorem stripPrefix_append (p s : Str) : stripPrefix p (p ++ s) = some s :=
  stripPrefix_eq_some_iff.mpr rfl

theorem stripPrefix_eq_none_iff {p s : Str} : stripPrefix p s = none ↔ ¬ p <+: s := by
  constructor
  · rintro h ⟨r, rfl⟩; simp at h
  · intro h
    cases he : stripPrefix p s with
    | none => rfl
    | some r => exact absurd ⟨r, (stripPrefix_eq_some_iff.mp he).symm⟩ h

theorem stripSuffix_eq_some_iff {p s r : Str} : stripSuffix p s = some r ↔ s = r ++ p := by
  simp only [stripSuffix, Option.map_eq_some_iff, stripPrefix_eq_some_iff]
  constructor
  · rintro ⟨t, h, rfl⟩
    simpa using congrArg List.reverse h
  · rintro rfl
    exact ⟨r.reverse, by simp, by simp⟩

/-- A line without the carriage return of its line ending. -/
def stripCr (l : Str) : Str := (stripSuffix ['\r'] l).getD l

theorem stripCr_cases (l : Str) : stripCr l = l ∨ l = stripCr l ++ ['\r'] := by
  unfold stripCr
  cases h : stripSuffix ['\r'] l with
  | none => exact Or.inl rfl
  | some r => exact Or.inr (stripSuffix_eq_some_iff.mp h)

theorem mem_of_mem_stripCr {l : Str} {c : Char} (h : c ∈ stripCr l) : c ∈ l := by
  rcases stripCr_cases l with he | he
  · exact he ▸ h
  · rw [he]; exact List.mem_append_left _ h

theorem stripCr_eq_self {l : Str} (h : '\r' ∉ l) : stripCr l = l := by
  rcases stripCr_cases l with he | he
  · exact he
  · rw [he] at h; simp at h

theorem stripCr_concat (l : Str) : stripCr (l ++ ['\r']) = l := by
  rw [stripCr, stripSuffix_eq_some_iff.mpr rfl]
  rfl

theorem stripCr_eq_self_iff {l : Str} : stripCr l = l ↔ l.getLast? ≠ some '\r' := by
  constructor
  · intro h hc
    obtain ⟨m, rfl⟩ := List.getLast?_eq_some_iff.mp hc
    rw [stripCr_concat] at h
    simpa using congrArg List.length h
  · intro h
    rcases stripCr_cases l with he | he
    · exact he
    · rw [he] at h; simp at h

/-- A line without any carriage return at its end. -/
def trimReturns (l : Str) : Str := l.rdropWhile (· == '\r')

@[simp] theorem trimReturns_concat (l : Str) : trimReturns (l ++ ['\r']) = trimReturns l :=
  List.rdropWhile_concat_pos _ _ _ (by decide)

@[simp] theorem trimReturns_stripCr (l : Str) : trimReturns (stripCr l) = trimReturns l := by
  rcases stripCr_cases l with h | h
  · rw [h]
  · conv_rhs => rw [h, trimReturns_concat]

theorem trimReturns_eq_self {l : Str} (h : '\r' ∉ l) : trimReturns l = l :=
  List.rdropWhile_eq_self_iff.mpr fun hn => by
    simpa using fun hc : l.getLast hn = '\r' => h (hc ▸ List.getLast_mem hn)

/-- What no carriage return at the end of a line changes, removing all of them keeps. -/
theorem apply_trimReturns {α : Type} {f : Str → α} (h : ∀ l, f (l ++ ['\r']) = f l) (l : Str) :
    f (trimReturns l) = f l := by
  induction l using List.reverseRecOn with
  | nil => rfl
  | append_singleton l c ih =>
    by_cases hc : c = '\r'
    · rw [hc, trimReturns_concat, ih, h]
    · rw [trimReturns, List.rdropWhile_concat_neg _ _ _ (by simpa using hc)]

/-- Split the rest of a text into lines, given the part of the current line already read. -/
def linesFrom (line : Str) : Str → List Str
  | [] => if line = [] then [] else [line]
  | c :: s => if c = '\n' then stripCr line :: linesFrom [] s else linesFrom (line ++ [c]) s

/-- The lines of a text, without their line endings. -/
def lines (s : Str) : List Str := linesFrom [] s

/-- Write every line with a newline after it. -/
def joinLines (ls : List Str) : Str := ls.flatMap (· ++ ['\n'])

@[simp] theorem joinLines_nil : joinLines [] = [] := rfl

@[simp] theorem joinLines_cons (l : Str) (ls : List Str) :
    joinLines (l :: ls) = l ++ '\n' :: joinLines ls := by simp [joinLines]

@[simp] theorem joinLines_append (ls ms : List Str) :
    joinLines (ls ++ ms) = joinLines ls ++ joinLines ms := by simp [joinLines]

theorem append_newline_inj {l m s r : Str} (hl : '\n' ∉ l) (hm : '\n' ∉ m) :
    l ++ '\n' :: s = m ++ '\n' :: r ↔ l = m ∧ s = r := by
  induction l generalizing m with
  | nil =>
    cases m with
    | nil => simp
    | cons c m => simpa using fun h : '\n' = c => absurd (h ▸ List.mem_cons_self) hm
  | cons c l ih =>
    cases m with
    | nil => simpa using fun h : c = '\n' => absurd (h ▸ List.mem_cons_self) hl
    | cons d m =>
      have hi := ih (fun h => hl (List.mem_cons_of_mem c h)) fun h => hm (List.mem_cons_of_mem d h)
      simp [hi, and_assoc]

/-- Lines are determined by what is written for them. -/
theorem joinLines_inj {ls ms : List Str} (hl : ∀ l ∈ ls, '\n' ∉ l) (hm : ∀ m ∈ ms, '\n' ∉ m) :
    joinLines ls = joinLines ms ↔ ls = ms := by
  induction ls generalizing ms with
  | nil => cases ms <;> simp
  | cons l ls ih =>
    cases ms with
    | nil => simp
    | cons m ms =>
      obtain ⟨hl₁, hl₂⟩ := List.forall_mem_cons.mp hl
      obtain ⟨hm₁, hm₂⟩ := List.forall_mem_cons.mp hm
      rw [joinLines_cons, joinLines_cons, append_newline_inj hl₁ hm₁, ih hl₂ hm₂, List.cons.injEq]

theorem linesFrom_append {l m : Str} (s : Str) (hm : '\n' ∉ m) :
    linesFrom l (m ++ s) = linesFrom (l ++ m) s := by
  induction m generalizing l with
  | nil => simp
  | cons c m ih =>
    have hc : c ≠ '\n' := by rintro rfl; simp at hm
    have hm' : '\n' ∉ m := fun h => hm (List.mem_cons_of_mem _ h)
    simp [linesFrom, hc, ih hm']

@[simp] theorem lines_nil : lines [] = [] := rfl

theorem lines_line {l : Str} (s : Str) (hl : '\n' ∉ l) :
    lines (l ++ '\n' :: s) = stripCr l :: lines s := by
  rw [lines, linesFrom_append _ hl]
  simp [linesFrom, lines]

theorem lines_last {l : Str} (hl : '\n' ∉ l) (hn : l ≠ []) : lines l = [l] := by
  have h := linesFrom_append (l := []) [] hl
  rw [List.append_nil] at h
  simp [lines, h, linesFrom, hn]

/-- A text is a first terminated line and a rest, an unterminated line, or empty. -/
theorem line_induction {motive : Str → Prop} (nil : motive [])
    (last : ∀ l, '\n' ∉ l → l ≠ [] → motive l)
    (line : ∀ l s, '\n' ∉ l → motive s → motive (l ++ '\n' :: s)) (s : Str) : motive s := by
  suffices h : ∀ l : Str, '\n' ∉ l → motive (l ++ s) from h [] (by simp)
  induction s with
  | nil =>
    intro l hl
    rw [List.append_nil]
    by_cases hn : l = []
    · exact hn ▸ nil
    · exact last l hl hn
  | cons c s ih =>
    intro l hl
    by_cases hc : c = '\n'
    · subst hc
      exact line l s hl (ih [] (by simp))
    · have h := ih (l ++ [c]) (by simp [hl, Ne.symm hc])
      simpa using h

theorem newline_not_mem_of_mem_lines {l s : Str} (h : l ∈ lines s) : '\n' ∉ l := by
  induction s using line_induction with
  | nil => simp at h
  | last m hm hn =>
    rw [lines_last hm hn, List.mem_singleton] at h
    exact h ▸ hm
  | line m s hm ih =>
    rw [lines_line s hm, List.mem_cons] at h
    rcases h with rfl | h
    · exact fun hc => hm (mem_of_mem_stripCr hc)
    · exact ih h

theorem lines_joinLines {ls : List Str} (h : ∀ l ∈ ls, '\n' ∉ l) :
    lines (joinLines ls) = ls.map stripCr := by
  induction ls with
  | nil => rfl
  | cons l ls ih =>
    rw [joinLines_cons, lines_line _ (h l (by simp)), ih fun m hm => h m (by simp [hm])]
    rfl

/-- One round of replacing lines: the output so far, and whether a line was replaced. -/
def replaceLine (isEntry : Str → Bool) (entry : Str) (acc : Str × Bool) (line : Str) :
    Str × Bool :=
  if isEntry line then (acc.1 ++ entry ++ ['\n'], true) else (acc.1 ++ line ++ ['\n'], acc.2)

/-- Put an entry in place of every line of a kind, or after the last line if there is none. -/
def replaceLines (isEntry : Str → Bool) (entry text : Str) : Str :=
  let (out, replaced) := (lines text).foldl (replaceLine isEntry entry) ([], false)
  if replaced then out else out ++ entry ++ ['\n']

/-- The lines that replacing leaves in place of the lines of a text. -/
def replacedLines (isEntry : Str → Bool) (entry : Str) (ls : List Str) : List Str :=
  ls.map (fun l => if isEntry l then entry else l) ++ if ls.any isEntry then [] else [entry]

theorem foldl_replaceLine (isEntry : Str → Bool) (entry : Str) (ls : List Str)
    (acc : Str × Bool) : ls.foldl (replaceLine isEntry entry) acc =
      (acc.1 ++ joinLines (ls.map fun l => if isEntry l then entry else l),
        acc.2 || ls.any isEntry) := by
  induction ls generalizing acc with
  | nil => simp
  | cons l ls ih =>
    rw [List.foldl_cons, ih]
    by_cases h : isEntry l <;> simp [replaceLine, h]

theorem replaceLines_eq (isEntry : Str → Bool) (entry text : Str) :
    replaceLines isEntry entry text = joinLines (replacedLines isEntry entry (lines text)) := by
  simp only [replaceLines, foldl_replaceLine, replacedLines]
  by_cases h : (lines text).any isEntry = true <;> simp [h]

theorem replaceLines_ne_nil (isEntry : Str → Bool) (entry text : Str) :
    replaceLines isEntry entry text ≠ [] := by
  rw [replaceLines_eq, replacedLines]
  cases lines text with
  | nil => simp
  | cons l ls => simp

theorem map_eq_self_iff {α : Type} {f : α → α} {ls : List α} :
    ls.map f = ls ↔ ∀ l ∈ ls, f l = l := by
  simpa using List.map_inj_left (f := f) (g := id) (l := ls)

theorem mem_replacedLines {isEntry : Str → Bool} {entry l : Str} {ls : List Str}
    (h : l ∈ replacedLines isEntry entry ls) : l = entry ∨ l ∈ ls ∧ isEntry l = false := by
  rcases List.mem_append.mp h with h | h
  · obtain ⟨m, hm, rfl⟩ := List.mem_map.mp h
    cases hp : isEntry m with
    | true => exact Or.inl (if_pos rfl)
    | false => exact Or.inr ⟨by simpa using hm, by simpa using hp⟩
  · split at h
    · cases h
    · exact Or.inl (List.mem_singleton.mp h)

theorem joinLines_getLast? {ls : List Str} (h : ls ≠ []) :
    (joinLines ls).getLast? = some '\n' := by
  obtain ⟨init, l, rfl⟩ := ls.eq_nil_or_concat'.resolve_left h
  simp

section Replaced

variable {isEntry : Str → Bool} {entry : Str}

theorem replacedLines_ne_nil (ls : List Str) : replacedLines isEntry entry ls ≠ [] := by
  cases ls <;> simp [replacedLines]

theorem replacedLines_of_not_any {ls : List Str} (h : ls.any isEntry = false) :
    replacedLines isEntry entry ls = ls ++ [entry] := by
  have hl : ∀ l ∈ ls, (if isEntry l then entry else l) = l := by
    intro l hl
    exact if_neg (List.any_eq_false.mp h l hl)
  rw [replacedLines, h, map_eq_self_iff.mpr hl]
  rfl

/-- Replacing lines keeps every other line, in the same order. -/
theorem filter_replacedLines (he : isEntry entry = true) (ls : List Str) :
    (replacedLines isEntry entry ls).filter (!isEntry ·) = ls.filter (!isEntry ·) := by
  have hm : (ls.map fun l => if isEntry l then entry else l).filter (!isEntry ·) =
      ls.filter (!isEntry ·) := by
    induction ls with
    | nil => rfl
    | cons l ls ih =>
      cases h : isEntry l <;> simp [h, he, ih]
  rw [replacedLines, List.filter_append, hm]
  split <;> simp [he]

/-- The entries after replacing stand where the entries stood. -/
theorem map_isEntry_replacedLines (he : isEntry entry = true) {ls : List Str}
    (h : ls.any isEntry = true) :
    (replacedLines isEntry entry ls).map isEntry = ls.map isEntry := by
  rw [replacedLines, h, if_pos rfl, List.append_nil, List.map_map]
  apply List.map_congr_left
  intro l _
  cases hl : isEntry l <;> simp [hl, he]

theorem countP_replacedLines (he : isEntry entry = true) (ls : List Str) :
    (replacedLines isEntry entry ls).countP isEntry = max 1 (ls.countP isEntry) := by
  cases h : ls.any isEntry with
  | true =>
    have hc : (replacedLines isEntry entry ls).countP isEntry = ls.countP isEntry := by
      have hid : ∀ ms : List Str, ms.countP isEntry = (ms.map isEntry).countP id := fun ms => by
        rw [List.countP_map, Function.id_comp]
      rw [hid, hid, map_isEntry_replacedLines he h]
    have hpos : 0 < ls.countP isEntry := List.countP_pos_iff.mpr (List.any_eq_true.mp h)
    omega
  | false =>
    have hz : ls.countP isEntry = 0 := by
      rw [List.countP_eq_zero]
      simpa using h
    rw [replacedLines_of_not_any h, List.countP_append, hz]
    simp [he]

/-- A map of lines that keeps the kinds of lines and the entry goes past replacing. -/
theorem map_replacedLines {f : Str → Str} (hf : ∀ l, isEntry (f l) = isEntry l)
    (he : f entry = entry) (ls : List Str) :
    (replacedLines isEntry entry ls).map f = replacedLines isEntry entry (ls.map f) := by
  have hany : (ls.map f).any isEntry = ls.any isEntry := by
    rw [List.any_map]
    exact congrArg ls.any (funext hf)
  rw [replacedLines, List.map_append, List.map_map, replacedLines, hany, List.map_map]
  congr 1
  · apply List.map_congr_left
    intro l _
    simp only [Function.comp_apply, hf]
    split
    · exact he
    · rfl
  · split <;> simp [he]

end Replaced

theorem newline_not_mem_replacedLines {isEntry : Str → Bool} {entry text : Str}
    (he : '\n' ∉ entry) : ∀ l ∈ replacedLines isEntry entry (lines text), '\n' ∉ l := by
  intro l hl
  rcases mem_replacedLines hl with rfl | ⟨hl, -⟩
  · exact he
  · exact newline_not_mem_of_mem_lines hl

theorem lines_replaceLines {isEntry : Str → Bool} {entry : Str} (text : Str)
    (he : '\n' ∉ entry) : lines (replaceLines isEntry entry text) =
      (replacedLines isEntry entry (lines text)).map stripCr := by
  rw [replaceLines_eq, lines_joinLines (newline_not_mem_replacedLines he)]

/-- Replacing lines again changes nothing exactly if no kept line has a carriage return to lose. -/
theorem replaceLines_replaceLines_iff {isEntry : Str → Bool} {entry : Str} (text : Str)
    (hn : '\n' ∉ entry) (hr : stripCr entry = entry) (he : isEntry entry = true)
    (hs : ∀ l, isEntry (stripCr l) = isEntry l) :
    replaceLines isEntry entry (replaceLines isEntry entry text) =
        replaceLines isEntry entry text ↔
      ∀ l ∈ lines text, isEntry l = true ∨ stripCr l = l := by
  have hlines : lines (replaceLines isEntry entry text) =
      (replacedLines isEntry entry (lines text)).map stripCr := lines_replaceLines text hn
  have hany : (lines (replaceLines isEntry entry text)).any isEntry = true := by
    rw [hlines, List.any_eq_true]
    refine ⟨entry, List.mem_map.mpr ⟨entry, ?_, hr⟩, he⟩
    unfold replacedLines
    cases h : (lines text).any isEntry with
    | false => simp
    | true =>
      obtain ⟨l, hl, hp⟩ := List.any_eq_true.mp h
      exact List.mem_append_left _ (List.mem_map.mpr ⟨l, hl, if_pos hp⟩)
  have hmap : replacedLines isEntry entry (lines (replaceLines isEntry entry text)) =
      (replacedLines isEntry entry (lines text)).map fun l =>
        if isEntry l then entry else stripCr l := by
    rw [replacedLines, hany, if_pos rfl, List.append_nil, hlines, List.map_map]
    exact List.map_congr_left fun l _ => by rw [Function.comp_apply, hs]
  rw [replaceLines_eq isEntry entry (replaceLines isEntry entry text), replaceLines_eq _ _ text,
    joinLines_inj (newline_not_mem_replacedLines hn) (newline_not_mem_replacedLines hn),
    ← replaceLines_eq, hmap, map_eq_self_iff]
  constructor
  · intro h l hl
    cases hp : isEntry l with
    | true => exact Or.inl rfl
    | false =>
      have hm : l ∈ replacedLines isEntry entry (lines text) :=
        List.mem_append_left _ (List.mem_map.mpr ⟨l, hl, if_neg (by simp [hp])⟩)
      simpa [hp] using h l hm
  · intro h l hl
    rcases mem_replacedLines hl with rfl | ⟨hl, hp⟩
    · rw [if_pos he]
    · rw [hp]
      exact (h l hl).resolve_left (by simp [hp])

end Text
