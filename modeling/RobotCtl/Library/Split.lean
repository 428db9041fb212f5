import RobotCtl.Library.Lines

/-! # Splitting at separators -/

namespace Text

/-- The text before and after the first occurrence of a separator. -/
def splitOnce (sep : Char) (s : Str) : Option (Str × Str) :=
  if sep ∈ s then some (s.takeWhile (· ≠ sep), (s.dropWhile (· ≠ sep)).tail) else none

/-- The pieces between the separators. -/
def split (sep : Char) (s : Str) : List Str := s.splitOn sep

/-- Join texts with another between them. -/
def joinWith (sep : Str) (ls : List Str) : Str := sep.intercalate ls

/-- A text has no separator, or it is what stands before the first one and a rest. -/
theorem split_induction (sep : Char) {motive : Str → Prop} (last : ∀ a, sep ∉ a → motive a)
    (cons : ∀ a s, sep ∉ a → motive s → motive (a ++ sep :: s)) (s : Str) : motive s := by
  suffices h : ∀ a : Str, sep ∉ a → motive (a ++ s) from h [] (by simp)
  induction s with
  | nil =>
    intro a ha
    rw [List.append_nil]
    exact last a ha
  | cons c s ih =>
    intro a ha
    by_cases hc : c = sep
    · subst hc
      exact cons a s ha (ih [] (by simp))
    · have h := ih (a ++ [c]) (by simp [ha, Ne.symm hc])
      simpa using h

theorem splitOnce_eq_none {sep : Char} {s : Str} (h : sep ∉ s) : splitOnce sep s = none := if_neg h

theorem splitOnce_append {sep : Char} {a : Str} (b : Str) (h : sep ∉ a) :
    splitOnce sep (a ++ sep :: b) = some (a, b) := by
  have hp : ∀ c ∈ a, decide (c ≠ sep) = true := fun c hc => by
    simpa using fun he : c = sep => h (he ▸ hc)
  rw [splitOnce, if_pos (by simp), List.takeWhile_append_of_pos hp, List.dropWhile_append_of_pos hp]
  simp

theorem split_append {sep : Char} {a : Str} (b : Str) (h : sep ∉ a) :
    split sep (a ++ sep :: b) = a :: split sep b := List.splitOn_append_cons_self_of_not_mem h b

theorem split_of_not_mem {sep : Char} {s : Str} (h : sep ∉ s) : split sep s = [s] :=
  List.splitOn_eq_singleton h

/-- Every character but the separators is in a piece. -/
theorem exists_mem_split {sep c : Char} {s : Str} (h : c ∈ s) (hc : c ≠ sep) :
    ∃ piece ∈ split sep s, c ∈ piece := by
  induction s using split_induction sep with
  | last a ha => exact ⟨a, by rw [split_of_not_mem ha]; exact List.mem_singleton_self a, h⟩
  | cons a s ha ih =>
    rw [split_append s ha]
    rcases List.mem_append.mp h with h | h
    · exact ⟨a, List.mem_cons_self, h⟩
    · obtain ⟨piece, hp, hm⟩ := ih ((List.mem_cons.mp h).resolve_left hc)
      exact ⟨piece, List.mem_cons_of_mem _ hp, hm⟩

/-- Pieces without the separator are found again. -/
theorem split_joinWith {sep : Char} {ls : List Str} (h : ∀ l ∈ ls, sep ∉ l) (hn : ls ≠ []) :
    split sep (joinWith [sep] ls) = ls := List.splitOn_intercalate sep h hn

/-- Splitting whole lines at the newlines leaves an empty piece at the end. -/
theorem split_joinLines {ls : List Str} (h : ∀ l ∈ ls, '\n' ∉ l) :
    split '\n' (joinLines ls) = ls ++ [[]] := by
  induction ls with
  | nil => rfl
  | cons l ls ih =>
    rw [joinLines_cons, split_append _ (h l List.mem_cons_self),
      ih fun m hm => h m (List.mem_cons_of_mem l hm), List.cons_append]

end Text
