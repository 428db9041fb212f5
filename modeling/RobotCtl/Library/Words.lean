import RobotCtl.Library.Trim

/-! # Words between whitespace

The words of a text are its maximal runs of visible characters. Whitespace
splits a text into the words before it and the words after it, so the words do
not see how a line is indented or trimmed.
-/

namespace Text

/-- The words of a text, without the whitespace around them. -/
def splitWhitespace (s : Str) : List Str := (s.splitOnP isWhitespace).filter (· ≠ [])

/-- A word is not empty and has no whitespace. -/
def IsWord (w : Str) : Prop := w ≠ [] ∧ ∀ c ∈ w, isWhitespace c = false

@[simp] theorem splitWhitespace_nil : splitWhitespace [] = [] := rfl

/-- Whitespace ends a word. -/
theorem splitWhitespace_append_cons (a b : Str) {c : Char} (hc : isWhitespace c = true) :
    splitWhitespace (a ++ c :: b) = splitWhitespace a ++ splitWhitespace b := by
  rw [splitWhitespace, List.splitOnP_append_cons a b hc, List.filter_append]
  rfl

theorem splitWhitespace_word {w : Str} (hw : IsWord w) : splitWhitespace w = [w] := by
  rw [splitWhitespace, List.splitOnP_eq_singleton hw.2]
  simp [hw.1]

theorem splitWhitespace_word_cons {w : Str} (b : Str) {c : Char} (hw : IsWord w)
    (hc : isWhitespace c = true) : splitWhitespace (w ++ c :: b) = w :: splitWhitespace b := by
  rw [splitWhitespace_append_cons w b hc, splitWhitespace_word hw]
  rfl

theorem splitWhitespace_blank_append (b : Str) {s : Str} (hs : ∀ c ∈ s, isWhitespace c = true) :
    splitWhitespace (s ++ b) = splitWhitespace b := by
  induction s with
  | nil => rfl
  | cons c s ih =>
    have h := splitWhitespace_append_cons [] (s ++ b) (hs c List.mem_cons_self)
    rw [ih fun d hd => hs d (List.mem_cons_of_mem c hd)] at h
    exact h

theorem splitWhitespace_append_blank (a : Str) {s : Str} (hs : ∀ c ∈ s, isWhitespace c = true) :
    splitWhitespace (a ++ s) = splitWhitespace a := by
  cases s with
  | nil => rw [List.append_nil]
  | cons c s =>
    have hb := splitWhitespace_blank_append [] fun d hd => hs d (List.mem_cons_of_mem c hd)
    rw [List.append_nil] at hb
    rw [splitWhitespace_append_cons a s (hs c List.mem_cons_self), hb, splitWhitespace_nil,
      List.append_nil]

@[simp] theorem splitWhitespace_trimStart (s : Str) :
    splitWhitespace (trimStart s) = splitWhitespace s := by
  have h := splitWhitespace_blank_append (trimStart s)
    fun c hc => List.mem_takeWhile_imp (p := isWhitespace) (l := s) hc
  rw [← h, trimStart, List.takeWhile_append_dropWhile]

@[simp] theorem splitWhitespace_trimEnd (s : Str) :
    splitWhitespace (trimEnd s) = splitWhitespace s := by
  have h := splitWhitespace_append_blank (trimEnd s)
    fun c hc => List.mem_rtakeWhile_imp (p := isWhitespace) (l := s) hc
  rw [← h, trimEnd, List.rdropWhile_append_rtakeWhile]

/-- Trimming takes no word away. -/
@[simp] theorem splitWhitespace_trim (s : Str) : splitWhitespace (trim s) = splitWhitespace s := by
  rw [trim, splitWhitespace_trimEnd, splitWhitespace_trimStart]

/-- The first word is what stands before whitespace once the text is trimmed. -/
theorem head?_splitWhitespace (s : Str) : (splitWhitespace s).head? =
    if (trimStart s).takeWhile (!isWhitespace ·) = [] then none
    else some ((trimStart s).takeWhile (!isWhitespace ·)) := by
  rw [← splitWhitespace_trimStart]
  rcases trimStart_cases s with h | ⟨c, r, h, hc⟩
  · simp [h]
  set w := (trimStart s).takeWhile (!isWhitespace ·) with hw
  have hword : IsWord w := by
    refine ⟨by simp [hw, h, hc], fun d hd => ?_⟩
    simpa using List.mem_takeWhile_imp hd
  have hs : trimStart s = w ++ (trimStart s).dropWhile (!isWhitespace ·) :=
    List.takeWhile_append_dropWhile.symm
  rw [if_neg hword.1, hs]
  cases hd : (trimStart s).dropWhile (!isWhitespace ·) with
  | nil => rw [List.append_nil, splitWhitespace_word hword, List.head?_cons]
  | cons d b =>
    have hsep : isWhitespace d = true := by
      have hhead := List.head?_dropWhile_not (!isWhitespace ·) (trimStart s)
      simpa [hd] using hhead
    rw [splitWhitespace_word_cons b hword hsep, List.head?_cons]

end Text
