import RobotCtl.Library.Lines

/-! # Whitespace, control characters and trimming

Trimming removes Unicode whitespace on both sides. It does not see a carriage
return left at the end of a line, and it keeps every prefix that neither starts
nor ends with whitespace.
-/

namespace Text

/-- The Unicode property `White_Space`. -/
def isWhitespace (c : Char) : Bool :=
  let n := c.toNat
  (9 ≤ n && n ≤ 13) || n == 0x20 || n == 0x85 || n == 0xA0 || n == 0x1680 ||
    (0x2000 ≤ n && n ≤ 0x200A) || n == 0x2028 || n == 0x2029 || n == 0x202F ||
    n == 0x205F || n == 0x3000

/-- The Unicode general category `Cc`. -/
def isControl (c : Char) : Bool := c.toNat < 32 || (127 ≤ c.toNat && c.toNat ≤ 159)

def trimStart (s : Str) : Str := s.dropWhile isWhitespace

def trimEnd (s : Str) : Str := s.rdropWhile isWhitespace

def trim (s : Str) : Str := trimEnd (trimStart s)

@[simp] theorem trim_nil : trim [] = [] := rfl

theorem trimEnd_append_cr (s : Str) : trimEnd (s ++ ['\r']) = trimEnd s :=
  List.rdropWhile_concat_pos _ _ _ (by decide)

theorem trim_append_cr (s : Str) : trim (s ++ ['\r']) = trim s := by
  unfold trim
  by_cases h : trimStart s = []
  · have hs : ∀ c ∈ s, isWhitespace c = true := List.dropWhile_eq_nil_iff.mp h
    rw [h]
    have ha : trimStart (s ++ ['\r']) = [] := by
      refine List.dropWhile_eq_nil_iff.mpr fun c hc => ?_
      rcases List.mem_append.mp hc with hc | hc
      · exact hs c hc
      · rw [List.mem_singleton.mp hc]; decide
    rw [ha]
  · have ha : trimStart (s ++ ['\r']) = trimStart s ++ ['\r'] := by
      rw [trimStart, List.dropWhile_append, if_neg (by simpa [trimStart] using h)]
      rfl
    rw [ha, trimEnd_append_cr]

/-- The carriage return of a line ending is invisible after trimming. -/
@[simp] theorem trim_stripCr (l : Str) : trim (stripCr l) = trim l := by
  rcases stripCr_cases l with h | h
  · rw [h]
  · conv_rhs => rw [h]
    exact (trim_append_cr _).symm

theorem trimStart_eq_self {s : Str} (h : ∀ c ∈ s, isWhitespace c = false) : trimStart s = s := by
  cases s with
  | nil => rfl
  | cons c s => simp [trimStart, h c]

theorem trimEnd_eq_self {s : Str} (h : ∀ c ∈ s, isWhitespace c = false) : trimEnd s = s :=
  List.rdropWhile_eq_self_iff.mpr fun hs => by simp [h _ (List.getLast_mem hs)]

theorem trim_eq_self {s : Str} (h : ∀ c ∈ s, isWhitespace c = false) : trim s = s := by
  rw [trim, trimStart_eq_self h, trimEnd_eq_self h]

theorem trimEnd_append {p : Str} (s : Str) (hp : ∀ c ∈ p, isWhitespace c = false) :
    trimEnd (p ++ s) = p ++ trimEnd s := by
  have hr : trimEnd p = p := trimEnd_eq_self hp
  unfold trimEnd List.rdropWhile at hr ⊢
  rw [List.reverse_append, List.dropWhile_append]
  split
  · next h => simp [hr, List.isEmpty_iff.mp h]
  · simp

/-- A line that starts with visible characters keeps them when it is trimmed. -/
theorem trim_append {p : Str} (s : Str) (hn : p ≠ []) (hp : ∀ c ∈ p, isWhitespace c = false) :
    trim (p ++ s) = p ++ trimEnd s := by
  obtain ⟨c, p, rfl⟩ := List.exists_cons_of_ne_nil hn
  have hs : trimStart (c :: p ++ s) = c :: p ++ s := by simp [trimStart, hp c]
  rw [trim, hs, trimEnd_append s hp]

section Visible

variable {c : Char} (hc : isWhitespace c = false) (a b : Str)
include hc

theorem trimStart_append_cons : trimStart (a ++ c :: b) = trimStart a ++ c :: b := by
  rw [trimStart, List.dropWhile_append]
  split
  · next h => simp [trimStart, List.isEmpty_iff.mp h, hc]
  · rfl

theorem trimEnd_append_cons : trimEnd (a ++ c :: b) = a ++ c :: trimEnd b := by
  have h := trimStart_append_cons hc b.reverse a.reverse
  have he := congrArg List.reverse h
  simpa [trimEnd, trimStart, List.rdropWhile] using he

/-- A visible character is where trimming stops on either side. -/
theorem trim_append_cons : trim (a ++ c :: b) = trimStart a ++ c :: trimEnd b := by
  rw [trim, trimStart_append_cons hc, trimEnd_append_cons hc]

omit a b in
/-- Trimming takes no visible character away. -/
theorem mem_trim {s : Str} (h : c ∈ s) : c ∈ trim s := by
  obtain ⟨a, b, rfl⟩ := List.append_of_mem h
  rw [trim_append_cons hc]
  simp

end Visible

@[simp] theorem trimStart_trimStart (s : Str) : trimStart (trimStart s) = trimStart s :=
  List.dropWhile_idempotent _ _

@[simp] theorem trimEnd_trimEnd (s : Str) : trimEnd (trimEnd s) = trimEnd s :=
  List.rdropWhile_idempotent _ _

/-- What is left of a text when it is trimmed starts with a visible character. -/
theorem trimStart_cases (s : Str) :
    trimStart s = [] ∨ ∃ c r, trimStart s = c :: r ∧ isWhitespace c = false := by
  cases h : trimStart s with
  | nil => exact Or.inl rfl
  | cons c r =>
    refine Or.inr ⟨c, r, rfl, ?_⟩
    have hd := List.head?_dropWhile_not isWhitespace s
    rwa [show s.dropWhile isWhitespace = c :: r from h] at hd

theorem trimStart_trim (s : Str) : trimStart (trim s) = trim s := by
  rcases trimStart_cases s with h | ⟨c, r, h, hc⟩
  · rw [trim, h]
    rfl
  · have ht : trim s = [] ++ c :: trimEnd r := by rw [trim, h]; exact trimEnd_append_cons hc [] r
    rw [ht, trimStart_append_cons hc]
    rfl

@[simp] theorem trim_trim (s : Str) : trim (trim s) = trim s := by
  rw [trim, trimStart_trim, trim, trimEnd_trimEnd]

@[simp] theorem trim_trimStart (s : Str) : trim (trimStart s) = trim s := by
  rw [trim, trimStart_trimStart, trim]

@[simp] theorem trim_trimEnd (s : Str) : trim (trimEnd s) = trim s := by
  rcases trimStart_cases s with h | ⟨c, r, h, hc⟩
  · have hs : ∀ c ∈ s, isWhitespace c = true := List.dropWhile_eq_nil_iff.mp h
    have hn : trimEnd s = [] := List.rdropWhile_eq_nil_iff.mpr hs
    have ht : trim s = [] := by rw [trim, h]; rfl
    rw [hn, ht, trim_nil]
  · obtain ⟨w, hw⟩ : trimStart s <:+ s := List.dropWhile_suffix _
    have hs : s = w ++ c :: r := by rw [← h, hw]
    have ht := trim_append_cons hc w (trimEnd r)
    rw [hs, trimEnd_append_cons hc, ht, trim_append_cons hc, trimEnd_trimEnd]

theorem prefix_trim {p s : Str} (hn : p ≠ []) (hp : ∀ c ∈ p, isWhitespace c = false)
    (h : p <+: s) : p <+: trim s := by
  obtain ⟨r, rfl⟩ := h
  exact ⟨trimEnd r, (trim_append r hn hp).symm⟩

theorem isControl_newline : isControl '\n' = true := by decide

end Text
