import RobotCtl.Library.Number

/-! # ASCII characters and octets

The classes of ASCII characters that names are made of, and the length of a
text in UTF-8.
-/

namespace Text

def isUpper (c : Char) : Bool := c.isUpper

def isLower (c : Char) : Bool := c.isLower

def isAlphanumeric (c : Char) : Bool := isUpper c || isLower c || isDigit c

/-- Upper case letters become lower case, and nothing else changes. -/
def toLower (s : Str) : Str := s.map fun c => if isUpper c then Char.ofNat (c.toNat + 32) else c

/-- The number of octets of the text. -/
def utf8Len : Str → ℕ
  | [] => 0
  | c :: s => c.utf8Size + utf8Len s

@[simp] theorem utf8Len_cons (c : Char) (s : Str) :
    utf8Len (c :: s) = c.utf8Size + utf8Len s := rfl

/-- The octets of the text in UTF-8. -/
def octets (s : Str) : List UInt8 := s.flatMap String.utf8EncodeChar

theorem isUpper_iff {c : Char} : isUpper c = true ↔ 65 ≤ c.toNat ∧ c.toNat ≤ 90 := by
  unfold isUpper
  exact decide_eq_true_iff.trans (and_congr UInt32.le_iff_toNat_le UInt32.le_iff_toNat_le)

theorem isLower_iff {c : Char} : isLower c = true ↔ 97 ≤ c.toNat ∧ c.toNat ≤ 122 := by
  unfold isLower
  refine Bool.and_eq_true_iff.trans (and_congr ?_ ?_)
  · exact decide_eq_true_iff.trans UInt32.le_iff_toNat_le
  · exact decide_eq_true_iff.trans UInt32.le_iff_toNat_le

@[simp] theorem toLower_append (s r : Str) : toLower (s ++ r) = toLower s ++ toLower r :=
  List.map_append

/-- The lower case of an upper case letter. -/
theorem isLower_lower {c : Char} (h : isUpper c = true) :
    isLower (Char.ofNat (c.toNat + 32)) = true := by
  have hc := isUpper_iff.mp h
  have hv : (c.toNat + 32).isValidChar := Or.inl (by omega)
  have hn : (Char.ofNat (c.toNat + 32)).toNat = c.toNat + 32 := by
    rw [Char.ofNat, dif_pos hv]
    rfl
  rw [isLower_iff, hn]
  omega

theorem not_isUpper_of_isLower {c : Char} (h : isLower c = true) : isUpper c = false := by
  rw [← Bool.not_eq_true, isUpper_iff]
  have := isLower_iff.mp h
  omega

/-- Lower case has no upper case letters. -/
theorem not_isUpper_of_mem_toLower {s : Str} {c : Char} (h : c ∈ toLower s) :
    isUpper c = false := by
  obtain ⟨d, -, rfl⟩ := List.mem_map.mp h
  by_cases hd : isUpper d = true
  · rw [if_pos hd]
    exact not_isUpper_of_isLower (isLower_lower hd)
  · rw [if_neg hd]
    exact Bool.not_eq_true _ ▸ hd

theorem toLower_eq_self {s : Str} (h : ∀ c ∈ s, isUpper c = false) : toLower s = s := by
  have hc : ∀ c ∈ s, (if isUpper c then Char.ofNat (c.toNat + 32) else c) = id c :=
    fun c hc => if_neg (by simp [h c hc])
  rw [toLower, List.map_congr_left hc, List.map_id]

theorem toLower_toLower (s : Str) : toLower (toLower s) = toLower s :=
  toLower_eq_self fun _ => not_isUpper_of_mem_toLower

section Octets

variable {c : Char} {s : Str}

theorem length_octets (s : Str) : (octets s).length = utf8Len s := by
  induction s with
  | nil => rfl
  | cons c s ih =>
    rw [utf8Len_cons, ← ih, ← String.length_utf8EncodeChar, octets, List.flatMap_cons,
      List.length_append]
    rfl

theorem utf8Len_pos (h : s ≠ []) : 1 ≤ utf8Len s := by
  obtain ⟨c, s, rfl⟩ := List.exists_cons_of_ne_nil h
  have hc := c.utf8Size_pos
  rw [utf8Len_cons]
  omega

theorem utf8EncodeChar_of_ascii (h : c.toNat < 128) :
    String.utf8EncodeChar c = [UInt8.ofNat c.toNat] :=
  if_pos (Nat.le_of_lt_succ h)

/-- A character outside ASCII has an octet outside ASCII, its first one. -/
theorem exists_octet (h : 128 ≤ c.toNat) : ∃ b ∈ String.utf8EncodeChar c, 128 ≤ b.toNat := by
  have hv : 128 ≤ c.val.toNat := h
  fun_cases String.utf8EncodeChar c
  · omega
  all_goals
    refine ⟨_, List.mem_cons_self, ?_⟩
    rw [UInt8.toNat_ofNat']
    omega

/-- The octets of a text of ASCII characters are their codes. -/
theorem octets_of_ascii (h : ∀ c ∈ s, c.toNat < 128) :
    octets s = s.map fun c => UInt8.ofNat c.toNat := by
  rw [octets, List.map_eq_flatMap]
  exact List.flatMap_congr fun c hc => utf8EncodeChar_of_ascii (h c hc)

theorem ascii_of_octets (h : ∀ b ∈ octets s, b.toNat < 128) : ∀ c ∈ s, c.toNat < 128 := by
  intro c hc
  by_contra hn
  obtain ⟨b, hb, hge⟩ := exists_octet (Nat.not_lt.mp hn)
  have hlt := h b (List.mem_flatMap.mpr ⟨c, hc, hb⟩)
  omega

end Octets

end Text
