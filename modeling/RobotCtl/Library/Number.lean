import RobotCtl.Library.Trim

/-! # Decimal numbers

The decimal rendering of a natural number, and the reading of an unsigned
machine integer: an optional plus sign and decimal digits whose value is at
most the largest value of its type. Reading a rendering gives the number back.
-/

namespace Text

def isDigit (c : Char) : Bool := c.isDigit

/-- The decimal digits of a number, most significant first and without leading zeros. -/
def decimal (n : ℕ) : Str := Nat.toDigits 10 n

/-- The number that a string of decimal digits denotes. -/
def digitsValue (s : Str) : ℕ := Nat.ofDigitChars 10 s 0

/-- The digits of an unsigned numeral, without its optional plus sign. -/
def unsignedDigits : Str → Str
  | '+' :: s => s
  | s => s

/-- Reads an unsigned integer whose type has the given largest value. -/
def parseUnsigned (max : ℕ) (s : Str) : Option ℕ :=
  let ds := unsignedDigits s
  if ds ≠ [] ∧ ds.all isDigit = true ∧ digitsValue ds ≤ max then some (digitsValue ds) else none

theorem isDigit_of_mem_decimal {n : ℕ} {c : Char} (h : c ∈ decimal n) : isDigit c = true :=
  Nat.isDigit_of_mem_toDigits (by decide) (by decide) h

theorem decimal_ne_nil (n : ℕ) : decimal n ≠ [] := Nat.toDigits_ne_nil

@[simp] theorem digitsValue_decimal (n : ℕ) : digitsValue (decimal n) = n :=
  Nat.ofDigitChars_ten_toDigits

theorem unsignedDigits_eq_self {s : Str} (h : ∀ c ∈ s, isDigit c = true) :
    unsignedDigits s = s := by
  unfold unsignedDigits
  split
  · next r => exact absurd (h '+' (by simp)) (by decide)
  · rfl

theorem parseUnsigned_eq_some_iff {max n : ℕ} {s : Str} : parseUnsigned max s = some n ↔
    (unsignedDigits s ≠ [] ∧ (unsignedDigits s).all isDigit = true) ∧
      digitsValue (unsignedDigits s) = n ∧ n ≤ max := by
  simp only [parseUnsigned, Option.ite_none_right_eq_some, Option.some.injEq]
  constructor
  · rintro ⟨⟨hn, hd, hle⟩, rfl⟩
    exact ⟨⟨hn, hd⟩, rfl, hle⟩
  · rintro ⟨⟨hn, hd⟩, rfl, hle⟩
    exact ⟨⟨hn, hd, hle⟩, rfl⟩

/-- The numerals of a number: decimal digits that denote it, with or without a plus sign. -/
def IsNumeral (s : Str) (n : ℕ) : Prop :=
  ∃ ds, (s = ds ∨ s = '+' :: ds) ∧ ds ≠ [] ∧ (∀ c ∈ ds, isDigit c = true) ∧ digitsValue ds = n

theorem unsignedDigits_cases (s : Str) :
    s = unsignedDigits s ∨ s = '+' :: unsignedDigits s := by
  unfold unsignedDigits
  split
  · exact Or.inr rfl
  · exact Or.inl rfl

theorem isNumeral_iff {s : Str} {n : ℕ} : IsNumeral s n ↔
    (unsignedDigits s ≠ [] ∧ (unsignedDigits s).all isDigit = true) ∧
      digitsValue (unsignedDigits s) = n := by
  rw [List.all_eq_true]
  constructor
  · rintro ⟨ds, rfl | rfl, hn, hd, hv⟩
    · rw [unsignedDigits_eq_self hd]
      exact ⟨⟨hn, hd⟩, hv⟩
    · exact ⟨⟨hn, hd⟩, hv⟩
  · rintro ⟨⟨hn, hd⟩, hv⟩
    exact ⟨_, unsignedDigits_cases s, hn, hd, hv⟩

theorem IsNumeral.unique {s : Str} {n m : ℕ} (h : IsNumeral s n) (h' : IsNumeral s m) : n = m :=
  (isNumeral_iff.mp h).2.symm.trans (isNumeral_iff.mp h').2

/-- A machine integer is read from the numerals of the numbers that fit. -/
theorem parseUnsigned_eq_some {max n : ℕ} {s : Str} :
    parseUnsigned max s = some n ↔ IsNumeral s n ∧ n ≤ max := by
  simp only [parseUnsigned_eq_some_iff, isNumeral_iff, and_assoc]

/-- The type that an integer is read into matters for values that do not fit only. -/
theorem parseUnsigned_of_le {max max' n : ℕ} {s : Str} (h : parseUnsigned max s = some n)
    (hn : n ≤ max') : parseUnsigned max' s = some n := by
  obtain ⟨hd, hv, -⟩ := parseUnsigned_eq_some_iff.mp h
  exact parseUnsigned_eq_some_iff.mpr ⟨hd, hv, hn⟩

theorem parseUnsigned_decimal {max n : ℕ} (h : n ≤ max) :
    parseUnsigned max (decimal n) = some n := by
  have hd : ∀ c ∈ decimal n, isDigit c = true := fun c hc => isDigit_of_mem_decimal hc
  simp [parseUnsigned, unsignedDigits_eq_self hd, decimal_ne_nil, h]
  exact hd

theorem isDigit_iff {c : Char} : isDigit c = true ↔ 48 ≤ c.toNat ∧ c.toNat ≤ 57 := by
  simp only [isDigit, Char.isDigit, Bool.and_eq_true, decide_eq_true_eq, ge_iff_le,
    UInt32.le_iff_toNat_le]
  exact Iff.rfl

theorem isWhitespace_of_isDigit {c : Char} (h : isDigit c = true) : isWhitespace c = false := by
  obtain ⟨h₁, h₂⟩ := isDigit_iff.mp h
  simp [isWhitespace]
  omega

end Text
