import RobotCtl.Library.Ascii

/-! # Robot IDs and ROS domain IDs

The two identity values, each with the rules that its constructor checks. The
first rule that a string breaks names the error, so a value of either type is
exactly a string, or a number, that its constructor accepts.
-/

namespace RobotCtl.Identity

open Text

inductive RobotIdValidationError where
  | lowercase (char : Char) (pos : ℕ)
  | invalidChar (char : Char) (pos : ℕ)
  | invalidLength (length : ℕ)
  | startsWithHyphen
  | endsWithHyphen
  deriving DecidableEq, Repr

namespace RobotIdValidationError

def message : RobotIdValidationError → Str
  | lowercase char pos => "Robot ID must be lowercase. Found character '".toList ++
      char :: "' at position ".toList ++ decimal pos ++ ".".toList
  | invalidChar char pos =>
      "Robot ID may only contain letters, digits, and hyphens. Found character '".toList ++
        char :: "' at position ".toList ++ decimal pos ++ ".".toList
  | invalidLength length =>
      "Robot ID must be between 1 and 63 characters long. Supplied string has length ".toList ++
        decimal length ++ ".".toList
  | startsWithHyphen => "Robot ID must not start with a hyphen.".toList
  | endsWithHyphen => "Robot ID must not end in a hyphen.".toList

end RobotIdValidationError

def isIdChar (c : Char) : Bool := isLower c || isDigit c || c == '-'

/-- A robot ID can be a host name: a label of letters, digits and inner hyphens. -/
@[ext] structure RobotId where
  str : Str
  chars : ∀ c ∈ str, isIdChar c = true
  length_pos : str ≠ []
  length_le : utf8Len str ≤ 63
  head_ne : str.head? ≠ some '-'
  last_ne : str.getLast? ≠ some '-'

namespace RobotId

/-- The first character that may not occur; upper case is reported as such. -/
def checkChars (pos : ℕ) : Str → Option RobotIdValidationError
  | [] => none
  | char :: rest =>
    if isUpper char then some (.lowercase char pos)
    else if !isLower char && !isDigit char && char != '-' then some (.invalidChar char pos)
    else checkChars (pos + 1) rest

theorem isIdChar_iff {c : Char} :
    isIdChar c = true ↔ isUpper c = false ∧ (!isLower c && !isDigit c && c != '-') = false := by
  have hu : isIdChar c = true → isUpper c = false := by
    intro h
    by_contra hc
    rw [Bool.not_eq_false, isUpper_iff] at hc
    simp only [isIdChar, Bool.or_eq_true, isLower_iff, isDigit_iff, beq_iff_eq] at h
    rcases h with (h | h) | rfl
    · omega
    · omega
    · exact absurd hc (by decide)
  have he : (!isLower c && !isDigit c && c != '-') = !isIdChar c := by
    simp [isIdChar, bne, Bool.not_or]
  rw [he, Bool.not_eq_false']
  exact ⟨fun h => ⟨hu h, h⟩, fun h => h.2⟩

theorem checkChars_eq_none_iff {pos : ℕ} {s : Str} :
    checkChars pos s = none ↔ ∀ c ∈ s, isIdChar c = true := by
  induction s generalizing pos with
  | nil => simp [checkChars]
  | cons c s ih =>
    rw [checkChars, List.forall_mem_cons, isIdChar_iff]
    cases hu : isUpper c with
    | true => simp
    | false =>
      cases hl : (!isLower c && !isDigit c && c != '-') with
      | true => simp
      | false => simpa using ih

def new (id : Str) : Except RobotIdValidationError RobotId :=
  match h : checkChars 0 id with
  | some err => .error err
  | none =>
    if h₁ : id = [] ∨ 63 < utf8Len id then .error (.invalidLength (utf8Len id))
    else if h₂ : id.head? = some '-' then .error .startsWithHyphen
    else if h₃ : id.getLast? = some '-' then .error .endsWithHyphen
    else .ok ⟨id, checkChars_eq_none_iff.mp h, (not_or.mp h₁).1,
      Nat.le_of_not_lt (not_or.mp h₁).2, h₂, h₃⟩

/-- The constructor accepts the strings of robot IDs and keeps them as they are. -/
theorem new_eq_ok_iff {id : Str} {r : RobotId} : new id = .ok r ↔ r.str = id := by
  constructor
  · unfold new
    split
    · simp
    · split_ifs <;> simp [RobotId.ext_iff, eq_comm]
  · rintro rfl
    have h : checkChars 0 r.str = none := checkChars_eq_none_iff.mpr r.chars
    have h₁ : ¬ (r.str = [] ∨ 63 < utf8Len r.str) :=
      not_or.mpr ⟨r.length_pos, Nat.not_lt.mpr r.length_le⟩
    unfold new
    split
    · next err he => rw [h] at he; exact absurd he (by simp)
    · rw [dif_neg h₁, dif_neg r.head_ne, dif_neg r.last_ne]

end RobotId

def rosDomainIdMax : ℕ := 232

inductive RosDomainIdValidationError where
  | outOfRange (value : ℕ)
  | notAnInteger (value : Str)
  deriving DecidableEq, Repr

namespace RosDomainIdValidationError

def message : RosDomainIdValidationError → Str
  | outOfRange value => "ROS domain ID must be between 0 and ".toList ++ decimal rosDomainIdMax ++
      " inclusive. Found ".toList ++ decimal value ++ ".".toList
  | notAnInteger value => "ROS domain ID must be an integer between 0 and ".toList ++
      decimal rosDomainIdMax ++ ". Found '".toList ++ value ++ "'.".toList

end RosDomainIdValidationError

/-- A ROS domain ID: an 8-bit number up to 232. -/
@[ext] structure RosDomainId where
  value : ℕ
  value_le : value ≤ rosDomainIdMax
  deriving DecidableEq, Repr

namespace RosDomainId

def new (value : ℕ) : Except RosDomainIdValidationError RosDomainId :=
  if h : rosDomainIdMax < value then .error (.outOfRange value)
  else .ok ⟨value, Nat.le_of_not_lt h⟩

/-- Reads an 8-bit number and checks its range. -/
def fromStr (s : Str) : Except RosDomainIdValidationError RosDomainId :=
  match parseUnsigned 255 (trim s) with
  | none => .error (.notAnInteger s)
  | some parsed => new parsed

def toStr (d : RosDomainId) : Str := decimal d.value

theorem new_eq_ok_iff {n : ℕ} {d : RosDomainId} : new n = .ok d ↔ d.value = n := by
  unfold new
  constructor
  · split_ifs
    · simp
    · simp [RosDomainId.ext_iff, eq_comm]
  · rintro rfl
    rw [dif_neg (Nat.not_lt.mpr d.value_le)]

theorem fromStr_toStr (d : RosDomainId) : fromStr d.toStr = .ok d := by
  have ht : trim d.toStr = d.toStr :=
    trim_eq_self fun c hc => isWhitespace_of_isDigit (isDigit_of_mem_decimal hc)
  have hd : d.value ≤ 255 := d.value_le.trans (by decide)
  rw [fromStr, ht, toStr, parseUnsigned_decimal hd]
  exact new_eq_ok_iff.mpr rfl

/-- The strings that are read are the numerals of ROS domain IDs, with whitespace around them. -/
theorem fromStr_eq_ok_iff {s : Str} {d : RosDomainId} :
    fromStr s = .ok d ↔ IsNumeral (trim s) d.value := by
  have hle : d.value ≤ 255 := d.value_le.trans (by decide)
  unfold fromStr
  cases hp : parseUnsigned 255 (trim s) with
  | none =>
    refine iff_of_false (by simp) fun hd => ?_
    cases hp.symm.trans (parseUnsigned_eq_some.mpr ⟨hd, hle⟩)
  | some n =>
    have hn : IsNumeral (trim s) n := (parseUnsigned_eq_some.mp hp).1
    rw [new_eq_ok_iff]
    exact ⟨fun h => h ▸ hn, fun hd => hd.unique hn⟩

/-- A string is classified by the range of the number that it is a numeral of, if it is one. -/
structure Classified (s : Str) : Prop where
  inside : ∀ n, IsNumeral (trim s) n → n ≤ 232 →
    ∃ d, fromStr s = .ok d ∧ d.value = n
  outside : ∀ n, IsNumeral (trim s) n → 232 < n →
    ∃ value, fromStr s = .error (.outOfRange value)
  other : (¬ ∃ n, IsNumeral (trim s) n) → ∃ value, fromStr s = .error (.notAnInteger value)

theorem fromStr_of_numeral {s : Str} {n : ℕ} (h : IsNumeral (trim s) n) (hn : n ≤ 255) :
    fromStr s = new n := by
  rw [fromStr, parseUnsigned_eq_some.mpr ⟨h, hn⟩]

theorem fromStr_of_not_numeral {s : Str} (h : ∀ n, IsNumeral (trim s) n → 255 < n) :
    fromStr s = .error (.notAnInteger s) := by
  cases hp : parseUnsigned 255 (trim s) with
  | none => rw [fromStr, hp]
  | some n =>
    obtain ⟨hd, hle⟩ := parseUnsigned_eq_some.mp hp
    exact absurd (h n hd) (Nat.not_lt.mpr hle)

/-- A string is classified by the rule unless it is a numeral of a number that does not fit into
eight bits: such a number is out of range, and no integer to the parser. -/
theorem classified_iff (s : Str) : Classified s ↔ ¬ ∃ n, 255 < n ∧ IsNumeral (trim s) n := by
  constructor
  · rintro h ⟨n, hn, hd⟩
    have hnot : ∀ m, IsNumeral (trim s) m → 255 < m := fun m hm => hd.unique hm ▸ hn
    have hrange : 232 < n := lt_trans (by decide) hn
    obtain ⟨value, he⟩ := h.outside n hd hrange
    rw [fromStr_of_not_numeral hnot] at he
    cases he
  · intro h
    have hfit : ∀ n, IsNumeral (trim s) n → n ≤ 255 := fun n hd =>
      Nat.le_of_not_lt fun hn => h ⟨n, hn, hd⟩
    refine ⟨fun n hd hn => ?_, fun n hd hn => ?_, fun hnone => ?_⟩
    · rw [fromStr_of_numeral hd (hfit n hd)]
      exact ⟨⟨n, hn⟩, new_eq_ok_iff.mpr rfl, rfl⟩
    · have hmax : rosDomainIdMax < n := hn
      rw [fromStr_of_numeral hd (hfit n hd), new, dif_pos hmax]
      exact ⟨n, rfl⟩
    · exact ⟨s, fromStr_of_not_numeral fun n hd => absurd ⟨n, hd⟩ hnone⟩

/-- The number 300 is reported as text. -/
theorem not_classified : ¬ ∀ s, Classified s := by
  intro h
  obtain ⟨value, he⟩ := (h "300".toList).outside 300
    ⟨"300".toList, Or.inl rfl, by decide, by decide, by decide⟩ (by decide)
  have hf : fromStr "300".toList = .error (.notAnInteger "300".toList) := by decide
  rw [hf] at he
  cases he

end RosDomainId

end RobotCtl.Identity
