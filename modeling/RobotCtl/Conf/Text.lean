import RobotCtl.Library.Number

/-! # Shell-style configuration text

The reader takes the value of the last line that assigns a key once the line is
trimmed. The writer replaces the lines that start with the key and an equals
sign, or appends one. Both are determined line by line, so a write shows in a
later read exactly when the last assignment is one that the writer replaces.
-/

namespace RobotCtl.Conf

open Text

def assignPrefix (key : Str) : Str := key ++ ['=']

/-- A value without one pair of surrounding quotes. -/
def stripQuotes (value : Str) : Str :=
  ((['"', Char.ofNat 39].findSome? fun quote =>
    (stripPrefix [quote] value).bind (stripSuffix [quote]))).getD value

/-- The value that the reader takes from one line. -/
def lineValue (key line : Str) : Option Str :=
  (stripPrefix (assignPrefix key) (trim line)).map fun value => stripQuotes (trim value)

def parseValue (text key : Str) : Option Str :=
  ((lines text).filterMap (lineValue key)).getLast?

/-- The writer recognises a line by its raw start. -/
def startsWithKey (key line : Str) : Bool := (assignPrefix key).isPrefixOf line

def upsertKey (existing : Option Str) (key value : Str) : Str :=
  let assignment := assignPrefix key ++ value
  match existing with
  | none => assignment ++ ['\n']
  | some existing => replaceLines (startsWithKey key) assignment existing

/-- The text is the value in a pair of quotes. -/
def Quotes (text value : Str) : Prop :=
  ∃ quote, (quote = '"' ∨ quote = Char.ofNat 39) ∧ text = quote :: (value ++ [quote])

/-- The line assigns the value to the key: it is the key and an equals sign, and the value without
the whitespace around it and without its quotes. -/
def Gives (key line value : Str) : Prop :=
  ∃ raw, trim line = key ++ '=' :: raw ∧
    (Quotes (trim raw) value ∨ (∀ v, ¬ Quotes (trim raw) v) ∧ value = trim raw)

/-- The last line of the text that assigns the key assigns this value. -/
def LastAssigns (text key value : Str) : Prop :=
  ∃ before line after, lines text = before ++ line :: after ∧ Gives key line value ∧
    ∀ l ∈ after, ∀ v, ¬ Gives key l v

theorem quotes_iff {text value : Str} : Quotes text value ↔
    ((stripPrefix ['"'] text).bind (stripSuffix ['"'])).or
      ((stripPrefix [Char.ofNat 39] text).bind (stripSuffix [Char.ofNat 39])) = some value := by
  have hpair : ∀ quote, (stripPrefix [quote] text).bind (stripSuffix [quote]) = some value ↔
      text = quote :: (value ++ [quote]) := by
    intro quote
    simp only [Option.bind_eq_some_iff, stripPrefix_eq_some_iff, stripSuffix_eq_some_iff]
    constructor
    · rintro ⟨_, rfl, rfl⟩; rfl
    · rintro rfl; exact ⟨_, rfl, rfl⟩
  have hnone : stripPrefix ['"'] (Char.ofNat 39 :: (value ++ [Char.ofNat 39])) = none := rfl
  rw [Option.or_eq_some_iff, hpair, hpair]
  constructor
  · rintro ⟨quote, rfl | rfl, rfl⟩
    · exact Or.inl rfl
    · exact Or.inr ⟨by rw [hnone]; rfl, rfl⟩
  · rintro (h | ⟨-, h⟩)
    · exact ⟨_, Or.inl rfl, h⟩
    · exact ⟨_, Or.inr rfl, h⟩

theorem stripQuotes_eq_iff {text value : Str} : stripQuotes text = value ↔
    Quotes text value ∨ (∀ v, ¬ Quotes text v) ∧ value = text := by
  have hs : stripQuotes text = (((stripPrefix ['"'] text).bind (stripSuffix ['"'])).or
      ((stripPrefix [Char.ofNat 39] text).bind (stripSuffix [Char.ofNat 39]))).getD text := by
    rw [stripQuotes, List.findSome?_cons, List.findSome?_cons]
    cases (stripPrefix ['"'] text).bind (stripSuffix ['"']) with
    | some v => rfl
    | none => cases (stripPrefix [Char.ofNat 39] text).bind (stripSuffix [Char.ofNat 39]) <;> rfl
  simp only [quotes_iff, hs]
  cases ((stripPrefix ['"'] text).bind (stripSuffix ['"'])).or
      ((stripPrefix [Char.ofNat 39] text).bind (stripSuffix [Char.ofNat 39])) with
  | some v => simp
  | none => simp [eq_comm]

/-- What the reader takes from a line is the value that the line assigns. -/
theorem lineValue_eq_some_iff {key line value : Str} :
    lineValue key line = some value ↔ Gives key line value := by
  simp only [lineValue, Option.map_eq_some_iff, stripPrefix_eq_some_iff, assignPrefix,
    List.append_assoc, List.singleton_append, stripQuotes_eq_iff, Gives]

theorem lineValue_eq_none_iff {key line : Str} :
    lineValue key line = none ↔ ∀ v, ¬ Gives key line v := by
  simp only [← lineValue_eq_some_iff, Option.eq_none_iff_forall_ne_some, ne_eq]

theorem parseValue_eq_findSome (text key : Str) :
    parseValue text key = (lines text).reverse.findSome? (lineValue key) :=
  List.getLast?_filterMap

theorem parseValue_eq_some_iff {text key value : Str} :
    parseValue text key = some value ↔ LastAssigns text key value := by
  rw [parseValue_eq_findSome, List.findSome?_eq_some_iff]
  simp only [LastAssigns, ← lineValue_eq_none_iff]
  simp only [← lineValue_eq_some_iff]
  constructor
  · rintro ⟨after, line, before, h, hv, ha⟩
    refine ⟨before.reverse, line, after.reverse, ?_, hv, by simpa using ha⟩
    simpa using congrArg List.reverse h
  · rintro ⟨before, line, after, h, hv, ha⟩
    exact ⟨after.reverse, line, before.reverse, by simp [h], hv, by simpa using ha⟩

/-- What the writer leaves of one line. -/
def rewriteLine (key value line : Str) : Str :=
  if startsWithKey key line then assignPrefix key ++ value else line

theorem upsertKey_none (key value : Str) :
    upsertKey none key value = joinLines [assignPrefix key ++ value] := by simp [upsertKey]

theorem upsertKey_ne_nil (existing : Option Str) (key value : Str) :
    upsertKey existing key value ≠ [] := by
  cases existing with
  | none => simp [upsertKey]
  | some text => exact replaceLines_ne_nil _ _ _

section Keys

/-- A key as the settings have them: no whitespace, and nothing that ends a name. -/
structure IsKey (key : Str) : Prop where
  visible : ∀ c ∈ key, isWhitespace c = false
  no_equals : '=' ∉ key

variable {key key' value line text : Str}

theorem IsKey.visible_prefix (hk : IsKey key) :
    ∀ c ∈ assignPrefix key, isWhitespace c = false := by
  intro c hc
  rcases List.mem_append.mp hc with hc | hc
  · exact hk.visible c hc
  · rw [List.mem_singleton.mp hc]; decide

theorem IsKey.newline_not_mem (hk : IsKey key) : '\n' ∉ key := fun h =>
  absurd (hk.visible _ h) (by decide)

theorem assignPrefix_ne_nil : assignPrefix key ≠ [] := by simp [assignPrefix]

theorem startsWithKey_iff : startsWithKey key line = true ↔ assignPrefix key <+: line :=
  List.isPrefixOf_iff_prefix

@[simp] theorem lineValue_stripCr : lineValue key (stripCr line) = lineValue key line := by
  simp [lineValue]

theorem lineValue_assignment (hk : IsKey key) (value : Str) :
    lineValue key (assignPrefix key ++ value) = some (stripQuotes (trim (trimEnd value))) := by
  simp [lineValue, trim_append _ assignPrefix_ne_nil hk.visible_prefix]

theorem lineValue_isSome_iff :
    (lineValue key line).isSome = true ↔ assignPrefix key <+: trim line := by
  cases h : stripPrefix (assignPrefix key) (trim line) with
  | none => simp [lineValue, h, stripPrefix_eq_none_iff.mp h]
  | some r => simp [lineValue, stripPrefix_eq_some_iff.mp h]

/-- Every line that the writer replaces assigns the key for the reader too. -/
theorem lineValue_isSome (hk : IsKey key) (h : startsWithKey key line = true) :
    (lineValue key line).isSome = true :=
  lineValue_isSome_iff.mpr
    (prefix_trim assignPrefix_ne_nil hk.visible_prefix (startsWithKey_iff.mp h))

theorem eq_of_assignPrefix (hk : IsKey key) (hk' : IsKey key') (h : assignPrefix key <+: line)
    (h' : assignPrefix key' <+: line) : key = key' := by
  obtain ⟨r, rfl⟩ := h
  obtain ⟨r', he⟩ := h'
  simp only [assignPrefix, List.append_assoc, List.singleton_append] at he
  have hs := congrArg (List.takeWhile (· ≠ '=')) he
  have ht : ∀ (k r : Str), '=' ∉ k → (k ++ '=' :: r).takeWhile (· ≠ '=') = k := by
    intro k r hm
    have hp : ∀ c ∈ k, decide (c ≠ '=') = true := fun c hc => by
      simpa using fun h : c = '=' => hm (h ▸ hc)
    rw [List.takeWhile_append_of_pos hp]
    simp
  rw [ht _ _ hk.no_equals, ht _ _ hk'.no_equals] at hs
  exact hs.symm

/-- A line that the writer replaces says nothing about another key. -/
theorem lineValue_of_ne (hk : IsKey key) (hk' : IsKey key') (hne : key' ≠ key)
    (h : startsWithKey key line = true) : lineValue key' line = none := by
  by_contra hn
  have hs := lineValue_isSome_iff.mp (Option.isSome_iff_ne_none.mpr hn)
  have hp := prefix_trim assignPrefix_ne_nil hk.visible_prefix (startsWithKey_iff.mp h)
  exact hne (eq_of_assignPrefix hk' hk hs hp)

theorem startsWithKey_assignment : startsWithKey key (assignPrefix key ++ value) = true :=
  startsWithKey_iff.mpr (List.prefix_append _ _)

theorem newline_not_mem_assignment (hk : IsKey key) (hv : '\n' ∉ value) :
    '\n' ∉ assignPrefix key ++ value := by simp [assignPrefix, hk.newline_not_mem, hv]

/-- What the reader finds after a write, line by line. -/
theorem parseValue_upsertKey (hk : IsKey key) (hv : '\n' ∉ value) (key' : Str) :
    parseValue (upsertKey (some text) key value) key' =
      (((lines text).map (rewriteLine key value) ++ if (lines text).any (startsWithKey key) then []
        else [assignPrefix key ++ value]).filterMap (lineValue key')).getLast? := by
  rw [parseValue, upsertKey, lines_replaceLines _ (newline_not_mem_assignment hk hv),
    List.filterMap_map]
  congr 2
  funext l
  exact lineValue_stripCr

end Keys

end RobotCtl.Conf
