import RobotCtl.Conf.Text

/-! # Writing a key and reading it back

After a write the reader finds the new value exactly when the last assignment
of the key is a line that the writer replaces, or says the same already. Other
keys read as before. Over texts whose assignments are not indented a write
always shows, and keeps them so.
-/

namespace RobotCtl.Conf

open Text

variable {key key' value text : Str} {existing : Option Str}

/-- A value that the reader returns unchanged. -/
def Plain (value : Str) : Prop :=
  ∀ c ∈ value, isWhitespace c = false ∧ c ≠ '"' ∧ c ≠ Char.ofNat 39

theorem Plain.visible (h : Plain value) : ∀ c ∈ value, isWhitespace c = false :=
  fun c hc => (h c hc).1

theorem Plain.newline_not_mem (h : Plain value) : '\n' ∉ value := fun hm =>
  absurd (h.visible _ hm) (by decide)

theorem Plain.stripQuotes (h : Plain value) : stripQuotes value = value := by
  have hq : ∀ q, q ∈ value.head? → q ≠ '"' ∧ q ≠ Char.ofNat 39 := fun q hq =>
    (h q (List.mem_of_mem_head? hq)).2
  cases value with
  | nil => rfl
  | cons c v =>
    obtain ⟨h₁, h₂⟩ := hq c rfl
    simp [Conf.stripQuotes, stripPrefix, Ne.symm h₁, Ne.symm h₂]

theorem Plain.lineValue_assignment (h : Plain value) (hk : IsKey key) :
    lineValue key (assignPrefix key ++ value) = some value := by
  rw [Conf.lineValue_assignment hk, trimEnd_eq_self h.visible, trim_eq_self h.visible,
    h.stripQuotes]

/-- The last line that assigns the key for the reader. -/
def lastAssignment (key text : Str) : Option Str :=
  (lines text).reverse.find? fun l => (lineValue key l).isSome

/-- The line is the last one of the text that assigns the key. -/
def AssignsLast (key text line : Str) : Prop :=
  ∃ before after, lines text = before ++ line :: after ∧ (∃ v, Gives key line v) ∧
    ∀ l ∈ after, ∀ v, ¬ Gives key l v

/-- The condition under which a write shows: no line starts with the key, or the last line that
assigns it does, or that line already says the value. -/
def Effective (existing : Option Str) (key value : Str) : Prop :=
  match existing with
  | none => True
  | some text => (∀ l ∈ lines text, ¬ key ++ ['='] <+: l) ∨
      ∀ l, AssignsLast key text l → key ++ ['='] <+: l ∨ Gives key l value

theorem lineValue_isSome_iff_gives {line : Str} :
    (lineValue key line).isSome = true ↔ ∃ v, Gives key line v := by
  simp only [Option.isSome_iff_exists, lineValue_eq_some_iff]

theorem lastAssignment_eq_some_iff {line : Str} :
    lastAssignment key text = some line ↔ AssignsLast key text line := by
  have hnone : ∀ l, (!(lineValue key l).isSome) = true ↔ ∀ v, ¬ Gives key l v := fun l => by
    rw [Bool.not_eq_true', ← Bool.not_eq_true, lineValue_isSome_iff_gives, not_exists]
  rw [lastAssignment, List.find?_eq_some_iff_append, lineValue_isSome_iff_gives]
  simp only [hnone]
  constructor
  · rintro ⟨hv, after, before, h, ha⟩
    refine ⟨before.reverse, after.reverse, ?_, hv, by simpa using ha⟩
    simpa using congrArg List.reverse h
  · rintro ⟨before, after, h, hv, ha⟩
    exact ⟨hv, after.reverse, before.reverse, by simp [h], by simpa using ha⟩

theorem effective_some_iff : Effective (some text) key value ↔
    (∀ l ∈ lines text, startsWithKey key l = false) ∨
      ∀ l, lastAssignment key text = some l → startsWithKey key l = true ∨
        lineValue key l = some value := by
  simp only [Effective, lastAssignment_eq_some_iff, ← Bool.not_eq_true, startsWithKey_iff,
    lineValue_eq_some_iff, assignPrefix]

theorem findSome_eq_find_bind {α β : Type} (f : α → Option β) (p : α → Bool) (ls : List α)
    (hp : ∀ l, p l = (f l).isSome) : ls.findSome? f = (ls.find? p).bind f := by
  induction ls with
  | nil => rfl
  | cons l ls ih =>
    rw [List.findSome?_cons, List.find?_cons, hp l]
    cases hf : f l with
    | none => simpa using ih
    | some b => simp [hf]

theorem lineValue_rewriteLine (hk : IsKey key) (hv : Plain value) (l : Str) :
    lineValue key (rewriteLine key value l) =
      if startsWithKey key l then some value else lineValue key l := by
  unfold rewriteLine
  split
  · exact hv.lineValue_assignment hk
  · rfl

/-- If some line is replaced, the reader finds what the writer left of the last assignment. -/
theorem parseValue_upsertKey_of_any (hk : IsKey key) (hv : Plain value)
    (h : (lines text).any (startsWithKey key) = true) :
    parseValue (upsertKey (some text) key value) key =
      (lastAssignment key text).bind fun l =>
        if startsWithKey key l then some value else lineValue key l := by
  rw [parseValue_upsertKey hk hv.newline_not_mem, if_pos h, List.append_nil, List.filterMap_map,
    List.getLast?_filterMap]
  have hp : ∀ l, (lineValue key l).isSome = ((lineValue key ∘ rewriteLine key value) l).isSome := by
    intro l
    rw [Function.comp_apply, lineValue_rewriteLine hk hv]
    split
    · next hs => rw [lineValue_isSome hk hs]; rfl
    · rfl
  rw [findSome_eq_find_bind _ _ _ hp, lastAssignment]
  congr 1
  funext l
  exact lineValue_rewriteLine hk hv l

theorem parseValue_upsertKey_of_not_any (hk : IsKey key) (hv : Plain value)
    (h : (lines text).any (startsWithKey key) = false) :
    parseValue (upsertKey (some text) key value) key = some value := by
  rw [parseValue_upsertKey hk hv.newline_not_mem, h]
  simp [hv.lineValue_assignment hk]

theorem parseValue_upsertKey_none (hk : IsKey key) (hv : Plain value) :
    parseValue (upsertKey none key value) key = some value := by
  rw [upsertKey_none, parseValue, lines_joinLines]
  · simp [hv.lineValue_assignment hk]
  · simpa using newline_not_mem_assignment hk hv.newline_not_mem

theorem exists_lastAssignment (hk : IsKey key) (h : (lines text).any (startsWithKey key) = true) :
    ∃ l, lastAssignment key text = some l := by
  obtain ⟨l, hl, hs⟩ := List.any_eq_true.mp h
  rw [← Option.isSome_iff_exists, lastAssignment, List.find?_isSome]
  exact ⟨l, List.mem_reverse.mpr hl, lineValue_isSome hk hs⟩

/-- A write shows in the next read exactly under the stated condition. -/
theorem parseValue_upsertKey_iff (hk : IsKey key) (hv : Plain value) :
    parseValue (upsertKey existing key value) key = some value ↔
      Effective existing key value := by
  cases existing with
  | none => simp [Effective, parseValue_upsertKey_none hk hv]
  | some text =>
    cases h : (lines text).any (startsWithKey key) with
    | false =>
      have ha : ∀ l ∈ lines text, startsWithKey key l = false := by simpa using h
      rw [effective_some_iff]
      simp only [parseValue_upsertKey_of_not_any hk hv h, true_iff]
      exact Or.inl ha
    | true =>
      obtain ⟨l, hl⟩ := exists_lastAssignment hk h
      have hn : ¬ ∀ l ∈ lines text, startsWithKey key l = false := by simpa using h
      rw [effective_some_iff]
      simp only [parseValue_upsertKey_of_any hk hv h, hl, Option.bind_some, hn, false_or,
        Option.some.injEq, forall_eq']
      split
      · next hs => simp [hs]
      · next hs => simp [hs]

theorem parseValue_upsertKey_some_of_ne (hk : IsKey key) (hk' : IsKey key') (hne : key' ≠ key)
    (hv : '\n' ∉ value) :
    parseValue (upsertKey (some text) key value) key' = parseValue text key' := by
  rw [parseValue_upsertKey hk hv, List.filterMap_append, List.filterMap_map]
  have hl : lineValue key' ∘ rewriteLine key value = lineValue key' := by
    funext l
    rw [Function.comp_apply, rewriteLine]
    split
    · next hs =>
      rw [lineValue_of_ne hk hk' hne startsWithKey_assignment, lineValue_of_ne hk hk' hne hs]
    · rfl
  rw [hl, parseValue]
  split
  · simp
  · simp [lineValue_of_ne hk hk' hne startsWithKey_assignment]

theorem parseValue_upsertKey_none_of_ne (hk : IsKey key) (hk' : IsKey key') (hne : key' ≠ key)
    (hv : '\n' ∉ value) : parseValue (upsertKey none key value) key' = none := by
  rw [upsertKey_none, parseValue, lines_joinLines]
  · simp [lineValue_of_ne hk hk' hne startsWithKey_assignment]
  · simpa using newline_not_mem_assignment hk hv

/-- A write changes no other key. -/
theorem parseValue_upsertKey_of_ne (hk : IsKey key) (hk' : IsKey key') (hne : key' ≠ key)
    (hv : '\n' ∉ value) :
    parseValue (upsertKey existing key value) key' = existing.bind (parseValue · key') := by
  cases existing with
  | none => exact parseValue_upsertKey_none_of_ne hk hk' hne hv
  | some text => exact parseValue_upsertKey_some_of_ne hk hk' hne hv

/-- No line that assigns the key is indented. -/
def Unindented (key : Str) (existing : Option Str) : Prop :=
  ∀ text ∈ existing, ∀ l ∈ lines text, ∀ v, Gives key l v → key ++ ['='] <+: l

theorem unindented_iff : Unindented key existing ↔ ∀ text ∈ existing, ∀ l ∈ lines text,
    (lineValue key l).isSome = true → startsWithKey key l = true := by
  simp only [Unindented, lineValue_isSome_iff_gives, startsWithKey_iff, assignPrefix,
    forall_exists_index]

/-- Over unindented assignments a write always shows. -/
theorem Unindented.effective (h : Unindented key existing) (value : Str) :
    Effective existing key value := by
  cases existing with
  | none => trivial
  | some text =>
    refine Or.inr fun l hl => Or.inl ?_
    obtain ⟨before, after, ht, ⟨v, hv⟩, -⟩ := hl
    exact h text rfl l (by simp [ht]) v hv

theorem startsWithKey_stripCr {line : Str} (hk : IsKey key) (h : startsWithKey key line = true) :
    startsWithKey key (stripCr line) = true := by
  rw [startsWithKey_iff] at h ⊢
  rcases stripCr_cases line with he | he
  · rwa [he]
  · rw [he, List.prefix_concat_iff] at h
    refine h.resolve_left fun hc => ?_
    have := hk.visible_prefix '\r' (hc ▸ by simp)
    exact absurd this (by decide)

/-- A write of another key indents nothing. -/
theorem Unindented.upsertKey (h : Unindented key' existing) (hk : IsKey key) (hk' : IsKey key')
    (hne : key' ≠ key) (hv : '\n' ∉ value) :
    Unindented key' (some (upsertKey existing key value)) := by
  rw [unindented_iff] at h ⊢
  have ha := newline_not_mem_assignment hk hv
  have hn : lineValue key' (assignPrefix key ++ value) = none :=
    lineValue_of_ne hk hk' hne startsWithKey_assignment
  rintro _ ⟨⟩ l hl hs
  cases existing with
  | none =>
    rw [upsertKey_none, lines_joinLines (by simpa using ha)] at hl
    obtain rfl : l = stripCr (assignPrefix key ++ value) := by simpa using hl
    rw [lineValue_stripCr, hn] at hs
    cases hs
  | some text =>
    rw [Conf.upsertKey, lines_replaceLines _ ha] at hl
    obtain ⟨m, hm, rfl⟩ := List.mem_map.mp hl
    rw [lineValue_stripCr] at hs
    apply startsWithKey_stripCr hk'
    rcases List.mem_append.mp hm with hm | hm
    · obtain ⟨l, ht, rfl⟩ := List.mem_map.mp hm
      split at hs
      · rw [hn] at hs; cases hs
      · next hc => rw [if_neg hc]; exact h text rfl l ht hs
    · split at hm
      · simp at hm
      · rw [List.mem_singleton.mp hm, hn] at hs; cases hs

end RobotCtl.Conf
