import RobotCtl.Experiments.Target
import RobotCtl.Library.Traverse
import Mathlib.Data.Set.List

/-! # The grammar of targets

A target is a name, or a name and a suffix after the first colon. A suffix is
empty, the wildcard, or a list of profile names. The parser accepts exactly
these, and of the others it rejects the name first and then the first piece of
the list that is no profile name.
-/

namespace RobotCtl.Experiments

open Text

def isNameStart (c : Char) : Bool := isAlphanumeric c || c == '_' || c == '-'

def isNamePart (c : Char) : Bool := isNameStart c || c == '.'

def IsExperimentName (s : Str) : Prop :=
  ∃ first rest, s = first :: rest ∧ isNameStart first = true ∧ ∀ c ∈ rest, isNamePart c = true

def IsProfileName (s : Str) : Prop :=
  ∃ first rest, s = first :: rest ∧ isAlphanumeric first = true ∧ ∀ c ∈ rest, isNamePart c = true

/-- The name and the suffix of a target, each without the whitespace around it. -/
inductive Splits (s : Str) : Str → Option Str → Prop
  | bare {name : Str} : trim s = name → ':' ∉ name → Splits s (trim name) none
  | suffixed {name suffix : Str} : trim s = name ++ ':' :: suffix → ':' ∉ name →
      Splits s (trim name) (some (trim suffix))

/-- The pieces of a profile list. -/
def pieces (list : Str) : List Str := (split ',' list).map trim

/-- The suffixes of targets. -/
inductive IsSuffix : Option Str → Prop
  | missing : IsSuffix none
  | empty : IsSuffix (some [])
  | wildcard : IsSuffix (some ['*'])
  | list {list : Str} : (∀ piece ∈ pieces list, IsProfileName piece) → IsSuffix (some list)

/-- The profiles that a suffix means. -/
inductive Means : Option Str → Profiles → Prop
  | missing : Means none .none
  | empty : Means (some []) .none
  | wildcard : Means (some ['*']) .all
  | list {list : Str} {names : List ProfileName} :
      names.map ProfileName.str = (pieces list).eraseDups → Means (some list) (.named names)

/-- What is wrong with a piece of a profile list. -/
inductive BadPiece : Str → TargetError → Prop
  | wildcard : BadPiece ['*'] .wildcardWithOthers
  | profile {piece : Str} {source : ProfileNameError} : piece ≠ ['*'] → ¬ IsProfileName piece →
      ProfileName.new piece = .error source → BadPiece piece (.profile piece source)

/-- What is wrong with a target: its name, or else the first bad piece of its profile list. -/
inductive Rejects (s : Str) : TargetError → Prop
  | name {name : Str} {suffix : Option Str} {source : ExperimentNameError} :
      Splits s name suffix → ¬ IsExperimentName name → ExperimentName.new name = .error source →
      Rejects s (.name name source)
  | piece {name list piece : Str} {before after : List Str} {err : TargetError} :
      Splits s name (some list) → IsExperimentName name → list ≠ [] → list ≠ ['*'] →
      pieces list = before ++ piece :: after → (∀ p ∈ before, IsProfileName p) →
      BadPiece piece err → Rejects s err

section Names

variable {s : Str} {c : Char}

theorem isNameChar_eq (c : Char) : isNameChar c = isNamePart c := by
  simp only [isNameChar, isNamePart, isNameStart, Bool.or_assoc, Bool.or_comm (c == '.')]

theorem isNameStart_iff : isNameStart c = true ↔ isNameChar c = true ∧ c ≠ '.' := by
  rw [isNameChar_eq, isNamePart]
  by_cases h : c = '.'
  · subst h; decide
  · simp [h]

theorem exists_experimentName_iff : (∃ name : ExperimentName, name.str = s) ↔
    IsExperimentName s := by
  simp only [IsExperimentName, ← isNameChar_eq]
  constructor
  · rintro ⟨⟨str, hn, hd, hc⟩, rfl⟩
    obtain ⟨first, rest, rfl⟩ := List.exists_cons_of_ne_nil hn
    obtain ⟨hf, hr⟩ := List.forall_mem_cons.mp hc
    exact ⟨first, rest, rfl, isNameStart_iff.mpr ⟨hf, fun he => hd (congrArg some he)⟩, hr⟩
  · rintro ⟨first, rest, rfl, hf, hr⟩
    obtain ⟨hc, hd⟩ := isNameStart_iff.mp hf
    exact ⟨⟨first :: rest, by simp, by simpa using hd, List.forall_mem_cons.mpr ⟨hc, hr⟩⟩, rfl⟩

theorem exists_profileName_iff : (∃ name : ProfileName, name.str = s) ↔ IsProfileName s := by
  simp only [IsProfileName, ← isNameChar_eq]
  constructor
  · rintro ⟨⟨str, ⟨first, rest, rfl, hf⟩, hc⟩, rfl⟩
    exact ⟨first, rest, rfl, hf, fun c h => hc c (List.mem_cons_of_mem _ h)⟩
  · rintro ⟨first, rest, rfl, hf, hr⟩
    exact ⟨⟨first :: rest, ⟨first, rest, rfl, hf⟩, List.forall_mem_cons.mpr
      ⟨ProfileName.isNameChar_of_isAlphanumeric hf, hr⟩⟩, rfl⟩

theorem not_isExperimentName_of_error {source : ExperimentNameError}
    (h : ExperimentName.new s = .error source) : ¬ IsExperimentName s := by
  intro hn
  obtain ⟨name, rfl⟩ := exists_experimentName_iff.mpr hn
  rw [ExperimentName.new_eq_ok_iff.mpr rfl] at h
  cases h

theorem not_isProfileName_of_error {source : ProfileNameError}
    (h : ProfileName.new s = .error source) : ¬ IsProfileName s := by
  intro hn
  obtain ⟨name, rfl⟩ := exists_profileName_iff.mpr hn
  rw [ProfileName.new_eq_ok_iff.mpr rfl] at h
  cases h

theorem not_isProfileName_wildcard : ¬ IsProfileName ['*'] := by
  rintro ⟨first, rest, h, hf, -⟩
  obtain ⟨rfl, -⟩ := List.cons.inj h
  exact absurd hf (by decide)

end Names

section Splitting

variable {s name list : Str} {suffix : Option Str}

/-- The parts of a target as the parser finds them. -/
def parts (s : Str) : Str × Option Str :=
  match splitOnce ':' (trim s) with
  | some (name, suffix) => (trim name, some (trim suffix))
  | none => (trim s, none)

theorem splits_iff : Splits s name suffix ↔ parts s = (name, suffix) := by
  unfold parts
  constructor
  · rintro (⟨rfl, hn⟩ | ⟨hs, hn⟩)
    · rw [splitOnce_eq_none hn, trim_trim]
    · rw [hs, splitOnce_append _ hn]
  · intro h
    by_cases hc : ':' ∈ trim s
    · obtain ⟨name', suffix', hs, hn⟩ := List.eq_append_cons_of_mem hc
      rw [hs, splitOnce_append _ hn] at h
      obtain ⟨rfl, rfl⟩ := Prod.mk.inj h
      exact .suffixed hs hn
    · rw [splitOnce_eq_none hc] at h
      obtain ⟨rfl, rfl⟩ := Prod.mk.inj h
      have hb := Splits.bare rfl hc
      rwa [trim_trim] at hb

/-- A name without a colon stands before the suffix after the next colon. -/
theorem splits_of_colon (suffix : Str) (hn : ':' ∉ name) :
    Splits (name ++ ':' :: suffix) (trim name) (some (trim suffix)) := by
  have ht : ':' ∉ trimStart name := fun h => hn ((List.dropWhile_suffix _).subset h)
  have h := Splits.suffixed (trim_append_cons (by decide) name suffix) ht
  rwa [trim_trimStart, trim_trimEnd] at h

theorem exists_splits (s : Str) : ∃ name suffix, Splits s name suffix :=
  ⟨_, _, splits_iff.mpr rfl⟩

theorem Splits.unique {name' : Str} {suffix' : Option Str} (h : Splits s name suffix)
    (h' : Splits s name' suffix') : name = name' ∧ suffix = suffix' :=
  Prod.mk.inj ((splits_iff.mp h).symm.trans (splits_iff.mp h'))

/-- What the parser makes of a suffix. -/
def parseSuffix : Option Str → Except TargetError Profiles
  | none => .ok .none
  | some list =>
    if list = [] then .ok .none
    else if list = allProfiles then .ok .all
    else ((split ',' list).foldlM Target.parseProfile []).map .named

theorem parse_eq (s : Str) : Target.parse s =
    match ExperimentName.new (parts s).1 with
    | .error source => .error (.name (parts s).1 source)
    | .ok name => (parseSuffix (parts s).2).map fun profiles => ⟨name, profiles⟩ := by
  have hlist : ∀ (name : ExperimentName) (list : Str),
      (if list = [] then .ok ⟨name, .none⟩
        else if list = allProfiles then .ok ⟨name, .all⟩
        else ((split ',' list).foldlM Target.parseProfile []).map fun names =>
          (⟨name, .named names⟩ : Target)) =
        (parseSuffix (some list)).map fun profiles => ⟨name, profiles⟩ := by
    intro name list
    simp only [parseSuffix]
    split_ifs
    · rfl
    · rfl
    · cases (split ',' list).foldlM Target.parseProfile [] <;> rfl
  simp only [Target.parse, parts]
  cases splitOnce ':' (trim s) with
  | none =>
    simp only
    cases ExperimentName.new (trim s) <;> rfl
  | some p =>
    simp only
    cases ExperimentName.new (trim p.1) with
    | error source => rfl
    | ok name => exact hlist name (trim p.2)

theorem Splits.parse (h : Splits s name suffix) : Target.parse s =
    match ExperimentName.new name with
    | .error source => .error (.name name source)
    | .ok name => (parseSuffix suffix).map fun profiles => ⟨name, profiles⟩ := by
  rw [parse_eq, splits_iff.mp h]

end Splitting

section Lists

variable {list piece : Str} {suffix : Option Str} {names : List ProfileName}
  {profiles : Profiles} {err : TargetError}

/-- What the parser makes of one piece of a profile list. -/
def readPiece (piece : Str) : Except TargetError ProfileName :=
  if piece = allProfiles then .error .wildcardWithOthers
  else match ProfileName.new piece with
    | .error source => .error (.profile piece source)
    | .ok profile => .ok profile

theorem readPiece_eq_ok_iff {profile : ProfileName} :
    readPiece piece = .ok profile ↔ piece = profile.str := by
  constructor
  · intro h
    unfold readPiece at h
    split_ifs at h
    split at h
    · cases h
    · next hn =>
      obtain rfl := Except.ok.inj h
      exact (ProfileName.new_eq_ok_iff.mp hn).symm
  · rintro rfl
    have hw : profile.str ≠ allProfiles := fun h =>
      not_isProfileName_wildcard (exists_profileName_iff.mp ⟨profile, h⟩)
    rw [readPiece, if_neg hw, ProfileName.new_eq_ok_iff.mpr rfl]

theorem readPiece_eq_error_iff : readPiece piece = .error err ↔ BadPiece piece err := by
  constructor
  · intro h
    unfold readPiece at h
    split_ifs at h with hw
    · obtain rfl := Except.error.inj h
      exact hw ▸ .wildcard
    · split at h
      · next source hn =>
        obtain rfl := Except.error.inj h
        exact .profile hw (not_isProfileName_of_error hn) hn
      · cases h
  · intro h
    cases h with
    | wildcard => rfl
    | profile hw _ hn =>
      unfold readPiece
      rw [if_neg (by exact hw), hn]

theorem exists_readPiece_iff : (∃ profile, readPiece piece = .ok profile) ↔
    IsProfileName piece := by
  rw [← exists_profileName_iff]
  exact exists_congr fun profile => readPiece_eq_ok_iff.trans eq_comm

/-- The loop over a profile list reads all pieces and keeps the first occurrences. -/
theorem foldlM_parseProfile (list : Str) : (split ',' list).foldlM Target.parseProfile [] =
    ((pieces list).mapM readPiece).map List.eraseDups := by
  have hstep : ∀ (names : List ProfileName) (entry : Str), Target.parseProfile names entry =
      ((readPiece ∘ trim) entry).map (Profiles.pushNew names) := by
    intro names entry
    simp only [Target.parseProfile, readPiece, Function.comp_apply]
    split_ifs
    · rfl
    · cases ProfileName.new (trim entry) <;> rfl
  rw [Traverse.foldlM_eq_mapM hstep, pieces, List.mapM_map]
  congr 1
  funext names
  exact Grouping.foldl_pushNew_nil names

theorem mapM_readPiece_eq_ok_iff :
    (pieces list).mapM readPiece = .ok names ↔ names.map ProfileName.str = pieces list := by
  rw [Traverse.mapM_eq_ok_iff]
  simp only [readPiece_eq_ok_iff]
  rw [← List.forall₂_map_right_iff (R := Eq), List.forall₂_eq_eq_eq, eq_comm]

theorem profileName_str_injective : Function.Injective ProfileName.str :=
  fun _ _ => ProfileName.ext

/-- The names of a list are the pieces without repetitions. -/
theorem exists_mapM_readPiece_iff :
    (∃ all, (pieces list).mapM readPiece = .ok all ∧ all.eraseDups = names) ↔
      names.map ProfileName.str = (pieces list).eraseDups := by
  simp only [mapM_readPiece_eq_ok_iff]
  constructor
  · rintro ⟨all, h, rfl⟩
    rw [← h, Grouping.eraseDups_map profileName_str_injective]
  · intro h
    have hall : ∀ piece ∈ pieces list, ∃ profile : ProfileName, profile.str = piece := by
      intro piece hp
      rw [← List.mem_eraseDups, ← h, List.mem_map] at hp
      obtain ⟨profile, -, hs⟩ := hp
      exact ⟨profile, hs⟩
    obtain ⟨all, ha⟩ : ∃ all : List ProfileName, all.map ProfileName.str = pieces list := by
      have hr := Set.ext_iff.mp (Set.range_list_map ProfileName.str) (pieces list)
      exact hr.mpr hall
    refine ⟨all, ha, (List.map_injective_iff.mpr profileName_str_injective) ?_⟩
    rw [h, ← ha, Grouping.eraseDups_map profileName_str_injective]

theorem pieces_of_not_mem (h : ',' ∉ list) : pieces list = [trim list] := by
  rw [pieces, split_of_not_mem h, List.map_singleton]

theorem pieces_append (a b : Str) : pieces (a ++ ',' :: b) = pieces a ++ pieces b := by
  rw [pieces, split, List.splitOn_append_cons_self, List.map_append]
  rfl

theorem pieces_trimStart (list : Str) : pieces (trimStart list) = pieces list := by
  induction list using split_induction ',' with
  | last a ha =>
    have ht : ',' ∉ trimStart a := fun h => ha ((List.dropWhile_suffix _).subset h)
    rw [pieces_of_not_mem ha, pieces_of_not_mem ht, trim_trimStart]
  | cons a list ha _ =>
    have ht : ',' ∉ trimStart a := fun h => ha ((List.dropWhile_suffix _).subset h)
    rw [trimStart_append_cons (by decide), pieces_append, pieces_append, pieces_of_not_mem ha,
      pieces_of_not_mem ht, trim_trimStart]

theorem pieces_trimEnd (list : Str) : pieces (trimEnd list) = pieces list := by
  induction list using split_induction ',' with
  | last a ha =>
    have ht : ',' ∉ trimEnd a := fun h => ha ((List.rdropWhile_prefix _ _).subset h)
    rw [pieces_of_not_mem ha, pieces_of_not_mem ht, trim_trimEnd]
  | cons a list ha ih =>
    rw [trimEnd_append_cons (by decide), pieces_append, pieces_append, ih]

/-- The whitespace around a profile list is also around its outer pieces. -/
theorem pieces_trim (list : Str) : pieces (trim list) = pieces list := by
  rw [trim, pieces_trimEnd, pieces_trimStart]

theorem pieces_wildcard : pieces ['*'] = [['*']] := by decide

theorem not_means_list_of_piece (hp : piece ∈ pieces list) (hn : ¬ IsProfileName piece) :
    names.map ProfileName.str ≠ (pieces list).eraseDups := by
  intro h
  rw [← List.mem_eraseDups, ← h, List.mem_map] at hp
  obtain ⟨profile, -, rfl⟩ := hp
  exact hn (exists_profileName_iff.mp ⟨profile, rfl⟩)

theorem not_isProfileName_nil : ¬ IsProfileName [] := by
  rintro ⟨first, rest, h, -⟩
  cases h

theorem parseSuffix_list (h : list ≠ []) (hw : list ≠ ['*']) : parseSuffix (some list) =
    (((pieces list).mapM readPiece).map List.eraseDups).map .named := by
  rw [parseSuffix, if_neg h, if_neg (by exact hw), foldlM_parseProfile]

theorem parseSuffix_eq_ok_iff : parseSuffix suffix = .ok profiles ↔ Means suffix profiles := by
  constructor
  · intro h
    cases suffix with
    | none =>
      obtain rfl := Except.ok.inj h
      exact .missing
    | some list =>
      by_cases hn : list = []
      · subst hn
        obtain rfl := Except.ok.inj h
        exact .empty
      by_cases hw : list = ['*']
      · subst hw
        obtain rfl := Except.ok.inj h
        exact .wildcard
      rw [parseSuffix_list hn hw] at h
      cases hm : (pieces list).mapM readPiece with
      | error e => rw [hm] at h; cases h
      | ok all =>
        rw [hm] at h
        obtain rfl := Except.ok.inj h
        exact .list (exists_mapM_readPiece_iff.mp ⟨all, hm, rfl⟩)
  · intro h
    cases h with
    | missing => rfl
    | empty => rfl
    | wildcard => rfl
    | @list list names h =>
      have hn : list ≠ [] := by
        rintro rfl
        exact not_means_list_of_piece (List.mem_singleton_self _) not_isProfileName_nil h
      have hw : list ≠ ['*'] := by
        rintro rfl
        refine not_means_list_of_piece ?_ not_isProfileName_wildcard h
        rw [pieces_wildcard]
        exact List.mem_singleton_self _
      obtain ⟨all, ha, rfl⟩ := exists_mapM_readPiece_iff.mpr h
      rw [parseSuffix_list hn hw, ha]
      rfl

/-- A suffix is rejected for the first bad piece of its list. -/
theorem parseSuffix_eq_error_iff : parseSuffix suffix = .error err ↔
    ∃ list before piece after, suffix = some list ∧ list ≠ [] ∧ list ≠ ['*'] ∧
      pieces list = before ++ piece :: after ∧ (∀ p ∈ before, IsProfileName p) ∧
      BadPiece piece err := by
  have hlist : ∀ {list}, list ≠ [] → list ≠ ['*'] → (parseSuffix (some list) = .error err ↔
      ∃ before piece after, pieces list = before ++ piece :: after ∧
        (∀ p ∈ before, IsProfileName p) ∧ BadPiece piece err) := by
    intro list hn hw
    simp only [← exists_readPiece_iff, ← readPiece_eq_error_iff, ← Traverse.mapM_eq_error_iff]
    rw [parseSuffix_list hn hw]
    cases (pieces list).mapM readPiece with
    | error e => exact ⟨fun h => congrArg _ (Except.error.inj h),
        fun h => congrArg _ (Except.error.inj h)⟩
    | ok names => exact iff_of_false nofun nofun
  constructor
  · intro h
    cases suffix with
    | none => cases h
    | some list =>
      by_cases hn : list = []
      · subst hn; cases h
      by_cases hw : list = ['*']
      · subst hw; cases h
      obtain ⟨before, piece, after, hs, hb, hp⟩ := (hlist hn hw).mp h
      exact ⟨list, before, piece, after, rfl, hn, hw, hs, hb, hp⟩
  · rintro ⟨list, before, piece, after, rfl, hn, hw, h⟩
    exact (hlist hn hw).mpr ⟨before, piece, after, h⟩

theorem exists_means_iff : (∃ profiles, Means suffix profiles) ↔ IsSuffix suffix := by
  constructor
  · rintro ⟨profiles, h⟩
    cases h with
    | missing => exact .missing
    | empty => exact .empty
    | wildcard => exact .wildcard
    | list h =>
      refine .list fun piece hp => ?_
      by_contra hn
      exact not_means_list_of_piece hp hn h
  · intro h
    cases h with
    | missing => exact ⟨_, .missing⟩
    | empty => exact ⟨_, .empty⟩
    | wildcard => exact ⟨_, .wildcard⟩
    | @list list h =>
      cases hm : (pieces list).mapM readPiece with
      | ok all => exact ⟨_, .list (exists_mapM_readPiece_iff.mp ⟨all, hm, rfl⟩)⟩
      | error e =>
        obtain ⟨before, piece, after, hs, -, hp⟩ := Traverse.mapM_eq_error_iff.mp hm
        have hg : IsProfileName piece := h piece (hs ▸ by simp)
        obtain ⟨profile, ho⟩ := exists_readPiece_iff.mpr hg
        rw [ho] at hp
        cases hp

/-- A profile list that is accepted names at least one profile, and none twice. -/
theorem Means.named (h : Means suffix (.named names)) : names ≠ [] ∧ names.Nodup := by
  cases h with
  | @list list names h =>
    constructor
    · rintro rfl
      obtain ⟨piece, hp⟩ := List.exists_mem_of_ne_nil (pieces list) (by simp [pieces, split])
      rw [← List.mem_eraseDups, ← h] at hp
      cases hp
    · rw [← List.nodup_map_iff profileName_str_injective, h]
      exact Grouping.nodup_eraseDups _

end Lists

section Parsing

variable {s : Str} {target : Target} {names : List ProfileName}

theorem parse_eq_ok_iff : Target.parse s = .ok target ↔
    ∃ suffix, Splits s target.name.str suffix ∧ Means suffix target.profiles := by
  constructor
  · intro h
    obtain ⟨name, suffix, hs⟩ := exists_splits s
    rw [hs.parse] at h
    cases hn : ExperimentName.new name with
    | error source => rw [hn] at h; cases h
    | ok name' =>
      cases hp : parseSuffix suffix with
      | error err => rw [hn, hp] at h; cases h
      | ok profiles =>
        rw [hn, hp] at h
        obtain rfl := Except.ok.inj h
        refine ⟨suffix, ?_, parseSuffix_eq_ok_iff.mp hp⟩
        rwa [ExperimentName.new_eq_ok_iff.mp hn]
  · rintro ⟨suffix, hs, hm⟩
    rw [hs.parse, ExperimentName.new_eq_ok_iff.mpr rfl, parseSuffix_eq_ok_iff.mpr hm]
    rfl

theorem exists_parse_iff : (∃ target, Target.parse s = .ok target) ↔
    ∃ name suffix, Splits s name suffix ∧ IsExperimentName name ∧ IsSuffix suffix := by
  simp only [parse_eq_ok_iff]
  constructor
  · rintro ⟨target, suffix, hs, hm⟩
    exact ⟨_, suffix, hs, exists_experimentName_iff.mp ⟨target.name, rfl⟩,
      exists_means_iff.mp ⟨_, hm⟩⟩
  · rintro ⟨name, suffix, hs, hn, hm⟩
    obtain ⟨name, rfl⟩ := exists_experimentName_iff.mpr hn
    obtain ⟨profiles, hp⟩ := exists_means_iff.mpr hm
    exact ⟨⟨name, profiles⟩, suffix, hs, hp⟩

theorem parse_eq_error_iff {err : TargetError} :
    Target.parse s = .error err ↔ Rejects s err := by
  constructor
  · intro h
    obtain ⟨name, suffix, hs⟩ := exists_splits s
    rw [hs.parse] at h
    cases hn : ExperimentName.new name with
    | error source =>
      rw [hn] at h
      obtain rfl := Except.error.inj h
      exact .name hs (not_isExperimentName_of_error hn) hn
    | ok name' =>
      have hname : IsExperimentName name :=
        exists_experimentName_iff.mp ⟨name', ExperimentName.new_eq_ok_iff.mp hn⟩
      cases hp : parseSuffix suffix with
      | ok profiles => rw [hn, hp] at h; cases h
      | error e =>
        rw [hn, hp] at h
        obtain rfl := Except.error.inj h
        obtain ⟨list, before, piece, after, rfl, hne, hw, hl, hb, hbad⟩ :=
          parseSuffix_eq_error_iff.mp hp
        exact .piece hs hname hne hw hl hb hbad
  · intro h
    cases h with
    | name hs _ hn => rw [hs.parse, hn]
    | piece hs hn hne hw hl hb hbad =>
      obtain ⟨name, rfl⟩ := exists_experimentName_iff.mpr hn
      have hp := parseSuffix_eq_error_iff.mpr ⟨_, _, _, _, rfl, hne, hw, hl, hb, hbad⟩
      rw [hs.parse, ExperimentName.new_eq_ok_iff.mpr rfl, hp]
      rfl

/-- A target with a list of profiles has no other colon than the one before its list. -/
theorem colon_not_mem_of_parse {name list : Str}
    (h : Target.parse (name ++ ':' :: list) = .ok target) (hp : target.profiles = .named names) :
    ':' ∉ name := by
  intro hm
  obtain ⟨first, rest, rfl, hf⟩ := List.eq_append_cons_of_mem hm
  obtain ⟨suffix, hs, hmeans⟩ := parse_eq_ok_iff.mp h
  rw [List.append_assoc, List.cons_append] at hs
  obtain ⟨-, he⟩ := hs.unique (splits_of_colon (rest ++ ':' :: list) hf)
  obtain ⟨piece, hpiece, hc⟩ : ∃ piece ∈ split ',' (rest ++ ':' :: list), ':' ∈ piece :=
    exists_mem_split (by simp) (by decide)
  have hpiece : trim piece ∈ pieces (trim (rest ++ ':' :: list)) := by
    rw [pieces_trim]
    exact List.mem_map_of_mem hpiece
  have hbad : ¬ IsProfileName (trim piece) := by
    intro hn
    obtain ⟨profile, hs⟩ := exists_profileName_iff.mpr hn
    have hchar := profile.chars ':' (hs ▸ mem_trim (by decide) hc)
    exact absurd hchar (by decide)
  rw [hp, he] at hmeans
  generalize trim (rest ++ ':' :: list) = suffix' at hmeans hpiece
  cases hmeans with
  | list hnames => exact not_means_list_of_piece hpiece hbad hnames

/-- What a target with a list of profiles is parsed from. -/
theorem parse_list_iff {name list : Str} (hn : ':' ∉ name) (hp : target.profiles = .named names) :
    Target.parse (name ++ ':' :: list) = .ok target ↔
      target.name.str = trim name ∧ names.map ProfileName.str = (pieces list).eraseDups := by
  rw [parse_eq_ok_iff, hp]
  constructor
  · rintro ⟨suffix, hs, hm⟩
    obtain ⟨hname, rfl⟩ := hs.unique (splits_of_colon list hn)
    refine ⟨hname, ?_⟩
    rw [← pieces_trim list]
    generalize trim list = list' at hm
    cases hm with
    | list h => exact h
  · rintro ⟨hname, h⟩
    refine ⟨some (trim list), ?_, ?_⟩
    · rw [hname]
      exact splits_of_colon list hn
    · rw [← pieces_trim] at h
      exact .list h

theorem parse_named (h : Target.parse s = .ok target) (hn : target.profiles = .named names) :
    names ≠ [] ∧ names.Nodup := by
  obtain ⟨suffix, -, hm⟩ := parse_eq_ok_iff.mp h
  exact (hn ▸ hm).named

/-- The parser accepts exactly the targets of the grammar, with the name and the profiles that
they mean, and rejects the others for their name or for the first bad piece of their list. -/
theorem parse_grammar (s : Str) :
    ((∃ target, Target.parse s = .ok target) ↔
      ∃ name suffix, Splits s name suffix ∧ IsExperimentName name ∧ IsSuffix suffix) ∧
    (∀ target, Target.parse s = .ok target ↔
      ∃ suffix, Splits s target.name.str suffix ∧ Means suffix target.profiles) ∧
    (∀ target names, Target.parse s = .ok target → target.profiles = .named names →
      names ≠ [] ∧ names.Nodup) ∧
    ∀ err, Target.parse s = .error err ↔ Rejects s err :=
  ⟨exists_parse_iff, fun _ => parse_eq_ok_iff, fun _ _ => parse_named, fun _ => parse_eq_error_iff⟩

/-- The wildcard is a piece like the others once there is a list, and the first bad one counts. -/
example : Target.parse " demo : a , * ,-b".toList = .error .wildcardWithOthers := by decide

end Parsing

end RobotCtl.Experiments
