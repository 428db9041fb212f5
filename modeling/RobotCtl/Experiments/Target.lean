import RobotCtl.Library.Ascii
import RobotCtl.Library.Grouping
import RobotCtl.Library.Split

/-! # Experiment names, profiles and targets

A target is one experiment to act on and the compose profiles to act on it
with, parsed from `name[:profile[,profile...]]`. Targets for one experiment are
merged on the command line; in `enabled.conf` the first line for it counts.
-/

namespace RobotCtl.Experiments

open Text

def isNameChar (c : Char) : Bool := isAlphanumeric c || c == '.' || c == '_' || c == '-'

inductive ExperimentNameError where
  | empty
  | pathSeparator
  | relativeComponent
  | hiddenName
  | invalidCharacter (found : Char)
  deriving DecidableEq, Repr

def ExperimentNameError.message : ExperimentNameError → Str
  | empty => "must not be empty".toList
  | pathSeparator => "must not contain a path separator".toList
  | relativeComponent => "must not be a relative path component ('.' or '..')".toList
  | hiddenName => "must not start with '.'".toList
  | invalidCharacter found =>
      "may only contain letters, digits, '.', '_' and '-' (found '".toList ++ found :: "')".toList

/-- An experiment name: one component of a path, and not a hidden one. -/
@[ext] structure ExperimentName where
  str : Str
  ne_nil : str ≠ []
  head_ne : str.head? ≠ some '.'
  chars : ∀ c ∈ str, isNameChar c = true
  deriving DecidableEq

namespace ExperimentName

def new (name : Str) : Except ExperimentNameError ExperimentName :=
  if h₁ : name = [] then .error .empty
  else if '/' ∈ name ∨ Char.ofNat 92 ∈ name then .error .pathSeparator
  else if name = ['.'] ∨ name = ['.', '.'] then .error .relativeComponent
  else if h₂ : name.head? = some '.' then .error .hiddenName
  else match h₃ : name.find? fun c => !isNameChar c with
    | some found => .error (.invalidCharacter found)
    | none => .ok ⟨name, h₁, h₂, by simpa using h₃⟩

theorem new_eq_ok_iff {s : Str} {name : ExperimentName} : new s = .ok name ↔ name.str = s := by
  constructor
  · unfold new
    split_ifs
    · simp
    · simp
    · simp
    · simp
    · split <;> simp [ExperimentName.ext_iff, eq_comm]
  · rintro rfl
    have hc : ∀ c, isNameChar c = false → c ∉ name.str := fun c hf hm => by
      rw [name.chars c hm] at hf
      cases hf
    have hs : ¬ ('/' ∈ name.str ∨ Char.ofNat 92 ∈ name.str) :=
      not_or.mpr ⟨hc _ (by decide), hc _ (by decide)⟩
    have hr : ¬ (name.str = ['.'] ∨ name.str = ['.', '.']) := by
      rintro (h | h) <;> exact name.head_ne (by rw [h]; rfl)
    have hn : (name.str.find? fun c => !isNameChar c) = none := by simpa using name.chars
    unfold new
    rw [dif_neg name.ne_nil, if_neg hs, if_neg hr, dif_neg name.head_ne]
    split
    · next found hf => rw [hn] at hf; cases hf
    · rfl

end ExperimentName

inductive ProfileNameError where
  | empty
  | invalidStart (found : Char)
  | invalidCharacter (found : Char)
  deriving DecidableEq, Repr

def ProfileNameError.message : ProfileNameError → Str
  | empty => "must not be empty".toList
  | invalidStart found => "must start with a letter or a digit (found '".toList ++
      found :: "')".toList
  | invalidCharacter found =>
      "may only contain letters, digits, '.', '_' and '-' (found '".toList ++ found :: "')".toList

/-- A compose profile name. -/
@[ext] structure ProfileName where
  str : Str
  start : ∃ first rest, str = first :: rest ∧ isAlphanumeric first = true
  chars : ∀ c ∈ str, isNameChar c = true
  deriving DecidableEq

namespace ProfileName

theorem isNameChar_of_isAlphanumeric {c : Char} (h : isAlphanumeric c = true) :
    isNameChar c = true := by simp [isNameChar, h]

def new (name : Str) : Except ProfileNameError ProfileName :=
  match name with
  | [] => .error .empty
  | first :: rest =>
    if h₁ : isAlphanumeric first = true then
      match h₂ : rest.find? fun c => !isNameChar c with
      | some found => .error (.invalidCharacter found)
      | none => .ok ⟨first :: rest, ⟨first, rest, rfl, h₁⟩, List.forall_mem_cons.mpr
          ⟨isNameChar_of_isAlphanumeric h₁, by simpa using h₂⟩⟩
    else .error (.invalidStart first)

theorem new_eq_ok_iff {s : Str} {name : ProfileName} : new s = .ok name ↔ name.str = s := by
  constructor
  · unfold new
    split
    · simp
    · split_ifs
      · split <;> simp [ProfileName.ext_iff, eq_comm]
      · simp
  · rintro rfl
    obtain ⟨str, ⟨first, rest, rfl, hf⟩, hc⟩ := name
    have hn : (rest.find? fun c => !isNameChar c) = none := by
      simpa using fun c hm => hc c (List.mem_cons_of_mem _ hm)
    simp only [new]
    rw [dif_pos hf]
    split
    · next found hx => rw [hn] at hx; cases hx
    · rfl

end ProfileName

def allProfiles : Str := ['*']

/-- Which compose profiles to activate for one experiment. -/
inductive Profiles where
  | none
  | all
  | named (names : List ProfileName)
  deriving DecidableEq

namespace Profiles

/-- The flags to put before the compose verb. -/
def args (profiles : Profiles) : List Str :=
  let names := match profiles with
    | none => []
    | all => [allProfiles]
    | named names => names.map ProfileName.str
  names.flatMap fun name => ["--profile".toList, name]

/-- One round of adding names that are not there yet. -/
def pushNew (mine : List ProfileName) (name : ProfileName) : List ProfileName :=
  Grouping.pushNew mine name

/-- Combines two profile sets for the same experiment named twice. -/
def merged : Profiles → Profiles → Profiles
  | all, _ | _, all => all
  | none, other => other
  | mine, none => mine
  | named mine, named other => named (other.foldl pushNew mine)

def display : Profiles → Str
  | none => []
  | all => allProfiles
  | named names => joinWith ", ".toList (names.map ProfileName.str)

end Profiles

inductive TargetError where
  | name (name : Str) (source : ExperimentNameError)
  | profile (profile : Str) (source : ProfileNameError)
  | wildcardWithOthers
  deriving DecidableEq, Repr

def TargetError.message : TargetError → Str
  | .name given source =>
      "'".toList ++ given ++ "' is not a valid experiment name: ".toList ++ source.message
  | .profile given source =>
      "'".toList ++ given ++ "' is not a valid compose profile: ".toList ++ source.message
  | .wildcardWithOthers =>
      "'*' already means every profile, so it cannot be combined with others".toList

/-- One experiment to act on, and the profiles to act on it with. -/
@[ext] structure Target where
  name : ExperimentName
  profiles : Profiles
  deriving DecidableEq

namespace Target

/-- One round of reading a profile list. -/
def parseProfile (names : List ProfileName) (entry : Str) :
    Except TargetError (List ProfileName) :=
  let entry := trim entry
  if entry = allProfiles then .error .wildcardWithOthers
  else match ProfileName.new entry with
    | .error source => .error (.profile entry source)
    | .ok profile => .ok (Profiles.pushNew names profile)

def parse (spec : Str) : Except TargetError Target :=
  let spec := trim spec
  let (name, suffix) := match splitOnce ':' spec with
    | some (name, suffix) => (trim name, some (trim suffix))
    | none => (spec, none)
  match ExperimentName.new name with
  | .error source => .error (.name name source)
  | .ok name =>
    match suffix with
    | none => .ok ⟨name, .none⟩
    | some list =>
      if list = [] then .ok ⟨name, .none⟩
      else if list = allProfiles then .ok ⟨name, .all⟩
      else ((split ',' list).foldlM parseProfile []).map fun names => ⟨name, .named names⟩

def display (target : Target) : Str :=
  match target.profiles with
  | .none => target.name.str
  | profiles => target.name.str ++ " (profiles: ".toList ++ profiles.display ++ [')']

/-- The first target, with the profiles of both. -/
def merge (existing target : Target) : Target :=
  { existing with profiles := existing.profiles.merged target.profiles }

end Target

/-- What reading `enabled.conf` gives: targets, and everything rejected on the way. -/
structure EnabledList where
  targets : List Target
  warnings : List Str

/-- One round of reading `enabled.conf`, for a line and its index. -/
def parseEnabledLine (list : EnabledList) : Str × ℕ → EnabledList
  | (line, number) =>
    let line := trim line
    let place := "line ".toList ++ decimal (number + 1) ++ ": '".toList
    if line = [] ∨ line.head? = some '#' then list
    else match Target.parse line with
      | .error err =>
        { list with warnings := list.warnings ++ [place ++ line ++ "': ".toList ++ err.message] }
      | .ok target =>
        if list.targets.any fun other => other.name = target.name then
          { list with warnings := list.warnings ++
              [place ++ target.name.str ++ "' is listed more than once".toList] }
        else { list with targets := list.targets ++ [target] }

def parseEnabled (text : Str) : EnabledList :=
  (lines text).zipIdx.foldl parseEnabledLine ⟨[], []⟩

/-- Collapses an experiment named more than once into one target with all of its profiles. -/
def mergeDuplicates (targets : List Target) : List Target :=
  Grouping.mergeAll Target.name Target.merge targets

/-- Accepts the spellings people write in a hand-edited file. -/
def parseBool (value : Str) : Option Bool :=
  let value := toLower (trim value)
  if value ∈ ["true".toList, "yes".toList, "on".toList, "1".toList] then some true
  else if value ∈ ["false".toList, "no".toList, "off".toList, "0".toList] then some false
  else none

end RobotCtl.Experiments
