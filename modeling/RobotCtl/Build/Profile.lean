import Mathlib.Logic.Function.Basic
import RobotCtl.Conf.Update
import RobotCtl.Library.Split
import RobotCtl.Library.System

/-! # Hardware profiles

A profile is shell-style text that the build script reads into overrides of the
built-in defaults. It takes the key to be all that stands before the first equals
sign, trimmed, where the runtime reader wants the equals sign right after the
key. So the two agree on a key unless its last assignment has a space there.
-/

namespace RobotCtl.Build

open Text Conf

inductive Kind | str | optionalStr | robotId | rosDomainId | u32
  deriving DecidableEq, Repr

structure Knob where
  /-- The environment variable, which is also the profile key. -/
  var : Str
  /-- The constant that the binary reads. -/
  konst : Str
  kind : Kind
  /-- The built-in default, as a profile would write it. -/
  value : Str
  deriving DecidableEq, Repr

/-- Every compiled-in default. -/
def knobs : List Knob := [
  ⟨"ROBOTCTL_DATA_DIR".toList, "DEFAULT_DATA_DIR".toList, .str, "/data".toList⟩,
  ⟨"ROBOTCTL_CONFIG_DIR".toList, "DEFAULT_CONFIG_DIR".toList, .str, "/data/robot".toList⟩,
  ⟨"ROBOTCTL_HOSTNAME_PATH".toList, "DEFAULT_HOSTNAME_PATH".toList, .str, "/etc/hostname".toList⟩,
  ⟨"ROBOTCTL_HOSTS_PATH".toList, "DEFAULT_HOSTS_PATH".toList, .str, "/etc/hosts".toList⟩,
  ⟨"ROBOTCTL_RUN_DIR".toList, "DEFAULT_RUN_DIR".toList, .str, "/run/robot-wifi".toList⟩,
  ⟨"ROBOTCTL_WIFI_INTERFACE".toList, "DEFAULT_WIFI_INTERFACE".toList, .str, "wlan-ctrl".toList⟩,
  ⟨"ROBOTCTL_WIFI_UNIT".toList, "DEFAULT_WIFI_UNIT".toList, .str,
    "robotctl-wifi.service".toList⟩,
  ⟨"ROBOTCTL_WIFI_STATE_HOOK".toList, "DEFAULT_WIFI_STATE_HOOK".toList, .optionalStr, []⟩,
  ⟨"ROBOTCTL_MDNS_UNIT".toList, "DEFAULT_MDNS_UNIT".toList, .optionalStr,
    "avahi-daemon.service".toList⟩,
  ⟨"ROBOTCTL_IMAGE_VERSION_PATH".toList, "DEFAULT_IMAGE_VERSION_PATH".toList, .str,
    "/etc/robot/image-version".toList⟩,
  ⟨"ROBOTCTL_TRYBOOT_BACKEND".toList, "DEFAULT_TRYBOOT_BACKEND".toList, .str,
    "/usr/libexec/rauc/tryboot-backend".toList⟩,
  ⟨"ROBOTCTL_DEFAULT_ROBOT_ID".toList, "DEFAULT_ROBOT_ID".toList, .robotId,
    "unprovisioned".toList⟩,
  ⟨"ROBOTCTL_DEFAULT_ROS_DOMAIN_ID".toList, "DEFAULT_ROS_DOMAIN_ID".toList, .rosDomainId,
    "0".toList⟩,
  ⟨"ROBOTCTL_WIFI_CONNECT_TIMEOUT_SEC".toList, "DEFAULT_WIFI_CONNECT_TIMEOUT_SEC".toList, .u32,
    "45".toList⟩,
  ⟨"ROBOTCTL_WIFI_CLIENT_ATTEMPTS".toList, "DEFAULT_WIFI_CLIENT_ATTEMPTS".toList, .u32,
    "3".toList⟩,
  ⟨"ROBOTCTL_WIFI_RETRY_SEC".toList, "DEFAULT_WIFI_RETRY_SEC".toList, .u32, "5".toList⟩,
  ⟨"ROBOTCTL_WIFI_LINK_POLL_SEC".toList, "DEFAULT_WIFI_LINK_POLL_SEC".toList, .u32,
    "10".toList⟩,
  ⟨"ROBOTCTL_WIFI_AP_RETRY_SEC".toList, "DEFAULT_WIFI_AP_RETRY_SEC".toList, .u32,
    "300".toList⟩]

def knownKeys : List Str := knobs.map Knob.var

/-- The settings of a profile, by key. -/
abbrev Overrides := Str → Option Str

/-- The build script's own copy of the runtime function. -/
def stripQuotes (value : Str) : Str :=
  ((['"', Char.ofNat 39].findSome? fun quote =>
    (stripPrefix [quote] value).bind (stripSuffix [quote]))).getD value

def fileLine (path : FilePath) (index : ℕ) : Str :=
  path.display ++ ":".toList ++ decimal (index + 1)

/-- One round of reading a profile. -/
def readProfileLine (path : FilePath) (values : Overrides) (entry : Str × ℕ) :
    Except Str Overrides :=
  let line := trim entry.1
  if line = [] ∨ line.head? = some '#' then .ok values
  else match splitOnce '=' line with
    | none => .error (fileLine path entry.2 ++ ": '".toList ++ line ++
        "' is not a KEY=value assignment, a comment, or blank.".toList)
    | some (key, value) =>
      let key := trim key
      if knobs.any (·.var = key) then
        .ok (Function.update values key (some (stripQuotes (trim value))))
      else .error (fileLine path entry.2 ++ ": '".toList ++ key ++
        "' is not a robotctl setting. Known keys: ".toList ++
        joinWith ", ".toList knownKeys ++ ".".toList)

/-- Reads a profile, given the reply to the read of its file. -/
def readProfile (path : FilePath) : Io Str → Except Str Overrides
  | .error err => .error ("reading ".toList ++ path.display ++ ": ".toList ++ err.text)
  | .ok text => (lines text).zipIdx.foldlM (readProfileLine path) fun _ => none

/-- The key and the value of a line that assigns one, as the build script splits it. -/
def assignment (line : Str) : Option (Str × Str) :=
  if trim line = [] ∨ (trim line).head? = some '#' then none
  else (splitOnce '=' (trim line)).map fun p => (trim p.1, stripQuotes (trim p.2))

/-- The value that the build script takes from one line. -/
def profileValue (key line : Str) : Option Str :=
  (assignment line).bind fun p => if p.1 = key then some p.2 else none

/-- The line assigns the key for the build script. -/
def Assigns (key line : Str) : Bool := (profileValue key line).isSome

/-- The equals sign of the line stands right after the key. -/
def Tight (key line : Str) : Bool := (assignPrefix key).isPrefixOf (trim line)

def lastLine (p : Str → Bool) (text : Str) : Option Str := (lines text).reverse.find? p

/-- The last line that assigns the key has no space before its equals sign, or assigns just what
the last such line does. -/
def SpacesHarmless (key text : Str) : Prop :=
  ∀ l, lastLine (Assigns key) text = some l → Tight key l = true ∨
    ∃ l', lastLine (Tight key) text = some l' ∧
      (assignment l').map Prod.snd = (assignment l).map Prod.snd

variable {path : FilePath} {key line text : Str} {values : Overrides}

theorem readProfileLine_ok {values' : Overrides} {entry : Str × ℕ}
    (h : readProfileLine path values entry = .ok values') (key : Str) :
    values' key = (profileValue key entry.1).or (values key) := by
  simp only [readProfileLine] at h
  split at h
  · next hs =>
    obtain rfl := Except.ok.inj h
    rw [profileValue, assignment, if_pos hs]
    rfl
  · next hs =>
    rw [profileValue, assignment, if_neg hs]
    split at h
    · cases h
    · next k v hp =>
      split at h
      · obtain rfl := Except.ok.inj h
        rw [hp]
        by_cases hk : trim k = key
        · simp [hk]
        · simp [hk, Function.update_of_ne (Ne.symm hk)]
      · cases h

/-- Among the lines of a profile the last assignment of a key wins. -/
theorem foldlM_readProfileLine {entries : List (Str × ℕ)} {values' : Overrides}
    (h : entries.foldlM (readProfileLine path) values = .ok values') (key : Str) :
    values' key = ((entries.map Prod.fst).filterMap (profileValue key)).getLast?.or
      (values key) := by
  induction entries generalizing values with
  | nil =>
    obtain rfl := Except.ok.inj h
    rfl
  | cons entry entries ih =>
    rw [List.foldlM_cons] at h
    cases hs : readProfileLine path values entry with
    | error err => rw [hs] at h; cases h
    | ok middle =>
      rw [hs] at h
      rw [ih h, readProfileLine_ok hs, List.map_cons, List.filterMap_cons]
      cases profileValue key entry.1 with
      | none => rfl
      | some v =>
        rw [List.getLast?_cons]
        cases (List.filterMap (profileValue key) (entries.map Prod.fst)).getLast? <;> rfl

theorem readProfile_ok (h : readProfile path (.ok text) = .ok values) (key : Str) :
    values key = (lines text).reverse.findSome? (profileValue key) := by
  have hv := foldlM_readProfileLine h key
  rw [List.zipIdx_map_fst, Option.or_none] at hv
  rw [hv, List.getLast?_filterMap]

/-- A key as the knobs have them. -/
structure IsKnobKey (key : Str) : Prop extends IsKey key where
  no_hash : key.head? ≠ some '#'

theorem isKnobKey_of_mem (h : key ∈ knownKeys) : IsKnobKey key := by
  have hd : ∀ k ∈ knownKeys, (∀ c ∈ k, isWhitespace c = false) ∧ '=' ∉ k ∧
    k.head? ≠ some '#' := by decide
  obtain ⟨h₁, h₂, h₃⟩ := hd key h
  exact ⟨⟨h₁, h₂⟩, h₃⟩

theorem tight_iff : Tight key line = true ↔ assignPrefix key <+: trim line :=
  List.isPrefixOf_iff_prefix

/-- Both readers take the same value from a line without a space before its equals sign. -/
theorem profileValue_of_tight (hk : IsKnobKey key) (h : Tight key line = true) :
    profileValue key line = lineValue key line := by
  obtain ⟨r, hr⟩ := tight_iff.mp h
  have hline : trim line = key ++ '=' :: r := by rw [← hr]; simp [assignPrefix]
  have hs : ¬ (trim line = [] ∨ (trim line).head? = some '#') := by
    rw [hline]
    rintro (hc | hc)
    · simp at hc
    · cases hkey : key with
      | nil => simp [hkey] at hc
      | cons c key' =>
        rw [hkey] at hc
        exact hk.no_hash (hkey ▸ hc)
  have hl : lineValue key line = some (Conf.stripQuotes (trim r)) := by
    rw [lineValue, ← hr, stripPrefix_append]
    rfl
  rw [profileValue, assignment, if_neg hs, hline, splitOnce_append r hk.no_equals, hl]
  simp only [Option.map_some, Option.bind_some, trim_eq_self hk.visible, if_true]
  rfl

theorem assigns_of_tight (hk : IsKnobKey key) (h : Tight key line = true) :
    Assigns key line = true := by
  rw [Assigns, profileValue_of_tight hk h]
  exact lineValue_isSome_iff.mpr (tight_iff.mp h)

/-- A line that assigns the key has the value that stands right of its equals sign. -/
theorem profileValue_of_assigns (h : Assigns key line = true) :
    profileValue key line = (assignment line).map Prod.snd := by
  rw [Assigns, profileValue] at h
  rw [profileValue]
  cases ha : assignment line with
  | none => rfl
  | some p =>
    by_cases hk : p.1 = key
    · simp [hk]
    · simp [ha, hk] at h

theorem readProfile_eq_lastLine (h : readProfile path (.ok text) = .ok values) (key : Str) :
    values key = (lastLine (Assigns key) text).bind (profileValue key) := by
  rw [readProfile_ok h]
  exact findSome_eq_find_bind _ _ _ fun _ => rfl

theorem parseValue_eq_lastLine (hk : IsKnobKey key) (text : Str) :
    parseValue text key = (lastLine (Tight key) text).bind (profileValue key) := by
  have hp : ∀ l, Tight key l = (lineValue key l).isSome := by
    intro l
    rw [Bool.eq_iff_iff, tight_iff, lineValue_isSome_iff]
  rw [parseValue_eq_findSome, findSome_eq_find_bind _ _ _ hp, lastLine]
  cases hl : (lines text).reverse.find? (Tight key) with
  | none => rfl
  | some l => exact (profileValue_of_tight hk (List.find?_some hl)).symm

/-- If the last line of a kind is of a narrower kind, it is the last of that kind too. -/
theorem lastLine_of_imp {p q : Str → Bool} (hpq : ∀ l, q l = true → p l = true)
    (hl : lastLine p text = some line) (hq : q line = true) : lastLine q text = some line := by
  obtain ⟨-, before, after, he, hn⟩ := List.find?_eq_some_iff_append.mp hl
  rw [lastLine, List.find?_eq_some_iff_append]
  refine ⟨hq, before, after, he, fun l hm => ?_⟩
  have hp := hn l hm
  simp only [Bool.not_eq_true'] at hp ⊢
  by_contra hc
  rw [hpq l (by simpa using hc)] at hp
  cases hp

/-- Both readers agree on a key exactly if the spaces before its equals signs are harmless. -/
theorem agrees_key_iff (hk : IsKnobKey key) (h : readProfile path (.ok text) = .ok values) :
    values key = parseValue text key ↔ SpacesHarmless key text := by
  have hsub : ∀ l, Tight key l = true → Assigns key l = true := fun _ => assigns_of_tight hk
  rw [readProfile_eq_lastLine h, parseValue_eq_lastLine hk]
  unfold SpacesHarmless
  cases hl : lastLine (Assigns key) text with
  | none =>
    have hn : lastLine (Tight key) text = none := by
      rw [lastLine, List.find?_eq_none] at hl ⊢
      exact fun l hm ht => hl l hm (hsub l ht)
    simp [hn]
  | some l =>
    have ha : Assigns key l = true := List.find?_some hl
    simp only [Option.some.injEq, forall_eq', Option.bind_some]
    constructor
    · intro he
      rw [or_iff_not_imp_left]
      intro _
      cases ht : lastLine (Tight key) text with
      | none => rw [ht] at he; rw [Assigns, he] at ha; cases ha
      | some l' =>
        have hl' := profileValue_of_assigns (hsub l' (List.find?_some ht))
        rw [ht, Option.bind_some, hl', profileValue_of_assigns ha] at he
        exact ⟨l', rfl, he.symm⟩
    · rintro (ht | ⟨l', ht, he⟩)
      · rw [lastLine_of_imp hsub hl ht]
        rfl
      · have hl' := profileValue_of_assigns (hsub l' (List.find?_some ht))
        rw [ht, Option.bind_some, hl', profileValue_of_assigns ha, he]

/-- An accepted profile means the same to the build and to the runtime reader exactly if for every
key the spaces before its equals signs are harmless. -/
theorem agrees_iff (h : readProfile path (.ok text) = .ok values) :
    (∀ key ∈ knownKeys, values key = parseValue text key) ↔
      ∀ key ∈ knownKeys, SpacesHarmless key text :=
  forall₂_congr fun _ hk => agrees_key_iff (isKnobKey_of_mem hk) h

/-- What a profile with one setting overrides. -/
def single (key value : Str) : Overrides := Function.update (fun _ => none) key (some value)

theorem agrees_tight : (∀ key ∈ knownKeys, single "ROBOTCTL_DATA_DIR".toList "/x".toList key =
    parseValue "ROBOTCTL_DATA_DIR=/x\n".toList key) ↔
      ∀ key ∈ knownKeys, SpacesHarmless key "ROBOTCTL_DATA_DIR=/x\n".toList := by
  have h : readProfile [] (.ok "ROBOTCTL_DATA_DIR=/x\n".toList) =
    .ok (single "ROBOTCTL_DATA_DIR".toList "/x".toList) := rfl
  exact agrees_iff h

/-- The build accepts a space before the equals sign, and the runtime reader skips the line. -/
theorem not_agrees : ¬ ∀ (path : FilePath) (text : Str) (values : Overrides),
    readProfile path (.ok text) = .ok values →
      ∀ key ∈ knownKeys, values key = parseValue text key := by
  intro h
  have hr : readProfile [] (.ok "ROBOTCTL_DATA_DIR =/x\n".toList) =
    .ok (single "ROBOTCTL_DATA_DIR".toList "/x".toList) := rfl
  have hc := h [] _ _ hr "ROBOTCTL_DATA_DIR".toList (by decide)
  rw [single, Function.update_self] at hc
  revert hc
  decide

end RobotCtl.Build
