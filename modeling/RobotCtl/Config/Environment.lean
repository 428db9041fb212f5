import RobotCtl.Build.Defaults
import RobotCtl.Config
import RobotCtl.Library.Grouping

/-! # Resolving the configuration

Every setting is read from its environment variable, then from the profile that
the binary was built with, then from the built-in defaults: the first that has a
value that counts decides. The configuration is what the deciding texts say.
-/

namespace RobotCtl.Config

open Text Identity Build

/-- The environment variables, as far as they are set and Unicode. -/
abbrev Environment := Str → Option Str

/-- The constants of the generated code that the configuration reads. -/
structure Defaults where
  dataDir : Str
  configDir : Str
  hostnamePath : Str
  hostsPath : Str
  runDir : Str
  wifiInterface : Str
  wifiUnit : Str
  wifiStateHook : Str
  mdnsUnit : Str
  imageVersionPath : Str
  trybootBackend : Str
  robotId : Str
  rosDomainId : ℕ
  wifiConnectTimeoutSec : ℕ
  wifiClientAttempts : ℕ
  wifiRetrySec : ℕ
  wifiLinkPollSec : ℕ
  wifiApRetrySec : ℕ

def u32Max : ℕ := 4294967295

/-- The value of a 32-bit constant of the binary. -/
def u32Const (constants : List Constant) (konst : Str) : Option ℕ :=
  (constants.find? (·.konst = konst)).bind fun c =>
    if c.ty = u32Type then parseUnsigned u32Max c.literal else none

/-- The defaults of a binary, unless a constant is missing or has another type. -/
def Defaults.ofConstants (L : StrLiterals) (constants : List Constant) : Option Defaults := do
  let dataDir ← strConst L constants "DEFAULT_DATA_DIR".toList
  let configDir ← strConst L constants "DEFAULT_CONFIG_DIR".toList
  let hostnamePath ← strConst L constants "DEFAULT_HOSTNAME_PATH".toList
  let hostsPath ← strConst L constants "DEFAULT_HOSTS_PATH".toList
  let runDir ← strConst L constants "DEFAULT_RUN_DIR".toList
  let wifiInterface ← strConst L constants "DEFAULT_WIFI_INTERFACE".toList
  let wifiUnit ← strConst L constants "DEFAULT_WIFI_UNIT".toList
  let wifiStateHook ← strConst L constants "DEFAULT_WIFI_STATE_HOOK".toList
  let mdnsUnit ← strConst L constants "DEFAULT_MDNS_UNIT".toList
  let imageVersionPath ← strConst L constants "DEFAULT_IMAGE_VERSION_PATH".toList
  let trybootBackend ← strConst L constants "DEFAULT_TRYBOOT_BACKEND".toList
  let robotId ← strConst L constants defaultRobotIdConst
  let rosDomainId ← u8Const constants defaultRosDomainIdConst
  let wifiConnectTimeoutSec ← u32Const constants "DEFAULT_WIFI_CONNECT_TIMEOUT_SEC".toList
  let wifiClientAttempts ← u32Const constants "DEFAULT_WIFI_CLIENT_ATTEMPTS".toList
  let wifiRetrySec ← u32Const constants "DEFAULT_WIFI_RETRY_SEC".toList
  let wifiLinkPollSec ← u32Const constants "DEFAULT_WIFI_LINK_POLL_SEC".toList
  let wifiApRetrySec ← u32Const constants "DEFAULT_WIFI_AP_RETRY_SEC".toList
  pure ⟨dataDir, configDir, hostnamePath, hostsPath, runDir, wifiInterface, wifiUnit,
    wifiStateHook, mdnsUnit, imageVersionPath, trybootBackend, robotId, rosDomainId,
    wifiConnectTimeoutSec, wifiClientAttempts, wifiRetrySec, wifiLinkPollSec, wifiApRetrySec⟩

/-- All paths, units and defaults, also those of commands that are not modelled. -/
structure AllPaths extends Paths where
  wifiUnit : Str
  imageVersionPath : FilePath
  trybootBackend : FilePath

section Resolve

variable (pathBuf : Str → FilePath) (env : Environment)

def pathFromEnv (var default : Str) : FilePath :=
  match env var with
  | some value => if trim value ≠ [] then pathBuf value else pathBuf default
  | none => pathBuf default

def stringFromEnv (var default : Str) : Str :=
  match env var with
  | some value => if trim value ≠ [] then trim value else default
  | none => default

def u32FromEnv (var : Str) (default : ℕ) : ℕ :=
  match env var with
  | some raw => (parseUnsigned u32Max (trim raw)).getD default
  | none => default

/-- Nothing if the binary panics on its own default. -/
def defaultRobotIdFromEnv (default : Str) : Option RobotId :=
  match env "ROBOTCTL_DEFAULT_ROBOT_ID".toList with
  | some raw =>
    match RobotId.new raw with
    | .ok id => some id
    | .error _ => builtinDefaultRobotId default
  | none => builtinDefaultRobotId default

/-- Nothing if the binary panics on its own default. -/
def defaultRosDomainIdFromEnv (default : ℕ) : Option RosDomainId :=
  match env "ROBOTCTL_DEFAULT_ROS_DOMAIN_ID".toList with
  | some raw =>
    match RosDomainId.fromStr raw with
    | .ok id => some id
    | .error _ => builtinDefaultRosDomainId default
  | none => builtinDefaultRosDomainId default

def AllPaths.fromEnv (defaults : Defaults) : Option AllPaths := do
  let defaultRobotId ← defaultRobotIdFromEnv env defaults.robotId
  let defaultRosDomainId ← defaultRosDomainIdFromEnv env defaults.rosDomainId
  let path := pathFromEnv pathBuf env
  pure {
    dataDir := path "ROBOTCTL_DATA_DIR".toList defaults.dataDir
    configDir := path "ROBOTCTL_CONFIG_DIR".toList defaults.configDir
    hostnamePath := path "ROBOTCTL_HOSTNAME_PATH".toList defaults.hostnamePath
    hostsPath := path "ROBOTCTL_HOSTS_PATH".toList defaults.hostsPath
    wifiRunDir := path "ROBOTCTL_RUN_DIR".toList defaults.runDir
    wifiInterface := stringFromEnv env "ROBOTCTL_WIFI_INTERFACE".toList defaults.wifiInterface
    wifiUnit := stringFromEnv env "ROBOTCTL_WIFI_UNIT".toList defaults.wifiUnit
    rawWifiStateHook := (env "ROBOTCTL_WIFI_STATE_HOOK".toList).getD defaults.wifiStateHook
    rawMdnsUnit := (env "ROBOTCTL_MDNS_UNIT".toList).getD defaults.mdnsUnit
    imageVersionPath := path "ROBOTCTL_IMAGE_VERSION_PATH".toList defaults.imageVersionPath
    trybootBackend := path "ROBOTCTL_TRYBOOT_BACKEND".toList defaults.trybootBackend
    defaultRobotId, defaultRosDomainId }

def SuperviseTuning.fromEnv (defaults : Defaults) : SuperviseTuning where
  connectTimeoutSec :=
    u32FromEnv env "ROBOTCTL_WIFI_CONNECT_TIMEOUT_SEC".toList defaults.wifiConnectTimeoutSec
  clientAttempts :=
    max (u32FromEnv env "ROBOTCTL_WIFI_CLIENT_ATTEMPTS".toList defaults.wifiClientAttempts) 1
  retrySec := u32FromEnv env "ROBOTCTL_WIFI_RETRY_SEC".toList defaults.wifiRetrySec
  linkPollSec :=
    max (u32FromEnv env "ROBOTCTL_WIFI_LINK_POLL_SEC".toList defaults.wifiLinkPollSec) 1
  apRetrySec :=
    max (u32FromEnv env "ROBOTCTL_WIFI_AP_RETRY_SEC".toList defaults.wifiApRetrySec) 1

/-- The configuration of a binary in an environment. -/
def configure (L : StrLiterals) (constants : List Constant) : Option (AllPaths × SuperviseTuning) :=
  do
    let defaults ← Defaults.ofConstants L constants
    let paths ← AllPaths.fromEnv pathBuf env defaults
    pure (paths, SuperviseTuning.fromEnv env defaults)

end Resolve

section Texts

/-- The value of the environment variable is trimmed although it is a string. -/
def IsTrimmed (var : Str) : Prop :=
  var = "ROBOTCTL_WIFI_INTERFACE".toList ∨ var = "ROBOTCTL_WIFI_UNIT".toList

instance (var : Str) : Decidable (IsTrimmed var) := inferInstanceAs (Decidable (_ ∨ _))

/-- The text that the value of an environment variable stands for, if it counts. -/
def meaning (knob : Knob) (raw : Str) : Option Str :=
  match knob.kind with
  | .str => if trim raw = [] then none
      else some (if IsTrimmed knob.var then trim raw else raw)
  | .optionalStr => some raw
  | .robotId => if (RobotId.new raw).isOk then some raw else none
  | .rosDomainId => if (RosDomainId.fromStr raw).isOk then some (trim raw) else none
  | .u32 => if (parseUnsigned u32Max (trim raw)).isSome then some (trim raw) else none

/-- The text of a setting that is compiled in. -/
def builtText (overrides : Overrides) (var : Str) : Str :=
  match knobs.find? (·.var = var) with
  | some knob => (overrides var).getD knob.value
  | none => []

/-- The text that decides a setting: of the environment if that counts, else what is compiled in. -/
def decidingText (env : Environment) (overrides : Overrides) (var : Str) : Str :=
  match knobs.find? (·.var = var) with
  | some knob => ((env var).bind (meaning knob)).getD (builtText overrides var)
  | none => []

/-- The configuration that the texts of all settings spell. -/
def interpret (pathBuf : Str → FilePath) (text : Str → Str) :
    Option (AllPaths × SuperviseTuning) := do
  let robotId ← (RobotId.new (text "ROBOTCTL_DEFAULT_ROBOT_ID".toList)).toOption
  let rosDomainId ← (parseUnsigned 255 (text "ROBOTCTL_DEFAULT_ROS_DOMAIN_ID".toList)).bind
    fun value => (RosDomainId.new value).toOption
  let number := fun var => parseUnsigned u32Max (text var)
  let connectTimeoutSec ← number "ROBOTCTL_WIFI_CONNECT_TIMEOUT_SEC".toList
  let clientAttempts ← number "ROBOTCTL_WIFI_CLIENT_ATTEMPTS".toList
  let retrySec ← number "ROBOTCTL_WIFI_RETRY_SEC".toList
  let linkPollSec ← number "ROBOTCTL_WIFI_LINK_POLL_SEC".toList
  let apRetrySec ← number "ROBOTCTL_WIFI_AP_RETRY_SEC".toList
  let path := fun var => pathBuf (text var)
  pure (
    { dataDir := path "ROBOTCTL_DATA_DIR".toList
      configDir := path "ROBOTCTL_CONFIG_DIR".toList
      hostnamePath := path "ROBOTCTL_HOSTNAME_PATH".toList
      hostsPath := path "ROBOTCTL_HOSTS_PATH".toList
      wifiRunDir := path "ROBOTCTL_RUN_DIR".toList
      wifiInterface := text "ROBOTCTL_WIFI_INTERFACE".toList
      wifiUnit := text "ROBOTCTL_WIFI_UNIT".toList
      rawWifiStateHook := text "ROBOTCTL_WIFI_STATE_HOOK".toList
      rawMdnsUnit := text "ROBOTCTL_MDNS_UNIT".toList
      imageVersionPath := path "ROBOTCTL_IMAGE_VERSION_PATH".toList
      trybootBackend := path "ROBOTCTL_TRYBOOT_BACKEND".toList
      defaultRobotId := robotId
      defaultRosDomainId := rosDomainId },
    ⟨connectTimeoutSec, max clientAttempts 1, retrySec, max linkPollSec 1, max apRetrySec 1⟩)

end Texts

section Constants

variable {L : StrLiterals} {version : Str} {profile : Option Profile} {overrides : Overrides}
  {constants : List Constant} {knob : Knob} {var konst raw : Str} {r : Str × Str}

theorem nodup_vars : (knobs.map Knob.var).Nodup := by decide +kernel

theorem nodup_konsts : ("LONG_VERSION".toList :: knobs.map Knob.konst).Nodup := by
  decide +kernel

/-- The setting of a variable, and its constant and kind. -/
def IsSetting (var konst : Str) (kind : Kind) : Prop :=
  ∃ knob ∈ knobs, knob.var = var ∧ knob.konst = konst ∧ knob.kind = kind

instance (var konst : Str) (kind : Kind) : Decidable (IsSetting var konst kind) :=
  inferInstanceAs (Decidable (∃ knob ∈ knobs, _))

theorem find_knob (h : knob ∈ knobs) : knobs.find? (·.var = knob.var) = some knob := by
  have hs : knobs.filter (·.var = knob.var) = [knob] := Grouping.filter_key_of_nodup nodup_vars h
  rw [← List.head?_filter, hs, List.head?_cons]

theorem builtText_knob (h : knob ∈ knobs) :
    builtText overrides knob.var = (overrides knob.var).getD knob.value := by
  rw [builtText, find_knob h]

theorem renderKnob_ok {c : Constant} (h : renderKnob L profile overrides knob = .ok c) :
    c.konst = knob.konst ∧
      render L knob ((overrides knob.var).getD knob.value) profile = .ok (c.ty, c.literal) := by
  unfold renderKnob at h
  cases hr : render L knob ((overrides knob.var).getD knob.value) profile with
  | error e => rw [hr] at h; cases h
  | ok p =>
    rw [hr] at h
    obtain rfl := Except.ok.inj h
    exact ⟨rfl, rfl⟩

/-- The constant of a knob is the rendering of its text. -/
theorem find_constant (h : generate L version profile overrides = .ok constants)
    (hm : knob ∈ knobs) : ∃ c, constants.find? (·.konst = knob.konst) = some c ∧
      render L knob (builtText overrides knob.var) profile = .ok (c.ty, c.literal) := by
  unfold generate at h
  cases hc : knobs.mapM (renderKnob L profile overrides) with
  | error e => rw [hc] at h; cases h
  | ok cs =>
    rw [hc] at h
    obtain rfl : longVersion L version profile :: cs = constants := Except.ok.inj h
    have hkonsts : cs.map Constant.konst = knobs.map Knob.konst :=
      Traverse.map_of_mapM hc fun _ _ hr => (renderKnob_ok hr).1
    have hnodup : ((longVersion L version profile :: cs).map Constant.konst).Nodup := by
      rw [List.map_cons, hkonsts]
      exact nodup_konsts
    obtain ⟨c, hmem, hr⟩ := (Traverse.mem_of_mapM hc).2 knob hm
    obtain ⟨hkonst, hr⟩ := renderKnob_ok hr
    have hs := Grouping.filter_key_of_nodup hnodup (List.mem_cons_of_mem _ hmem)
    refine ⟨c, ?_, by rwa [builtText_knob hm]⟩
    rw [← List.head?_filter, ← hkonst, hs, List.head?_cons]

variable (h : generate L version profile overrides = .ok constants)
include h

theorem strConst_of_str (hs : IsSetting var konst .str) :
    strConst L constants konst = some (builtText overrides var) := by
  obtain ⟨knob, hm, rfl, rfl, hk⟩ := hs
  obtain ⟨c, hc, hr⟩ := find_constant h hm
  simp only [render, hk] at hr
  split_ifs at hr
  obtain ⟨hty, hlit⟩ := Prod.mk.inj (Except.ok.inj hr)
  rw [strConst, hc, Option.bind_some, if_pos hty.symm, ← hlit, L.denotes_debug]

theorem strConst_of_optionalStr (hs : IsSetting var konst .optionalStr) :
    strConst L constants konst = some (builtText overrides var) := by
  obtain ⟨knob, hm, rfl, rfl, hk⟩ := hs
  obtain ⟨c, hc, hr⟩ := find_constant h hm
  simp only [render, hk] at hr
  obtain ⟨hty, hlit⟩ := Prod.mk.inj (Except.ok.inj hr)
  rw [strConst, hc, Option.bind_some, if_pos hty.symm, ← hlit, L.denotes_debug]

theorem strConst_of_robotId (hs : IsSetting var konst .robotId) :
    strConst L constants konst = some (builtText overrides var) ∧
      ∃ id, RobotId.new (builtText overrides var) = .ok id := by
  obtain ⟨knob, hm, rfl, rfl, hk⟩ := hs
  obtain ⟨c, hc, hr⟩ := find_constant h hm
  obtain ⟨hid, hr⟩ := (render_robotId_iff hk).mp hr
  obtain ⟨hty, hlit⟩ := Prod.mk.inj hr
  refine ⟨?_, hid⟩
  rw [strConst, hc, Option.bind_some, if_pos hty, hlit, L.denotes_debug]

theorem u8Const_of_rosDomainId (hs : IsSetting var konst .rosDomainId) :
    ∃ d : RosDomainId, u8Const constants konst = some d.value ∧
      parseUnsigned 255 (builtText overrides var) = some d.value := by
  obtain ⟨knob, hm, rfl, rfl, hk⟩ := hs
  obtain ⟨c, hc, hr⟩ := find_constant h hm
  obtain ⟨d, hd, hr⟩ := (render_rosDomainId_iff hk).mp hr
  obtain ⟨hty, hlit⟩ := Prod.mk.inj hr
  have hle : d.value ≤ 255 := d.value_le.trans (by decide)
  refine ⟨d, ?_, hd⟩
  rw [u8Const, hc, Option.bind_some, if_pos hty, hlit, parseUnsigned_decimal hle]

theorem u32Const_of_u32 (hs : IsSetting var konst .u32) :
    ∃ n, u32Const constants konst = some n ∧
      parseUnsigned u32Max (builtText overrides var) = some n := by
  obtain ⟨knob, hm, rfl, rfl, hk⟩ := hs
  obtain ⟨c, hc, hr⟩ := find_constant h hm
  simp only [render, hk] at hr
  cases hp : parseUnsigned 4294967295 (builtText overrides knob.var) with
  | none => rw [hp] at hr; cases hr
  | some n =>
    rw [hp] at hr
    obtain ⟨hty, hlit⟩ := Prod.mk.inj (Except.ok.inj hr)
    refine ⟨n, ?_, hp⟩
    have hle : n ≤ u32Max := (parseUnsigned_eq_some_iff.mp hp).2.2
    rw [u32Const, hc, Option.bind_some, if_pos hty.symm, ← hlit, parseUnsigned_decimal hle]

end Constants

section Readers

variable {pathBuf : Str → FilePath} {env : Environment} {overrides : Overrides}
  {var konst : Str} {n : ℕ}

theorem decidingText_setting (env : Environment) (overrides : Overrides) {kind : Kind}
    (hs : IsSetting var konst kind) : ∃ knob, knob.var = var ∧ knob.kind = kind ∧
      decidingText env overrides var =
        ((env var).bind (meaning knob)).getD (builtText overrides var) := by
  obtain ⟨knob, hm, rfl, rfl, rfl⟩ := hs
  exact ⟨knob, rfl, rfl, by rw [decidingText, find_knob hm]⟩

theorem pathFromEnv_eq (hs : IsSetting var konst .str) (ht : ¬IsTrimmed var) :
    pathFromEnv pathBuf env var (builtText overrides var) =
      pathBuf (decidingText env overrides var) := by
  obtain ⟨knob, rfl, hk, hd⟩ := decidingText_setting env overrides hs
  rw [hd, pathFromEnv]
  cases env knob.var with
  | none => rfl
  | some value =>
    by_cases hv : trim value = [] <;> simp [meaning, hk, hv, ht]

theorem stringFromEnv_eq (hs : IsSetting var konst .str) (ht : IsTrimmed var) :
    stringFromEnv env var (builtText overrides var) = decidingText env overrides var := by
  obtain ⟨knob, rfl, hk, hd⟩ := decidingText_setting env overrides hs
  rw [hd, stringFromEnv]
  cases env knob.var with
  | none => rfl
  | some value =>
    by_cases hv : trim value = [] <;> simp [meaning, hk, hv, ht]

theorem optionalFromEnv_eq (hs : IsSetting var konst .optionalStr) :
    (env var).getD (builtText overrides var) = decidingText env overrides var := by
  obtain ⟨knob, rfl, hk, hd⟩ := decidingText_setting env overrides hs
  rw [hd]
  cases env knob.var <;> simp [meaning, hk]

theorem u32FromEnv_eq (hs : IsSetting var konst .u32)
    (hn : parseUnsigned u32Max (builtText overrides var) = some n) :
    parseUnsigned u32Max (decidingText env overrides var) = some (u32FromEnv env var n) := by
  obtain ⟨knob, rfl, hk, hd⟩ := decidingText_setting env overrides hs
  rw [hd, u32FromEnv]
  cases env knob.var with
  | none => exact hn
  | some raw =>
    simp only [Option.bind_some, meaning, hk]
    cases hp : parseUnsigned u32Max (trim raw) with
    | none => simpa using hn
    | some m => simpa using hp

theorem defaultRobotIdFromEnv_eq
    (hs : IsSetting "ROBOTCTL_DEFAULT_ROBOT_ID".toList konst .robotId) :
    defaultRobotIdFromEnv env (builtText overrides "ROBOTCTL_DEFAULT_ROBOT_ID".toList) =
      (RobotId.new (decidingText env overrides "ROBOTCTL_DEFAULT_ROBOT_ID".toList)).toOption := by
  obtain ⟨knob, hv, hk, hd⟩ := decidingText_setting env overrides hs
  rw [hd, defaultRobotIdFromEnv]
  cases env "ROBOTCTL_DEFAULT_ROBOT_ID".toList with
  | none => rw [builtinDefaultRobotId, Option.bind_none, Option.getD_none]
  | some raw =>
    simp only [Option.bind_some, meaning, hk]
    cases hn : RobotId.new raw with
    | ok id =>
      have hok : (Except.ok id : Except RobotIdValidationError RobotId).isOk = true := rfl
      rw [if_pos hok, Option.getD_some, hn]
      rfl
    | error err =>
      have herr : (Except.error err : Except RobotIdValidationError RobotId).isOk ≠ true :=
        Bool.false_ne_true
      rw [if_neg herr, Option.getD_none, builtinDefaultRobotId]

theorem defaultRosDomainIdFromEnv_eq
    (hs : IsSetting "ROBOTCTL_DEFAULT_ROS_DOMAIN_ID".toList konst .rosDomainId)
    (hn : parseUnsigned 255 (builtText overrides "ROBOTCTL_DEFAULT_ROS_DOMAIN_ID".toList) =
      some n) :
    defaultRosDomainIdFromEnv env n =
      (parseUnsigned 255 (decidingText env overrides "ROBOTCTL_DEFAULT_ROS_DOMAIN_ID".toList)).bind
        fun value => (RosDomainId.new value).toOption := by
  obtain ⟨knob, hv, hk, hd⟩ := decidingText_setting env overrides hs
  have hdefault : builtinDefaultRosDomainId n = (parseUnsigned 255 (builtText overrides
      "ROBOTCTL_DEFAULT_ROS_DOMAIN_ID".toList)).bind fun value =>
        (RosDomainId.new value).toOption := by rw [hn]; rfl
  rw [hd, defaultRosDomainIdFromEnv]
  cases env "ROBOTCTL_DEFAULT_ROS_DOMAIN_ID".toList with
  | none => rw [hdefault, Option.bind_none, Option.getD_none]
  | some raw =>
    simp only [Option.bind_some, meaning, hk]
    cases hf : RosDomainId.fromStr raw with
    | error err =>
      have herr : (Except.error err : Except RosDomainIdValidationError RosDomainId).isOk ≠ true :=
        Bool.false_ne_true
      rw [if_neg herr, Option.getD_none, hdefault]
    | ok id =>
      have hok : (Except.ok id : Except RosDomainIdValidationError RosDomainId).isOk = true := rfl
      rw [if_pos hok, Option.getD_some]
      rw [RosDomainId.fromStr] at hf
      cases hp : parseUnsigned 255 (trim raw) with
      | none => rw [hp] at hf; cases hf
      | some value =>
        rw [hp] at hf
        simp only [Option.bind_some, hf]
        rfl

end Readers

section Layers

variable {L : StrLiterals} {version : Str} {source : Option (Profile × Io Str)}
  {constants : List Constant} {overrides : Overrides} {profile : Option Profile}

/-- What a build overrides, with no profile or with one and the reply to the read of its file. -/
def overridesOf : Option (Profile × Io Str) → Except Str Overrides
  | none => .ok fun _ => none
  | some (profile, reply) => readProfile profile.path reply

theorem generate_of_build (h : build L version source = .ok constants) :
    ∃ overrides, overridesOf source = .ok overrides ∧
      generate L version (source.map Prod.fst) overrides = .ok constants := by
  cases source with
  | none => exact ⟨_, rfl, h⟩
  | some source =>
    obtain ⟨profile, reply⟩ := source
    unfold build at h
    cases hr : readProfile profile.path reply with
    | error e => simp only [hr] at h; cases h
    | ok overrides =>
      simp only [hr] at h
      exact ⟨overrides, hr, h⟩

/-- The deciding text is what is compiled in, or what the environment means. -/
theorem decidingText_cases (env : Environment) (overrides : Overrides) {var konst : Str}
    {kind : Kind} (hs : IsSetting var konst kind) :
    decidingText env overrides var = builtText overrides var ∨ ∃ knob raw, knob.kind = kind ∧
      meaning knob raw = some (decidingText env overrides var) := by
  obtain ⟨knob, rfl, hk, hd⟩ := decidingText_setting env overrides hs
  rw [hd]
  cases hm : (env knob.var).bind (meaning knob) with
  | none => exact Or.inl rfl
  | some text =>
    obtain ⟨raw, -, hraw⟩ := Option.bind_eq_some_iff.mp hm
    exact Or.inr ⟨knob, raw, hk, hraw⟩

section Settings

variable (h : generate L version profile overrides = .ok constants) (pathBuf : Str → FilePath)
  (env : Environment) (var konst : Str)
include h

/-- A path: its constant is what is compiled in, and its value is that of the deciding text. -/
theorem path_setting (hs : IsSetting var konst .str) (ht : ¬IsTrimmed var) :
    strConst L constants konst = some (builtText overrides var) ∧
      pathFromEnv pathBuf env var (builtText overrides var) =
        pathBuf (decidingText env overrides var) :=
  ⟨strConst_of_str h hs, pathFromEnv_eq hs ht⟩

theorem string_setting (hs : IsSetting var konst .str) (ht : IsTrimmed var) :
    strConst L constants konst = some (builtText overrides var) ∧
      stringFromEnv env var (builtText overrides var) = decidingText env overrides var :=
  ⟨strConst_of_str h hs, stringFromEnv_eq hs ht⟩

theorem optional_setting (hs : IsSetting var konst .optionalStr) :
    strConst L constants konst = some (builtText overrides var) ∧
      (env var).getD (builtText overrides var) = decidingText env overrides var :=
  ⟨strConst_of_optionalStr h hs, optionalFromEnv_eq hs⟩

theorem number_setting (hs : IsSetting var konst .u32) : ∃ n,
    u32Const constants konst = some n ∧
      parseUnsigned u32Max (decidingText env overrides var) = some (u32FromEnv env var n) := by
  obtain ⟨n, hn, ht⟩ := u32Const_of_u32 h hs
  exact ⟨n, hn, u32FromEnv_eq hs ht⟩

theorem robotId_setting (hs : IsSetting var konst .robotId) :
    strConst L constants konst = some (builtText overrides var) ∧
      ∃ id, RobotId.new (decidingText env overrides var) = .ok id := by
  obtain ⟨hc, hid⟩ := strConst_of_robotId h hs
  refine ⟨hc, ?_⟩
  rcases decidingText_cases env overrides hs with hd | ⟨knob, raw, hk, hm⟩
  · rwa [hd]
  · simp only [meaning, hk] at hm
    cases hn : RobotId.new raw with
    | ok id =>
      rw [hn] at hm
      exact ⟨id, by rw [← Option.some.inj hm, hn]⟩
    | error err => rw [hn] at hm; cases hm

theorem rosDomainId_setting (hs : IsSetting var konst .rosDomainId) : ∃ n : ℕ, ∃ d : RosDomainId,
    u8Const constants konst = some n ∧
      parseUnsigned 255 (builtText overrides var) = some n ∧
      parseUnsigned 255 (decidingText env overrides var) = some d.value := by
  obtain ⟨d, hc, ht⟩ := u8Const_of_rosDomainId h hs
  rcases decidingText_cases env overrides hs with hd | ⟨knob, raw, hk, hm⟩
  · exact ⟨d.value, d, hc, ht, by rw [hd, ht]⟩
  · simp only [meaning, hk] at hm
    cases hf : RosDomainId.fromStr raw with
    | error err => rw [hf] at hm; cases hm
    | ok d' =>
      rw [hf] at hm
      refine ⟨d.value, d', hc, ht, ?_⟩
      rw [← Option.some.inj hm]
      rw [RosDomainId.fromStr] at hf
      cases hp : parseUnsigned 255 (trim raw) with
      | none => rw [hp] at hf; cases hf
      | some n => rw [hp] at hf; rw [RosDomainId.new_eq_ok_iff.mp hf]

end Settings

/-- A binary has all of its defaults, does not panic on them, and resolves the configuration that
the deciding texts spell. -/
theorem exists_configure (h : generate L version profile overrides = .ok constants)
    (pathBuf : Str → FilePath) (env : Environment) : ∃ c,
      configure pathBuf env L constants = some c ∧
        interpret pathBuf (decidingText env overrides) = some c := by
  obtain ⟨c₁, e₁⟩ := path_setting h pathBuf env "ROBOTCTL_DATA_DIR".toList
    "DEFAULT_DATA_DIR".toList (by decide) (by decide)
  obtain ⟨c₂, e₂⟩ := path_setting h pathBuf env "ROBOTCTL_CONFIG_DIR".toList
    "DEFAULT_CONFIG_DIR".toList (by decide) (by decide)
  obtain ⟨c₃, e₃⟩ := path_setting h pathBuf env "ROBOTCTL_HOSTNAME_PATH".toList
    "DEFAULT_HOSTNAME_PATH".toList (by decide) (by decide)
  obtain ⟨c₄, e₄⟩ := path_setting h pathBuf env "ROBOTCTL_HOSTS_PATH".toList
    "DEFAULT_HOSTS_PATH".toList (by decide) (by decide)
  obtain ⟨c₅, e₅⟩ := path_setting h pathBuf env "ROBOTCTL_RUN_DIR".toList
    "DEFAULT_RUN_DIR".toList (by decide) (by decide)
  obtain ⟨c₆, e₆⟩ := path_setting h pathBuf env "ROBOTCTL_IMAGE_VERSION_PATH".toList
    "DEFAULT_IMAGE_VERSION_PATH".toList (by decide) (by decide)
  obtain ⟨c₇, e₇⟩ := path_setting h pathBuf env "ROBOTCTL_TRYBOOT_BACKEND".toList
    "DEFAULT_TRYBOOT_BACKEND".toList (by decide) (by decide)
  obtain ⟨s₁, v₁⟩ := string_setting h env "ROBOTCTL_WIFI_INTERFACE".toList
    "DEFAULT_WIFI_INTERFACE".toList (by decide) (by decide)
  obtain ⟨s₂, v₂⟩ := string_setting h env "ROBOTCTL_WIFI_UNIT".toList
    "DEFAULT_WIFI_UNIT".toList (by decide) (by decide)
  obtain ⟨o₁, w₁⟩ := optional_setting h env "ROBOTCTL_WIFI_STATE_HOOK".toList
    "DEFAULT_WIFI_STATE_HOOK".toList (by decide)
  obtain ⟨o₂, w₂⟩ := optional_setting h env "ROBOTCTL_MDNS_UNIT".toList
    "DEFAULT_MDNS_UNIT".toList (by decide)
  obtain ⟨n₁, u₁, m₁⟩ := number_setting h env "ROBOTCTL_WIFI_CONNECT_TIMEOUT_SEC".toList
    "DEFAULT_WIFI_CONNECT_TIMEOUT_SEC".toList (by decide)
  obtain ⟨n₂, u₂, m₂⟩ := number_setting h env "ROBOTCTL_WIFI_CLIENT_ATTEMPTS".toList
    "DEFAULT_WIFI_CLIENT_ATTEMPTS".toList (by decide)
  obtain ⟨n₃, u₃, m₃⟩ := number_setting h env "ROBOTCTL_WIFI_RETRY_SEC".toList
    "DEFAULT_WIFI_RETRY_SEC".toList (by decide)
  obtain ⟨n₄, u₄, m₄⟩ := number_setting h env "ROBOTCTL_WIFI_LINK_POLL_SEC".toList
    "DEFAULT_WIFI_LINK_POLL_SEC".toList (by decide)
  obtain ⟨n₅, u₅, m₅⟩ := number_setting h env "ROBOTCTL_WIFI_AP_RETRY_SEC".toList
    "DEFAULT_WIFI_AP_RETRY_SEC".toList (by decide)
  have robot : IsSetting "ROBOTCTL_DEFAULT_ROBOT_ID".toList defaultRobotIdConst .robotId := by
    decide
  have ros : IsSetting "ROBOTCTL_DEFAULT_ROS_DOMAIN_ID".toList defaultRosDomainIdConst
      .rosDomainId := by decide
  obtain ⟨r₁, id, hid⟩ := robotId_setting h env _ _ robot
  obtain ⟨n, d, r₂, hn, hd⟩ := rosDomainId_setting h env _ _ ros
  have hnew : RosDomainId.new d.value = .ok d := RosDomainId.new_eq_ok_iff.mpr rfl
  simp only [configure, Defaults.ofConstants, AllPaths.fromEnv, SuperviseTuning.fromEnv, interpret,
    Option.bind_eq_bind, Option.bind_some, Option.pure_def, Except.toOption,
    c₁, c₂, c₃, c₄, c₅, c₆, c₇, s₁, s₂, o₁, o₂, u₁, u₂, u₃, u₄, u₅, r₁, r₂,
    e₁, e₂, e₃, e₄, e₅, e₆, e₇, v₁, v₂, w₁, w₂, m₁, m₂, m₃, m₄, m₅,
    defaultRobotIdFromEnv_eq robot, defaultRosDomainIdFromEnv_eq ros hn, hid, hd, hnew]
  exact ⟨_, rfl, rfl⟩

/-- A build goes through if every value is accepted. -/
theorem exists_generate (L : StrLiterals) (version : Str) (profile : Option Profile)
    (h : ∀ knob ∈ knobs, ∃ r,
      render L knob ((overrides knob.var).getD knob.value) profile = .ok r) :
    ∃ constants, generate L version profile overrides = .ok constants := by
  cases hm : knobs.mapM (renderKnob L profile overrides) with
  | ok constants => exact ⟨_, by rw [generate, hm]; rfl⟩
  | error err =>
    obtain ⟨before, knob, after, hk, -, he⟩ := Traverse.mapM_eq_error_iff.mp hm
    obtain ⟨r, hr⟩ := h knob (by rw [hk]; simp)
    rw [renderKnob, hr] at he
    cases he

/-- Every build that succeeds gives a binary that never panics on its configuration and, whatever
the environment, resolves the one that the deciding texts spell. -/
theorem configure_layered (h : build L version source = .ok constants) :
    ∃ overrides, overridesOf source = .ok overrides ∧ ∀ pathBuf env, ∃ c,
      configure pathBuf env L constants = some c ∧
        interpret pathBuf (decidingText env overrides) = some c := by
  obtain ⟨overrides, ho, hg⟩ := generate_of_build h
  exact ⟨overrides, ho, exists_configure hg⟩

theorem generate_of_readProfile {profile : Profile} {reply : Io Str}
    (h : readProfile profile.path reply = .ok overrides) :
    build L version (some (profile, reply)) = generate L version (some profile) overrides := by
  unfold build
  simp only [h]
  rfl

/-- A build goes through if nothing but text settings are overridden, and with no empty text. -/
theorem exists_generate_of_str (version : Str) (profile : Option Profile)
    (h : ∀ knob ∈ knobs, overrides knob.var = none ∨
      knob.kind = .str ∧ overrides knob.var ≠ some []) :
    ∃ constants, generate plainLiterals version profile overrides = .ok constants := by
  refine exists_generate plainLiterals version profile fun knob hm => ?_
  rcases h knob hm with hnone | ⟨hkind, hne⟩
  · rw [hnone]
    exact exists_render_builtin plainLiterals profile knob hm
  · cases hv : overrides knob.var with
    | none => exact exists_render_builtin plainLiterals profile knob hm
    | some value =>
      have hvalue : value ≠ [] := fun he => hne (by rw [hv, he])
      rw [Option.getD_some, render, hkind]
      exact ⟨_, if_neg hvalue⟩

/-- A profile that gives a data directory and an interface. -/
def profileText : Str := "ROBOTCTL_DATA_DIR=/x\nROBOTCTL_WIFI_INTERFACE=wlan1\n".toList

def profileOverrides : Overrides :=
  Function.update (single "ROBOTCTL_DATA_DIR".toList "/x".toList) "ROBOTCTL_WIFI_INTERFACE".toList
    (some "wlan1".toList)

def wlanEnv : Environment := single "ROBOTCTL_WIFI_INTERFACE".toList " wlan0 ".toList

/-- One setting comes from the profile, one from the environment and one from neither. -/
theorem configure_layered_profile : ∃ constants c,
    build plainLiterals "0.1.0".toList (some (⟨"robot".toList, []⟩, .ok profileText)) =
      .ok constants ∧
    configure (fun s => [s]) wlanEnv plainLiterals constants = some c ∧
    interpret (fun s => [s]) (decidingText wlanEnv profileOverrides) = some c ∧
    decidingText wlanEnv profileOverrides "ROBOTCTL_DATA_DIR".toList = "/x".toList ∧
    decidingText wlanEnv profileOverrides "ROBOTCTL_WIFI_INTERFACE".toList = "wlan0".toList ∧
    decidingText wlanEnv profileOverrides "ROBOTCTL_WIFI_UNIT".toList =
      "robotctl-wifi.service".toList := by
  have hread : readProfile [] (.ok profileText) = .ok profileOverrides := rfl
  obtain ⟨constants, hg⟩ := exists_generate_of_str "0.1.0".toList (some ⟨"robot".toList, []⟩)
    (show ∀ knob ∈ knobs, profileOverrides knob.var = none ∨
      knob.kind = .str ∧ profileOverrides knob.var ≠ some [] by decide)
  have h : build plainLiterals "0.1.0".toList (some (⟨"robot".toList, []⟩, .ok profileText)) =
      .ok constants := (generate_of_readProfile hread).trans hg
  obtain ⟨overrides, ho, hall⟩ := configure_layered h
  obtain ⟨c, hc, hi⟩ := hall (fun s => [s]) wlanEnv
  obtain rfl : profileOverrides = overrides := Except.ok.inj (hread.symm.trans ho)
  exact ⟨constants, c, h, hc, hi, by decide, by decide, by decide⟩

end Layers

end RobotCtl.Config
