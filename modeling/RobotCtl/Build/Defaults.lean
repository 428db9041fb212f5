import RobotCtl.Build.Profile
import RobotCtl.Identity.Ids
import RobotCtl.Library.Traverse

/-! # Compiled-in defaults

The build script validates every default and renders it as a Rust literal, with
its own copy of the rules for identity values. It accepts exactly the values
that the constructors of the binary accept, so the binary never panics on them.
-/

namespace RobotCtl.Build

open Text Identity

/-- How Rust writes a string as a literal, and which string a literal denotes. -/
structure StrLiterals where
  debug : Str → Str
  denotes : Str → Option Str
  denotes_debug : ∀ s, denotes (debug s) = some s

structure Profile where
  name : Str
  path : FilePath
  deriving DecidableEq, Repr

/-- A constant of the generated code. -/
structure Constant where
  konst : Str
  ty : Str
  literal : Str
  deriving DecidableEq, Repr

def strType : Str := "&str".toList

def u8Type : Str := "u8".toList

def u32Type : Str := "u32".toList

def reject (knob : Knob) (raw : Str) (profile : Option Profile) (reason : Str) : Str :=
  match profile with
  | some profile => profile.path.display ++ ": ".toList ++ knob.var ++ "='".toList ++ raw ++
      "' ".toList ++ reason
  | none => "built-in default for ".toList ++ knob.var ++ "='".toList ++ raw ++ "' ".toList ++
      reason

/-- What is wrong with the characters of a robot ID. -/
def robotIdCharReason (pos : ℕ) : Str → Option Str
  | [] => none
  | char :: rest =>
    if isUpper char then some ("must be lowercase; found '".toList ++ char ::
      "' at position ".toList ++ decimal pos ++ ".".toList)
    else if !isLower char && !isDigit char && char != '-' then
      some ("may only contain letters, digits and hyphens; found '".toList ++ char ::
        "' at position ".toList ++ decimal pos ++ ".".toList)
    else robotIdCharReason (pos + 1) rest

variable (L : StrLiterals)

/-- Validates one value and renders it as a Rust type and literal. -/
def render (knob : Knob) (raw : Str) (profile : Option Profile) : Except Str (Str × Str) :=
  let reject := fun reason => Except.error (reject knob raw profile reason)
  match knob.kind with
  | .str =>
    if raw = [] then reject "must not be empty.".toList else .ok (strType, L.debug raw)
  | .optionalStr => .ok (strType, L.debug raw)
  | .robotId =>
    match robotIdCharReason 0 raw with
    | some reason => reject reason
    | none =>
      if raw = [] ∨ 63 < utf8Len raw then
        reject ("must be between 1 and 63 characters long; it is ".toList ++
          decimal (utf8Len raw) ++ ".".toList)
      else if raw.head? = some '-' ∨ raw.getLast? = some '-' then
        reject "must not start or end with a hyphen.".toList
      else .ok (strType, L.debug raw)
  | .rosDomainId =>
    match parseUnsigned 65535 raw with
    | none => reject "is not an integer.".toList
    | some value =>
      if 232 < value then reject "must be between 0 and 232 inclusive.".toList
      else .ok (u8Type, decimal value)
  | .u32 =>
    match parseUnsigned 4294967295 raw with
    | none => reject "is not a non-negative integer.".toList
    | some value => .ok (u32Type, decimal value)

def renderKnob (profile : Option Profile) (overrides : Overrides) (knob : Knob) :
    Except Str Constant := do
  let (ty, literal) ← render L knob ((overrides knob.var).getD knob.value) profile
  pure ⟨knob.konst, ty, literal⟩

def longVersion (version : Str) (profile : Option Profile) : Constant :=
  let name := profile.elim "built-in".toList Profile.name
  ⟨"LONG_VERSION".toList, strType, L.debug (version ++ " (profile: ".toList ++ name ++ ")".toList)⟩

/-- The constants of the generated code. -/
def generate (version : Str) (profile : Option Profile) (overrides : Overrides) :
    Except Str (List Constant) := do
  let constants ← knobs.mapM (renderKnob L profile overrides)
  pure (longVersion L version profile :: constants)

/-- A build of a version with no profile, or with one and the reply to the read of its file. -/
def build (version : Str) : Option (Profile × Io Str) → Except Str (List Constant)
  | none => generate L version none fun _ => none
  | some (profile, reply) => do
    let overrides ← readProfile profile.path reply
    generate L version (some profile) overrides

/-- The value of a string constant of the binary. -/
def strConst (constants : List Constant) (konst : Str) : Option Str :=
  (constants.find? (·.konst = konst)).bind fun c =>
    if c.ty = strType then L.denotes c.literal else none

/-- The value of an 8-bit constant of the binary. -/
def u8Const (constants : List Constant) (konst : Str) : Option ℕ :=
  (constants.find? (·.konst = konst)).bind fun c =>
    if c.ty = u8Type then parseUnsigned 255 c.literal else none

def defaultRobotIdConst : Str := "DEFAULT_ROBOT_ID".toList

def defaultRosDomainIdConst : Str := "DEFAULT_ROS_DOMAIN_ID".toList

/-- The built-in robot ID, or none if the constructor's error makes the binary panic. -/
def builtinDefaultRobotId (defaultRobotId : Str) : Option RobotId :=
  (RobotId.new defaultRobotId).toOption

/-- The built-in ROS domain ID, or none if the constructor's error makes the binary panic. -/
def builtinDefaultRosDomainId (defaultRosDomainId : ℕ) : Option RosDomainId :=
  (RosDomainId.new defaultRosDomainId).toOption

variable {L} {knob : Knob} {raw version : Str} {profile : Option Profile} {overrides : Overrides}
  {constants : List Constant}

theorem robotIdCharReason_eq_none_iff {pos : ℕ} {s : Str} :
    robotIdCharReason pos s = none ↔ ∀ c ∈ s, isIdChar c = true := by
  induction s generalizing pos with
  | nil => simp [robotIdCharReason]
  | cons c s ih =>
    rw [robotIdCharReason, List.forall_mem_cons, RobotId.isIdChar_iff]
    cases hu : isUpper c with
    | true => simp
    | false =>
      cases hl : (!isLower c && !isDigit c && c != '-') with
      | true => simp
      | false => simpa using ih

/-- The build accepts the robot IDs, and renders each as it is. -/
theorem render_robotId_iff (hk : knob.kind = .robotId) {r : Str × Str} :
    render L knob raw profile = .ok r ↔
      (∃ id, RobotId.new raw = .ok id) ∧ r = (strType, L.debug raw) := by
  simp only [render, hk, RobotId.new_eq_ok_iff]
  constructor
  · intro h
    split at h
    · cases h
    · next hc =>
      split_ifs at h with h₁ h₂
      obtain rfl := Except.ok.inj h
      rw [not_or] at h₁ h₂
      exact ⟨⟨⟨raw, robotIdCharReason_eq_none_iff.mp hc, h₁.1, Nat.le_of_not_lt h₁.2, h₂.1, h₂.2⟩,
        rfl⟩, rfl⟩
  · rintro ⟨⟨id, rfl⟩, rfl⟩
    have hc : robotIdCharReason 0 id.str = none := robotIdCharReason_eq_none_iff.mpr id.chars
    have h₁ : ¬ (id.str = [] ∨ 63 < utf8Len id.str) :=
      not_or.mpr ⟨id.length_pos, Nat.not_lt.mpr id.length_le⟩
    have h₂ : ¬ (id.str.head? = some '-' ∨ id.str.getLast? = some '-') :=
      not_or.mpr ⟨id.head_ne, id.last_ne⟩
    simp only [hc, if_neg h₁, if_neg h₂]

/-- The build accepts the numerals of ROS domain IDs, and renders each as its value. -/
theorem render_rosDomainId_iff (hk : knob.kind = .rosDomainId) {r : Str × Str} :
    render L knob raw profile = .ok r ↔
      ∃ d : RosDomainId, parseUnsigned 255 raw = some d.value ∧ r = (u8Type, decimal d.value) := by
  simp only [render, hk]
  constructor
  · intro h
    split at h
    · cases h
    · next value hp =>
      split_ifs at h with hle
      obtain rfl := Except.ok.inj h
      have hmax : value ≤ rosDomainIdMax := Nat.le_of_not_lt hle
      exact ⟨⟨value, hmax⟩, parseUnsigned_of_le hp (hmax.trans (by decide)), rfl⟩
  · rintro ⟨d, hp, rfl⟩
    have hle : ¬ 232 < d.value := Nat.not_lt.mpr d.value_le
    have hd : d.value ≤ 65535 := d.value_le.trans (by decide)
    simp only [parseUnsigned_of_le hp hd, if_neg hle]

theorem fromStr_eq_ok_iff {d : RosDomainId} (ht : trim raw = raw) :
    RosDomainId.fromStr raw = .ok d ↔ parseUnsigned 255 raw = some d.value := by
  rw [RosDomainId.fromStr, ht]
  cases parseUnsigned 255 raw with
  | none => simp
  | some n =>
    simp only [RosDomainId.new_eq_ok_iff, Option.some.injEq]
    exact eq_comm

/-- A constant of the binary is the rendering of its knob. -/
theorem exists_constant {konst : Str} {kind : Kind}
    (h : generate L version profile overrides = .ok constants)
    (hk : ∃ knob ∈ knobs, knob.konst = konst) (hv : konst ≠ "LONG_VERSION".toList)
    (hkind : ∀ knob ∈ knobs, knob.konst = konst → knob.kind = kind) :
    ∃ knob raw c, knob.kind = kind ∧ constants.find? (·.konst = konst) = some c ∧
      render L knob raw profile = .ok (c.ty, c.literal) := by
  have hrender : ∀ {knob c}, renderKnob L profile overrides knob = .ok c →
      c.konst = knob.konst ∧ render L knob ((overrides knob.var).getD knob.value) profile =
        .ok (c.ty, c.literal) := by
    intro knob c hc
    unfold renderKnob at hc
    cases hr : render L knob ((overrides knob.var).getD knob.value) profile with
    | error e => rw [hr] at hc; cases hc
    | ok p =>
      rw [hr] at hc
      obtain rfl := Except.ok.inj hc
      exact ⟨rfl, rfl⟩
  unfold generate at h
  cases hm : knobs.mapM (renderKnob L profile overrides) with
  | error e => rw [hm] at h; cases h
  | ok cs =>
    rw [hm] at h
    obtain rfl : longVersion L version profile :: cs = constants := Except.ok.inj h
    obtain ⟨h₁, h₂⟩ := Traverse.mem_of_mapM hm
    obtain ⟨knob, hknob, rfl⟩ := hk
    have hlong : decide ((longVersion L version profile).konst = knob.konst) = false :=
      decide_eq_false hv.symm
    rw [List.find?_cons, hlong]
    obtain ⟨c, hc, hf⟩ := h₂ knob hknob
    obtain ⟨c', hc'⟩ : ∃ c', cs.find? (·.konst = knob.konst) = some c' := by
      rw [← Option.isSome_iff_exists, List.find?_isSome]
      exact ⟨c, hc, by simpa using (hrender hf).1⟩
    obtain ⟨knob', hknob', hf'⟩ := h₁ c' (List.mem_of_find?_eq_some hc')
    have hkonst : c'.konst = knob.konst := by simpa using List.find?_some hc'
    exact ⟨knob', _, c', hkind knob' hknob' ((hrender hf').1.symm.trans hkonst), hc',
      (hrender hf').2⟩

theorem exists_of_build {source : Option (Profile × Io Str)}
    (h : build L version source = .ok constants) :
    ∃ profile overrides, generate L version profile overrides = .ok constants := by
  cases source with
  | none => exact ⟨none, _, h⟩
  | some source =>
    obtain ⟨profile, reply⟩ := source
    unfold build at h
    cases hr : readProfile profile.path reply with
    | error e => simp only [hr] at h; cases h
    | ok overrides =>
      simp only [hr] at h
      exact ⟨some profile, overrides, h⟩

/-- Every built-in default passes its own check. -/
theorem exists_render_builtin (L : StrLiterals) (profile : Option Profile) :
    ∀ knob ∈ knobs, ∃ r, render L knob knob.value profile = .ok r := by
  simp only [knobs, List.forall_mem_cons]
  refine ⟨?_, ?_, ?_, ?_, ?_, ?_, ?_, ?_, ?_, ?_, ?_, ?_, ?_, ?_, ?_, ?_, ?_, ?_, by simp⟩ <;>
    exact ⟨_, rfl⟩

theorem isDefaultRobotId : (∃ knob ∈ knobs, knob.konst = defaultRobotIdConst) ∧
    defaultRobotIdConst ≠ "LONG_VERSION".toList ∧
    ∀ knob ∈ knobs, knob.konst = defaultRobotIdConst → knob.kind = .robotId := by decide

theorem isDefaultRosDomainId : (∃ knob ∈ knobs, knob.konst = defaultRosDomainIdConst) ∧
    defaultRosDomainIdConst ≠ "LONG_VERSION".toList ∧
    ∀ knob ∈ knobs, knob.konst = defaultRosDomainIdConst → knob.kind = .rosDomainId := by decide

/-- In every binary that a build made the default robot ID is valid. -/
theorem exists_builtinDefaultRobotId
    (h : generate L version profile overrides = .ok constants) :
    ∃ s id, strConst L constants defaultRobotIdConst = some s ∧
      builtinDefaultRobotId s = some id := by
  obtain ⟨knob, raw, c, hk, hc, hr⟩ := exists_constant h isDefaultRobotId.1 isDefaultRobotId.2.1
    isDefaultRobotId.2.2
  obtain ⟨⟨id, hid⟩, he⟩ := (render_robotId_iff hk).mp hr
  obtain ⟨hty, hlit⟩ := Prod.mk.inj he
  refine ⟨raw, id, ?_, by rw [builtinDefaultRobotId, hid]; rfl⟩
  rw [strConst, hc, Option.bind_some, if_pos hty, hlit, L.denotes_debug]

/-- In every binary that a build made the default ROS domain ID is in range. -/
theorem exists_builtinDefaultRosDomainId
    (h : generate L version profile overrides = .ok constants) :
    ∃ n d, u8Const constants defaultRosDomainIdConst = some n ∧
      builtinDefaultRosDomainId n = some d := by
  obtain ⟨knob, raw, c, hk, hc, hr⟩ := exists_constant h isDefaultRosDomainId.1
    isDefaultRosDomainId.2.1 isDefaultRosDomainId.2.2
  obtain ⟨d, -, he⟩ := (render_rosDomainId_iff hk).mp hr
  obtain ⟨hty, hlit⟩ := Prod.mk.inj he
  have hd : d.value ≤ 255 := d.value_le.trans (by decide)
  have hnew : RosDomainId.new d.value = .ok d := RosDomainId.new_eq_ok_iff.mpr rfl
  refine ⟨d.value, d, ?_, by rw [builtinDefaultRosDomainId, hnew]; rfl⟩
  rw [u8Const, hc, Option.bind_some, if_pos hty, hlit, parseUnsigned_decimal hd]

/-- The build accepts exactly what the constructors of the binary accept, so no binary that it
makes panics on its own defaults. -/
theorem build_accepts_valid (L : StrLiterals) :
    (∀ (knob : Knob) (raw : Str) (profile : Option Profile), knob.kind = .robotId →
      ((∃ r, render L knob raw profile = .ok r) ↔ ∃ id, RobotId.new raw = .ok id)) ∧
    (∀ (knob : Knob) (raw : Str) (profile : Option Profile), knob.kind = .rosDomainId →
      trim raw = raw →
      ((∃ r, render L knob raw profile = .ok r) ↔ ∃ d, RosDomainId.fromStr raw = .ok d) ∧
        ∀ r d, render L knob raw profile = .ok r → RosDomainId.fromStr raw = .ok d →
          r = ("u8".toList, decimal d.value)) ∧
    ∀ (version : Str) (source : Option (Profile × Io Str)) (constants : List Constant),
      build L version source = .ok constants →
      (∃ s id, strConst L constants defaultRobotIdConst = some s ∧
        builtinDefaultRobotId s = some id) ∧
      ∃ n d, u8Const constants defaultRosDomainIdConst = some n ∧
        builtinDefaultRosDomainId n = some d := by
  refine ⟨fun knob raw profile hk => ?_, fun knob raw profile hk ht => ⟨?_, ?_⟩, ?_⟩
  · constructor
    · rintro ⟨r, h⟩
      exact ((render_robotId_iff hk).mp h).1
    · intro h
      exact ⟨_, (render_robotId_iff hk).mpr ⟨h, rfl⟩⟩
  · constructor
    · rintro ⟨r, h⟩
      obtain ⟨d, hp, -⟩ := (render_rosDomainId_iff hk).mp h
      exact ⟨d, (fromStr_eq_ok_iff ht).mpr hp⟩
    · rintro ⟨d, h⟩
      exact ⟨_, (render_rosDomainId_iff hk).mpr ⟨d, (fromStr_eq_ok_iff ht).mp h, rfl⟩⟩
  · intro r d hr hd
    obtain ⟨d', hp, rfl⟩ := (render_rosDomainId_iff hk).mp hr
    rw [(fromStr_eq_ok_iff ht).mp hd] at hp
    rw [Option.some.inj hp]
    rfl
  · intro version source constants h
    obtain ⟨profile, overrides, hg⟩ := exists_of_build h
    exact ⟨exists_builtinDefaultRobotId hg, exists_builtinDefaultRosDomainId hg⟩

/-- Literals as Rust writes them for strings without characters to escape. -/
def plainLiterals : StrLiterals where
  debug s := '"' :: (s ++ ['"'])
  denotes s := (stripPrefix ['"'] s).bind (stripSuffix ['"'])
  denotes_debug s := by
    have h₁ : stripPrefix ['"'] ('"' :: (s ++ ['"'])) = some (s ++ ['"']) := stripPrefix_append ..
    rw [h₁]
    exact stripSuffix_eq_some_iff.mpr rfl

example : ∃ constants, build plainLiterals "0.1.0".toList none = .ok constants := ⟨_, rfl⟩

end RobotCtl.Build
