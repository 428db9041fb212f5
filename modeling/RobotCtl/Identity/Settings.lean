import RobotCtl.Conf.Store
import RobotCtl.Identity.Robot

/-! # Setting an identity value

A setting is a key of `robot.conf` with a valid value. Setting it takes effect
exactly when the last line that assigns its key is one that the writer
replaces, or already says the value.
-/

namespace RobotCtl.Identity

open Text Conf

/-- An identity value to be set. -/
inductive Setting where
  | robotId (id : RobotId)
  | rosDomainId (d : RosDomainId)

namespace Setting

def key : Setting → Str
  | robotId _ => "ROBOT_ID".toList
  | rosDomainId _ => "ROS_DOMAIN_ID".toList

def value : Setting → Str
  | robotId id => id.str
  | rosDomainId d => decimal d.value

/-- The configuration has the value of the setting. -/
def Loaded (config : RobotConfig) : Setting → Prop
  | robotId id => config.robotId = id
  | rosDomainId d => config.rosDomainId = d

/-- Two configurations agree on what the setting sets. -/
def Kept (config config' : RobotConfig) : Setting → Prop
  | robotId _ => config.robotId = config'.robotId
  | rosDomainId _ => config.rosDomainId = config'.rosDomainId

/-- The call that sets it. -/
def set (pid : ℕ) (paths : Paths) (s : Setting) : Fallible Unit :=
  setKey pid paths.robotConf s.key s.value

end Setting

/-- The robot ID that the text of `robot.conf`, or its absence, names: the one assigned last, or the
default if that is none. -/
def NamesRobot (paths : Paths) (existing : Option Str) (id : RobotId) : Prop :=
  LastAssigns (existing.getD []) "ROBOT_ID".toList id.str ∨
    (∀ id' : RobotId, ¬ LastAssigns (existing.getD []) "ROBOT_ID".toList id'.str) ∧
      id = paths.defaultRobotId

/-- The last assignment of the ROS domain ID is a numeral of it. -/
def AssignsDomain (text : Str) (d : RosDomainId) : Prop :=
  ∃ value, LastAssigns text "ROS_DOMAIN_ID".toList value ∧ IsNumeral (trim value) d.value

/-- The ROS domain ID that the text of `robot.conf`, or its absence, names. -/
def NamesDomain (paths : Paths) (existing : Option Str) (d : RosDomainId) : Prop :=
  AssignsDomain (existing.getD []) d ∨
    (∀ d', ¬ AssignsDomain (existing.getD []) d') ∧ d = paths.defaultRosDomainId

/-- The configuration that the text of `robot.conf`, or its absence, means. -/
structure Means (paths : Paths) (existing : Option Str) (config : RobotConfig) : Prop where
  robotId : NamesRobot paths existing config.robotId
  rosDomainId : NamesDomain paths existing config.rosDomainId

theorem isKey_robotIdKey : IsKey robotIdKey := ⟨by decide, by decide⟩

theorem isKey_rosDomainIdKey : IsKey rosDomainIdKey := ⟨by decide, by decide⟩

theorem robotIdKey_ne : robotIdKey ≠ rosDomainIdKey := by decide

theorem Setting.isKey (s : Setting) : IsKey s.key := by
  cases s
  · exact isKey_robotIdKey
  · exact isKey_rosDomainIdKey

theorem isDigit_plain {c : Char} (h : isDigit c = true) :
    isWhitespace c = false ∧ c ≠ '"' ∧ c ≠ Char.ofNat 39 := by
  refine ⟨isWhitespace_of_isDigit h, ?_, ?_⟩ <;> rintro rfl <;> exact absurd h (by decide)

theorem isIdChar_plain {c : Char} (h : isIdChar c = true) :
    isWhitespace c = false ∧ c ≠ '"' ∧ c ≠ Char.ofNat 39 := by
  simp only [isIdChar, Bool.or_eq_true, beq_iff_eq] at h
  rcases h with (h | h) | rfl
  · refine ⟨?_, ?_, ?_⟩
    · obtain ⟨h₁, h₂⟩ := isLower_iff.mp h
      simp [isWhitespace]
      omega
    · rintro rfl; exact absurd h (by decide)
    · rintro rfl; exact absurd h (by decide)
  · exact isDigit_plain h
  · decide

/-- Identity values read back unchanged. -/
theorem Setting.plain (s : Setting) : Plain s.value := by
  intro c hc
  cases s with
  | robotId id => exact isIdChar_plain (id.chars c hc)
  | rosDomainId d => exact isDigit_plain (isDigit_of_mem_decimal hc)

/-- A text whose last assignment is the setting means the setting. -/
theorem Setting.loaded_resolve {paths : Paths} {text : Str} {s : Setting}
    (h : parseValue text s.key = some s.value) : s.Loaded (resolve paths (some text)) := by
  cases s with
  | robotId id =>
    have h : parseValue text robotIdKey = some id.str := h
    have hn : RobotId.new id.str = .ok id := RobotId.new_eq_ok_iff.mpr rfl
    simp [Loaded, resolve, h, hn, Except.toOption]
  | rosDomainId d =>
    have h : parseValue text rosDomainIdKey = some d.toStr := h
    simp [Loaded, resolve, h, RosDomainId.fromStr_toStr, Except.toOption]

/-- What the file says of a key depends on its text through the reader only. -/
theorem Setting.kept_resolve {paths : Paths} {text : Str} {existing : Option Str} {s : Setting}
    (h : parseValue text s.key = existing.bind (parseValue · s.key)) :
    s.Kept (resolve paths (some text)) (resolve paths existing) := by
  cases s with
  | robotId id =>
    have h : parseValue text robotIdKey = existing.bind (parseValue · robotIdKey) := h
    cases existing <;> simp_all [Kept, resolve]
  | rosDomainId d =>
    have h : parseValue text rosDomainIdKey = existing.bind (parseValue · rosDomainIdKey) := h
    cases existing <;> simp_all [Kept, resolve]

theorem toOption_eq_some_iff {ε α : Type} {x : Except ε α} {a : α} :
    x.toOption = some a ↔ x = .ok a := by cases x <;> simp [Except.toOption]

/-- A value that is looked up is the one that there is, or the default if there is none. -/
theorem getD_eq_iff_of {α : Type} {o : Option α} {P : α → Prop} {a d : α}
    (h : ∀ a, o = some a ↔ P a) : o.getD d = a ↔ P a ∨ (∀ a', ¬ P a') ∧ a = d := by
  rw [Option.getD_eq_iff, Option.eq_none_iff_forall_ne_some, eq_comm (a := d)]
  simp only [ne_eq, h]

/-- Each value is looked up in the text, which is empty if there is none. -/
theorem resolve_eq (paths : Paths) (existing : Option Str) : resolve paths existing =
    ⟨((parseValue (existing.getD []) robotIdKey).bind
        fun raw => (RobotId.new raw).toOption).getD paths.defaultRobotId,
      ((parseValue (existing.getD []) rosDomainIdKey).bind
        fun raw => (RosDomainId.fromStr raw).toOption).getD paths.defaultRosDomainId⟩ := by
  cases existing with
  | none => rfl
  | some text =>
    simp only [resolve, Option.getD_some]
    cases parseValue text robotIdKey <;> cases parseValue text rosDomainIdKey <;> rfl

/-- The robot ID that is read is the one that the text names. -/
theorem namesRobot_iff {paths : Paths} {existing : Option Str} {id : RobotId} :
    NamesRobot paths existing id ↔ (resolve paths existing).robotId = id := by
  have hlast : ∀ id' : RobotId, (parseValue (existing.getD []) robotIdKey).bind
      (fun raw => (RobotId.new raw).toOption) = some id' ↔
        LastAssigns (existing.getD []) "ROBOT_ID".toList id'.str := by
    intro id'
    rw [← parseValue_eq_some_iff, Option.bind_eq_some_iff]
    simp only [toOption_eq_some_iff, RobotId.new_eq_ok_iff]
    exact ⟨fun ⟨_, hv, he⟩ => he ▸ hv, fun hv => ⟨_, hv, rfl⟩⟩
  rw [NamesRobot, resolve_eq]
  exact (getD_eq_iff_of hlast).symm

theorem namesDomain_iff {paths : Paths} {existing : Option Str} {d : RosDomainId} :
    NamesDomain paths existing d ↔ (resolve paths existing).rosDomainId = d := by
  rw [NamesDomain, resolve_eq]
  refine (getD_eq_iff_of fun d' => ?_).symm
  rw [AssignsDomain, Option.bind_eq_some_iff]
  simp only [toOption_eq_some_iff, RosDomainId.fromStr_eq_ok_iff, parseValue_eq_some_iff]
  rfl

/-- What is loaded is what the text means. -/
theorem means_iff {paths : Paths} {existing : Option Str} {config : RobotConfig} :
    Means paths existing config ↔ resolve paths existing = config := by
  rw [RobotConfig.ext_iff, ← namesRobot_iff, ← namesDomain_iff]
  exact ⟨fun h => ⟨h.robotId, h.rosDomainId⟩, fun h => ⟨h.1, h.2⟩⟩

variable {pid : ℕ} {path : FilePath} {paths : Paths} {key value : Str} {t : List (Event Sys)}
  {fs fs' : Fs} {config : RobotConfig} {existing : Option Str} {s : Setting}

/-- A successful write of a key reads the file and replaces it by its update. -/
theorem returns_setKey_ok (h : Prog.Returns (setKey pid path key value).run t (.ok ())) :
    ∃ x existing w, t = ⟨.readToString path, x⟩ :: w ∧ optional path x = .ok existing ∧
      WriteRun pid path (upsertKey existing key value) w (.ok ()) := by
  obtain ⟨existing, t₁, w, rfl, hr, hw⟩ := Prog.returns_try_bind_ok_iff.mp h
  obtain ⟨x, rfl, hx⟩ := returns_readOptional_iff.mp hr
  exact ⟨x, existing, w, rfl, hx.symm, writeRun_of_returns hw⟩

theorem holds_of_setKey (h : Prog.Returns (setKey pid path key value).run t (.ok ()))
    (hr : Env.Runs Fs.env fs t fs') :
    ∃ existing, Holds fs path existing ∧ Holds fs' path (some (upsertKey existing key value)) := by
  obtain ⟨x, existing, w, rfl, hx, hw⟩ := returns_setKey_ok h
  obtain ⟨u, ⟨rfl, hs⟩, hr'⟩ := Env.runs_cons_iff.mp hr
  exact ⟨existing, holds_of_optional hs hx, hw.holds hr'⟩

/-- A write of a key that fails leaves the file as it was. -/
theorem unchanged_of_setKey {err : Error}
    (h : Prog.Returns (setKey pid path key value).run t (.error err))
    (hr : Env.Runs Fs.env fs t fs') : fs'.node path = fs.node path := by
  rcases Prog.returns_try_bind_iff.mp h with ⟨_, hread, -⟩ | ⟨existing, t₁, w, rfl, hread, hw⟩
  · obtain ⟨x, rfl, -⟩ := returns_readOptional_iff.mp hread
    obtain ⟨u, ⟨rfl, -⟩, hu⟩ := Env.runs_cons_iff.mp hr
    rw [Env.runs_nil_iff.mp hu]
  · obtain ⟨u, hu, hrest⟩ := Env.runs_append_iff.mp hr
    obtain ⟨rfl, -⟩ := readOptional_runs hread hu
    exact (writeRun_of_returns hw).unchanged hrest

theorem returns_setKey {x : Io Str} {w : List (Event Sys)} {r : Except Error Unit}
    (hx : optional path x = .ok existing)
    (hw : Prog.Returns (writeAtomically pid path (upsertKey existing key value)).run w r) :
    Prog.Returns (setKey pid path key value).run (⟨.readToString path, x⟩ :: w) r :=
  Prog.returns_try_bind_iff.mpr (Or.inr ⟨existing, [_], w, rfl,
    returns_readOptional_iff.mpr ⟨x, rfl, hx.symm⟩, hw⟩)

/-- A file that holds a text, or nothing, can be loaded. -/
theorem exists_load (h : Holds fs paths.robotConf existing) :
    ∃ t, Prog.Returns (load paths).run t (.ok (resolve paths existing)) ∧
      Env.Runs Fs.env fs t fs := by
  obtain ⟨x, hr, hx⟩ := h.exists_reply
  refine ⟨[⟨.readToString paths.robotConf, x⟩], ?_, .cons ⟨rfl, hr⟩ (.nil _)⟩
  exact Prog.returns_try_bind_iff.mpr (Or.inr ⟨existing, [_], [], rfl,
    returns_readOptional_iff.mpr ⟨x, rfl, hx.symm⟩, .ret _⟩)

/-- A write of one key, whether it succeeds or not, leaves the file or updates the key. -/
theorem unchanged_or_upsert_of_setKey {r : Except Error Unit}
    (h : Prog.Returns (setKey pid path key value).run t r) (hr : Env.Runs Fs.env fs t fs')
    (he : Holds fs path existing) :
    Holds fs' path existing ∨ Holds fs' path (some (upsertKey existing key value)) := by
  cases r with
  | error err => exact Or.inl ((unchanged_of_setKey h hr).trans he)
  | ok _ =>
    obtain ⟨existing', he', hw⟩ := holds_of_setKey h hr
    rw [holds_inj he he']
    exact Or.inr hw

/-- A load that succeeds changes nothing and resolves what the file holds. -/
theorem exists_holds_of_load (h : Prog.Returns (load paths).run t (.ok config))
    (hr : Env.Runs Fs.env fs t fs') :
    ∃ existing, fs' = fs ∧ Holds fs paths.robotConf existing ∧ config = resolve paths existing := by
  obtain ⟨existing, t₁, t₂, rfl, h₁, h₂⟩ := Prog.returns_try_bind_ok_iff.mp h
  obtain ⟨rfl, hc⟩ := Prog.returns_ret_iff.mp h₂
  rw [List.append_nil] at hr
  obtain ⟨rfl, hh⟩ := readOptional_runs h₁ hr
  exact ⟨existing, rfl, hh, Except.ok.inj hc⟩

theorem config_of_load (h : Prog.Returns (load paths).run t (.ok config))
    (hr : Env.Runs Fs.env fs t fs') (he : Holds fs paths.robotConf existing) :
    config = resolve paths existing := by
  obtain ⟨existing', -, he', hc⟩ := exists_holds_of_load h hr
  rw [hc, holds_inj he he']

/-- Setting a value over a text, or over no file, takes effect: the text written assigns it last,
and every load after a successful write returns it. -/
def TakesEffect (existing : Option Str) (s : Setting) : Prop :=
  LastAssigns (upsertKey existing s.key s.value) s.key s.value ∧
    ∀ (pid : ℕ) (paths : Paths) (fs fs' fs'' : Fs) (t t' : List (Event Sys)) (config : RobotConfig),
      Holds fs paths.robotConf existing →
      Prog.Returns (s.set pid paths).run t (.ok ()) → Env.Runs Fs.env fs t fs' →
      Prog.Returns (load paths).run t' (.ok config) → Env.Runs Fs.env fs' t' fs'' →
      s.Loaded config

/-- A value takes effect exactly over the texts in which no line starts with the key, or the last
line that assigns it does, or that line already says the value. -/
theorem takesEffect_iff (existing : Option Str) (s : Setting) :
    TakesEffect existing s ↔ Effective existing s.key s.value := by
  constructor
  · intro h
    exact (parseValue_upsertKey_iff s.isKey s.plain).mp (parseValue_eq_some_iff.mpr h.1)
  · intro h
    have hp := (parseValue_upsertKey_iff s.isKey s.plain).mpr h
    refine ⟨parseValue_eq_some_iff.mp hp, ?_⟩
    intro pid paths fs fs' fs'' t t' config he hs hr hl hr'
    obtain ⟨existing', he', hw⟩ := holds_of_setKey hs hr
    obtain rfl := holds_inj he he'
    rw [config_of_load hl hr' hw]
    exact s.loaded_resolve hp

def idB : RobotId := ⟨['b'], by decide, by decide, by decide, by decide, by decide⟩

/-- An indented assignment after the replaced one keeps its old value in effect. -/
theorem not_takesEffect_indented :
    ¬ ∀ (existing : Option Str) (s : Setting), TakesEffect existing s := by
  intro h
  have hc := h (some "ROBOT_ID=a\n  ROBOT_ID=a\n".toList)
    (.robotId idB)
  exact absurd (parseValue_eq_some_iff.mpr hc.1) (by decide)

/-- A write of one key leaves every other key as the reader finds it, over every text and over no
file, and a call that sets one identity value, whether it succeeds or not, leaves the other one as
it is loaded. -/
theorem other_keys_kept :
    (∀ (existing : Option Str) (key key' value : Str), IsKey key → IsKey key' → key' ≠ key →
      '\n' ∉ value →
      parseValue (upsertKey existing key value) key' = existing.bind (parseValue · key')) ∧
    ∀ (s s' : Setting) (pid : ℕ) (paths : Paths) (fs fs₁ fs₂ fs₃ : Fs)
      (t u t' : List (Event Sys)) (config config' : RobotConfig) (r : Except Error Unit),
      s'.key ≠ s.key →
      Prog.Returns (load paths).run t (.ok config) → Env.Runs Fs.env fs t fs₁ →
      Prog.Returns (s.set pid paths).run u r → Env.Runs Fs.env fs₁ u fs₂ →
      Prog.Returns (load paths).run t' (.ok config') → Env.Runs Fs.env fs₂ t' fs₃ →
      s'.Kept config' config := by
  constructor
  · intro existing key key' value hk hk' hne hv
    exact parseValue_upsertKey_of_ne hk hk' hne hv
  · intro s s' pid paths fs fs₁ fs₂ fs₃ t u t' config config' r hne hl hr hs hu hl' hr'
    obtain ⟨existing, rfl, he, rfl⟩ := exists_holds_of_load hl hr
    rcases unchanged_or_upsert_of_setKey hs hu he with hh | hh
    · rw [config_of_load hl' hr' hh]
      cases s' <;> rfl
    · rw [config_of_load hl' hr' hh]
      exact Setting.kept_resolve
        (parseValue_upsertKey_of_ne s.isKey s'.isKey hne s.plain.newline_not_mem)

-- a key that is the start of another one, in a text without a last newline
example : parseValue (upsertKey (some "ROBOT_ID_OLD=a\r\n ROBOT_ID=b".toList) robotIdKey ['c'])
    "ROBOT_ID_OLD".toList = some ['a'] := by decide

end RobotCtl.Identity
