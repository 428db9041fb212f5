import RobotCtl.Config.Environment

/-! # Environment or profile

A setting can be made in the environment or compiled in by a profile. Moving
settings from the environment of a robot into the profile of its binary changes
nothing about the configuration, whatever else is set where.
-/

namespace RobotCtl.Config

open Text Conf Build

/-- A profile with further settings below it. -/
def withSettings (text : Str) (settings : List (Str × Str)) : Str :=
  text ++ '\n' :: joinLines (settings.map fun s => assignPrefix s.1 ++ s.2)

/-- A setting that a line of a profile can carry as it is. -/
structure Carried (s : Str × Str) : Prop where
  known : s.1 ∈ knownKeys
  one_line : '\n' ∉ s.2
  trimmed : trim s.2 = s.2
  unquoted : Build.stripQuotes s.2 = s.2

/-- The environment without the variables of some settings. -/
def without (settings : List (Str × Str)) (env : Environment) : Environment := fun var =>
  if settings.any (·.1 = var) then none else env var

section Lines

variable {text key line value : Str} {f : Str → Option Str} {s : Str × Str}
  {settings : List (Str × Str)}

/-- What is looked up in the lines of a text is looked up below it first. -/
theorem findSome?_lines_append (hf : f [] = none) (hcr : ∀ l, f (stripCr l) = f l) (text s : Str) :
    (lines (text ++ '\n' :: s)).reverse.findSome? f =
      ((lines s).reverse.findSome? f).or ((lines text).reverse.findSome? f) := by
  induction text using line_induction with
  | nil =>
    have hl := lines_line s (List.not_mem_nil (a := '\n'))
    rw [hl, List.reverse_cons, List.findSome?_append, List.findSome?_singleton, hcr, hf]
    rfl
  | last l hl hn =>
    rw [lines_line s hl, lines_last hl hn, List.reverse_cons, List.findSome?_append,
      List.findSome?_singleton, hcr, List.reverse_singleton, List.findSome?_singleton]
  | line l text hl ih =>
    rw [List.append_assoc, List.cons_append, lines_line _ hl, lines_line _ hl, List.reverse_cons,
      List.reverse_cons, List.findSome?_append, List.findSome?_append, ih, Option.or_assoc]

theorem findSome?_congr {α β : Type} {f g : α → Option β} {xs : List α}
    (h : ∀ x ∈ xs, f x = g x) : xs.findSome? f = xs.findSome? g := by
  induction xs with
  | nil => rfl
  | cons x xs ih =>
    obtain ⟨hx, h⟩ := List.forall_mem_cons.mp h
    rw [List.findSome?_cons, List.findSome?_cons, hx, ih h]

theorem profileValue_stripCr (key line : Str) :
    profileValue key (stripCr line) = profileValue key line := by
  simp only [profileValue, assignment, trim_stripCr]

/-- The line of a setting assigns its key just its value. -/
theorem assignment_setting (h : Carried s) : assignment (assignPrefix s.1 ++ s.2) = some s := by
  have hk := isKnobKey_of_mem h.known
  have hend : trimEnd s.2 = s.2 := by
    rw [← h.trimmed]
    exact trimEnd_trimEnd _
  have hline : trim (assignPrefix s.1 ++ s.2) = s.1 ++ '=' :: s.2 := by
    rw [assignPrefix, List.append_assoc, List.singleton_append, trim_append_cons (by decide), hend,
      trimStart_eq_self hk.visible]
  have hs : ¬ (s.1 ++ '=' :: s.2 = [] ∨ (s.1 ++ '=' :: s.2).head? = some '#') := by
    rintro (hc | hc)
    · simp at hc
    · cases hkey : s.1 with
      | nil => simp [hkey] at hc
      | cons c key =>
        rw [hkey] at hc
        exact hk.no_hash (hkey ▸ hc)
  rw [assignment, hline, if_neg hs, splitOnce_append _ hk.no_equals, Option.map_some,
    trim_eq_self hk.visible, h.trimmed, h.unquoted]

variable (hs : ∀ s ∈ settings, Carried s)
include hs

theorem lines_settings :
    lines (joinLines (settings.map fun s => assignPrefix s.1 ++ s.2)) =
      (settings.map fun s => assignPrefix s.1 ++ s.2).map stripCr := by
  refine lines_joinLines (List.forall_mem_map.mpr fun s hm => ?_)
  have hkey : '\n' ∉ s.1 := fun hc =>
    absurd ((isKnobKey_of_mem (hs s hm).known).visible _ hc) (by decide)
  simp [assignPrefix, hkey, (hs s hm).one_line]

/-- Below a profile its last setting of a key counts, and above it what the profile says. -/
theorem readProfile_withSettings {path : FilePath} {overrides : Overrides}
    (h : readProfile path (.ok (withSettings text settings)) = .ok overrides) (key : Str) :
    overrides key = (settings.reverse.findSome? fun s => if s.1 = key then some s.2 else none).or
      ((lines text).reverse.findSome? (profileValue key)) := by
  rw [readProfile_ok h, withSettings,
    findSome?_lines_append rfl (profileValue_stripCr key), lines_settings hs]
  congr 1
  rw [List.map_map, ← List.map_reverse, List.findSome?_map]
  refine findSome?_congr fun s hm => ?_
  have hc := hs s (List.mem_reverse.mp hm)
  rw [Function.comp_apply, Function.comp_apply, profileValue_stripCr, profileValue,
    assignment_setting hc, Option.bind_some]

end Lines

section Baked

variable {L : StrLiterals} {version version' : Str} {base : Option (Profile × Str)}
  {profile : Profile} {profile' : Option Profile} {settings : List (Str × Str)}
  {constants constants' : List Constant} {overrides overrides' : Overrides} {env : Environment}
  {knob : Knob} {raw : Str} {r : Str × Str}

/-- A build with a profile of this text, or with none. -/
def sourceOf (base : Option (Profile × Str)) : Option (Profile × Io Str) :=
  base.map fun p => (p.1, .ok p.2)

/-- The text of the profile, or the empty one. -/
def baseText (base : Option (Profile × Str)) : Str := base.elim [] Prod.snd

theorem overridesOf_base (h : overridesOf (sourceOf base) = .ok overrides) (key : Str) :
    overrides key = (lines (baseText base)).reverse.findSome? (profileValue key) := by
  cases base with
  | none =>
    obtain rfl := Except.ok.inj h
    rfl
  | some p => exact readProfile_ok h key

/-- What a build accepts counts in the environment too. -/
theorem meaning_of_render (h : render L knob raw profile' = .ok r) (ht : trim raw = raw) :
    meaning knob raw = some raw := by
  rw [meaning]
  cases hk : knob.kind with
  | str =>
    simp only [render, hk] at h
    split_ifs at h with hn
    simp only [ht, if_neg hn, ite_self]
  | optionalStr => rfl
  | robotId =>
    obtain ⟨⟨id, hid⟩, -⟩ := (render_robotId_iff hk).mp h
    simp only [hid]
    rfl
  | rosDomainId =>
    obtain ⟨d, hd, -⟩ := (render_rosDomainId_iff hk).mp h
    simp only [(fromStr_eq_ok_iff ht).mpr hd, ht]
    rfl
  | u32 =>
    simp only [render, hk] at h
    cases hp : parseUnsigned 4294967295 raw with
    | none => rw [hp] at h; cases h
    | some n =>
      have hp : parseUnsigned u32Max raw = some n := hp
      simp only [ht, hp]
      rfl

/-- The deciding texts stay the same. -/
theorem decidingText_baked (hg : generate L version profile' overrides' = .ok constants')
    (hs : ∀ s ∈ settings, Carried s ∧ env s.1 = some s.2)
    (ho : ∀ key, overrides' key = (settings.reverse.findSome? fun s =>
      if s.1 = key then some s.2 else none).or (overrides key)) :
    decidingText (without settings env) overrides' = decidingText env overrides := by
  funext var
  rw [decidingText, decidingText]
  cases hf : knobs.find? (·.var = var) with
  | none => rfl
  | some knob =>
    have hm := List.mem_of_find?_eq_some hf
    obtain rfl : knob.var = var := by simpa using List.find?_some hf
    have hov := ho knob.var
    simp only [builtText_knob hm]
    cases hx : settings.reverse.findSome? fun s => if s.1 = knob.var then some s.2 else none with
    | none =>
      have hv : ¬settings.any (·.1 = knob.var) = true := by
        rw [List.findSome?_eq_none_iff] at hx
        rintro hv
        obtain ⟨s, hs, he⟩ := List.any_eq_true.mp hv
        have hn := hx s (List.mem_reverse.mpr hs)
        rw [if_pos (of_decide_eq_true he)] at hn
        cases hn
      rw [hx, Option.none_or] at hov
      rw [without, if_neg hv, hov]
    | some value =>
      obtain ⟨s, hsm, hsv⟩ := List.exists_of_findSome?_eq_some hx
      rw [Option.ite_none_right_eq_some, Option.some.injEq] at hsv
      obtain ⟨hkey, rfl⟩ := hsv
      obtain ⟨hc, he⟩ := hs s (List.mem_reverse.mp hsm)
      have hv : settings.any (·.1 = knob.var) = true :=
        List.any_eq_true.mpr ⟨s, List.mem_reverse.mp hsm, decide_eq_true hkey⟩
      rw [hx, Option.some_or] at hov
      -- the build accepted the value, so that it counts in the environment
      obtain ⟨c, -, hr⟩ := find_constant hg hm
      rw [builtText_knob hm, hov] at hr
      have hmeaning : meaning knob s.2 = some s.2 := meaning_of_render hr hc.trimmed
      rw [without, if_pos hv, hov, ← hkey, he, Option.bind_some, hmeaning]
      rfl

/-- If a binary is built with settings of the environment in its profile, it resolves the same
configuration without them as the binary without them in its profile does in the environment. -/
theorem baked (h : build L version (sourceOf base) = .ok constants)
    (h' : build L version' (some (profile, .ok (withSettings (baseText base) settings))) =
      .ok constants')
    (hs : ∀ s ∈ settings, Carried s ∧ env s.1 = some s.2) (pathBuf : Str → FilePath) :
    ∃ c, configure pathBuf env L constants = some c ∧
      configure pathBuf (without settings env) L constants' = some c := by
  obtain ⟨overrides, ho, hg⟩ := generate_of_build h
  obtain ⟨overrides', ho', hg'⟩ := generate_of_build h'
  have hov : ∀ key, overrides' key = (settings.reverse.findSome? fun s =>
      if s.1 = key then some s.2 else none).or (overrides key) := fun key => by
    rw [readProfile_withSettings (fun s hm => (hs s hm).1) ho', overridesOf_base ho]
  obtain ⟨c, hc, hi⟩ := exists_configure hg pathBuf env
  obtain ⟨c', hc', hi'⟩ := exists_configure hg' pathBuf (without settings env)
  rw [decidingText_baked hg' hs hov, hi] at hi'
  exact ⟨c, hc, hc'.trans hi'.symm⟩

/-- The interface as an environment file would set it. -/
def interfaceSetting : Str × Str := ("ROBOTCTL_WIFI_INTERFACE".toList, "wlan0".toList)

/-- The interface alone, as an environment and as what a profile overrides. -/
def interfaceOnly : Str → Option Str := single interfaceSetting.1 interfaceSetting.2

theorem readProfile_interface (path : FilePath) :
    readProfile path (.ok (withSettings (baseText none) [interfaceSetting])) =
      .ok interfaceOnly := rfl

theorem exists_interface_build (profile : Profile) : ∃ constants,
    build plainLiterals version
      (some (profile, .ok (withSettings (baseText none) [interfaceSetting]))) = .ok constants := by
  rw [generate_of_readProfile (readProfile_interface profile.path)]
  exact exists_generate_of_str version (some profile) (by decide)

theorem without_interface : without [interfaceSetting] interfaceOnly = fun _ => none := by
  funext var
  by_cases hv : var = interfaceSetting.1
  · exact if_pos (by simp [hv])
  · rw [without, if_neg (by simpa using Ne.symm hv), interfaceOnly, single,
      Function.update_of_ne hv]

theorem baked_interface : ∃ constants constants' c,
    build plainLiterals "0.1.0".toList (sourceOf none) = .ok constants ∧
    build plainLiterals "0.1.0".toList (some (⟨"robot".toList, []⟩,
      .ok (withSettings (baseText none) [interfaceSetting]))) = .ok constants' ∧
    configure (fun s => [s]) interfaceOnly plainLiterals constants = some c ∧
    configure (fun s => [s]) (fun _ => none) plainLiterals constants' = some c := by
  obtain ⟨constants, h⟩ : ∃ constants,
      build plainLiterals "0.1.0".toList (sourceOf none) = .ok constants :=
    exists_generate plainLiterals "0.1.0".toList none (exists_render_builtin plainLiterals none)
  obtain ⟨constants', h'⟩ := @exists_interface_build "0.1.0".toList ⟨"robot".toList, []⟩
  have hs : ∀ s ∈ [interfaceSetting], Carried s ∧ interfaceOnly s.1 = some s.2 :=
    List.forall_mem_singleton.mpr ⟨⟨by decide, by decide, by decide, by decide⟩, rfl⟩
  obtain ⟨c, hc, hc'⟩ := baked h h' hs fun s => [s]
  rw [without_interface] at hc'
  exact ⟨constants, constants', c, h, h', hc, hc'⟩

end Baked

end RobotCtl.Config
