import RobotCtl.Experiments.Grammar

/-! # Merging targets

The merged target of an experiment has all profiles if some mention has them
all, none if every mention has none, and otherwise those that the mentions name.
-/

namespace RobotCtl.Experiments

namespace Profiles

/-- The profiles that are named. -/
def names : Profiles → List ProfileName
  | named names => names
  | _ => []

variable {p q : Profiles} {ps : List Profiles} {name : ProfileName}

theorem merged_eq_all_iff : p.merged q = all ↔ p = all ∨ q = all := by
  cases p <;> cases q <;> simp [merged]

theorem merged_eq_none_iff : p.merged q = none ↔ p = none ∧ q = none := by
  cases p <;> cases q <;> simp [merged]

theorem mem_foldl_pushNew {mine other : List ProfileName} :
    name ∈ other.foldl pushNew mine ↔ name ∈ mine ∨ name ∈ other :=
  Grouping.mem_foldl_pushNew

theorem mem_names_merged (h : p.merged q ≠ all) :
    name ∈ (p.merged q).names ↔ name ∈ p.names ∨ name ∈ q.names := by
  cases p <;> cases q <;> simp [merged, names, mem_foldl_pushNew] at h ⊢

theorem foldl_merged_eq_all_iff : ps.foldl merged p = all ↔ p = all ∨ all ∈ ps := by
  induction ps generalizing p with
  | nil => simp
  | cons q ps ih =>
    rw [List.foldl_cons, ih, merged_eq_all_iff, List.mem_cons, or_assoc, eq_comm (a := q)]

theorem foldl_merged_eq_none_iff :
    ps.foldl merged p = none ↔ p = none ∧ ∀ q ∈ ps, q = none := by
  induction ps generalizing p with
  | nil => simp
  | cons q ps ih => rw [List.foldl_cons, ih, merged_eq_none_iff, List.forall_mem_cons, and_assoc]

theorem mem_names_foldl_merged (h : ps.foldl merged p ≠ all) :
    name ∈ (ps.foldl merged p).names ↔ name ∈ p.names ∨ ∃ q ∈ ps, name ∈ q.names := by
  induction ps generalizing p with
  | nil => simp
  | cons q ps ih =>
    rw [List.foldl_cons] at h ⊢
    have hq : p.merged q ≠ all := fun hc => h (foldl_merged_eq_all_iff.mpr (Or.inl hc))
    rw [ih h, mem_names_merged hq, List.exists_mem_cons_iff, or_assoc]

theorem merged_none_left (p : Profiles) : none.merged p = p := by cases p <;> rfl

theorem merged_none_right (p : Profiles) : p.merged none = p := by cases p <;> rfl

theorem merged_all_left (p : Profiles) : all.merged p = all := by cases p <;> rfl

theorem merged_all_right (p : Profiles) : p.merged all = all := by cases p <;> rfl

/-- Only the case of three lists is more than a look at the constructors. -/
theorem merged_assoc (p q r : Profiles) : (p.merged q).merged r = p.merged (q.merged r) := by
  cases p with
  | none => rw [merged_none_left, merged_none_left]
  | all => rw [merged_all_left, merged_all_left, merged_all_left]
  | named mine =>
    cases q with
    | none => rw [merged_none_right, merged_none_left]
    | all => rw [merged_all_right, merged_all_left, merged_all_right]
    | named middle =>
      cases r with
      | none => rw [merged_none_right, merged_none_right]
      | all => rw [merged_all_right, merged_all_right, merged_all_right]
      | named other =>
        have h := Grouping.foldl_pushNew_foldl mine middle other
        rw [List.foldl_append] at h
        exact congrArg named h.symm

theorem eq_named_names (ha : p ≠ all) (hn : p ≠ none) : p = named p.names := by
  cases p with
  | none => exact absurd rfl hn
  | all => exact absurd rfl ha
  | named names => rfl

/-- The names of a merge, in order of first mention. -/
theorem names_merged (hq : q.names.Nodup) (h : p.merged q ≠ all) :
    (p.merged q).names = q.names.foldl pushNew p.names := by
  have he : q.names.foldl pushNew [] = q.names :=
    (Grouping.foldl_pushNew_nil q.names).trans (Grouping.eraseDups_eq_self hq)
  cases p with
  | none => rw [merged_none_left]; exact he.symm
  | all => exact absurd (merged_all_left q) h
  | named mine =>
    cases q with
    | none => rfl
    | all => exact absurd rfl h
    | named other => rfl

theorem names_foldl_merged (hps : ∀ q ∈ ps, q.names.Nodup) (h : ps.foldl merged p ≠ all) :
    (ps.foldl merged p).names = (ps.flatMap names).foldl pushNew p.names := by
  induction ps using List.reverseRecOn with
  | nil => rfl
  | append_singleton ps q ih =>
    rw [List.foldl_concat] at h ⊢
    obtain ⟨hps, hq⟩ := List.forall_mem_append.mp hps
    have hne : ps.foldl merged p ≠ all := fun hc => h (by rw [hc, merged_all_left])
    rw [names_merged (hq q (List.mem_singleton_self q)) h, ih hps hne, List.flatMap_append,
      List.foldl_append, List.flatMap_singleton]

/-- All profiles if some mention has them all, none if no mention has any, and otherwise the named
ones, each once in the order of first mention. -/
def combined (mentions : List Profiles) : Profiles :=
  if all ∈ mentions then all
  else if ∀ p ∈ mentions, p = none then none
  else named (mentions.flatMap names).eraseDups

theorem foldl_merged_eq_combined (hp : p.names.Nodup) (hps : ∀ q ∈ ps, q.names.Nodup) :
    ps.foldl merged p = combined (p :: ps) := by
  unfold combined
  split_ifs with ha hn
  · exact foldl_merged_eq_all_iff.mpr ((List.mem_cons.mp ha).imp Eq.symm id)
  · exact foldl_merged_eq_none_iff.mpr (List.forall_mem_cons.mp hn)
  · have hall : ps.foldl merged p ≠ all := fun hc =>
      ha (List.mem_cons.mpr ((foldl_merged_eq_all_iff.mp hc).imp Eq.symm id))
    have hnone : ps.foldl merged p ≠ none := fun hc =>
      hn (List.forall_mem_cons.mpr (foldl_merged_eq_none_iff.mp hc))
    have hnames : ((p :: ps).flatMap names).eraseDups =
        (ps.flatMap names).foldl pushNew p.names := by
      have he := Grouping.foldl_pushNew_nil ((p :: ps).flatMap names)
      rw [List.flatMap_cons, List.foldl_append, Grouping.foldl_pushNew_nil,
        Grouping.eraseDups_eq_self hp] at he
      exact he.symm
    rw [eq_named_names hall hnone, names_foldl_merged hps hall, hnames]

/-- The same profiles, up to their order. -/
inductive Same : Profiles → Profiles → Prop
  | none : Same none none
  | all : Same all all
  | named {names names' : List ProfileName} : names.Perm names' → Same (named names) (named names')

theorem same_combined_of_perm {ps ps' : List Profiles} (h : ps.Perm ps') :
    Same (combined ps) (combined ps') := by
  have hmem : ∀ p, p ∈ ps ↔ p ∈ ps' := fun p => h.mem_iff
  simp only [combined, hmem]
  split_ifs
  · exact .all
  · exact .none
  · exact .named (Grouping.perm_eraseDups fun name => (h.flatMap_right names).mem_iff)

end Profiles

variable {targets : List Target} {m target : Target} {name : ExperimentName}

theorem merge_name (a b : Target) : (a.merge b).name = a.name := rfl

theorem mergeDuplicates_names (targets : List Target) :
    (mergeDuplicates targets).map Target.name = (targets.map Target.name).eraseDups :=
  Grouping.map_key_mergeAll merge_name targets

theorem mergeDuplicates_nodup (targets : List Target) :
    ((mergeDuplicates targets).map Target.name).Nodup :=
  Grouping.nodup_mergeAll merge_name targets

theorem exists_mem_mergeDuplicates (h : target ∈ targets) :
    ∃ m ∈ mergeDuplicates targets, m.name = target.name := by
  have hm : target.name ∈ (mergeDuplicates targets).map Target.name := by
    rw [mergeDuplicates_names, List.mem_eraseDups]
    exact List.mem_map_of_mem h
  exact List.mem_map.mp hm

theorem foldl_merge_profiles (targets : List Target) (m : Target) :
    (targets.foldl Target.merge m).profiles =
      (targets.map Target.profiles).foldl Profiles.merged m.profiles := by
  induction targets generalizing m with
  | nil => rfl
  | cons target targets ih => exact ih _

/-- The mentions of an experiment, and how its merged target combines them. -/
theorem exists_mentions (h : m ∈ mergeDuplicates targets) : ∃ first rest,
    (∀ u, u ∈ targets ∧ u.name = m.name ↔ u ∈ first :: rest) ∧
      m.profiles = (rest.map Target.profiles).foldl Profiles.merged first.profiles := by
  have hc := (Grouping.mem_mergeAll_iff merge_name).mp h
  cases hf : targets.filter (·.name = m.name) with
  | nil => rw [hf] at hc; cases hc
  | cons first rest =>
    rw [hf] at hc
    refine ⟨first, rest, fun u => ?_, ?_⟩
    · rw [← hf]
      simp
    · rw [← foldl_merge_profiles, Option.some.inj hc]

theorem mergeDuplicates_all_iff (h : m ∈ mergeDuplicates targets) :
    m.profiles = .all ↔ ∃ u ∈ targets, u.name = m.name ∧ u.profiles = .all := by
  obtain ⟨first, rest, hu, hm⟩ := exists_mentions h
  simp only [← and_assoc, hu, hm, Profiles.foldl_merged_eq_all_iff, List.exists_mem_cons_iff,
    List.mem_map]

theorem mergeDuplicates_none_iff (h : m ∈ mergeDuplicates targets) :
    m.profiles = .none ↔ ∀ u ∈ targets, u.name = m.name → u.profiles = .none := by
  obtain ⟨first, rest, hu, hm⟩ := exists_mentions h
  simp only [← and_imp, hu, hm, Profiles.foldl_merged_eq_none_iff, List.forall_mem_cons,
    List.forall_mem_map]

theorem mem_names_mergeDuplicates {profile : ProfileName} (h : m ∈ mergeDuplicates targets)
    (hne : m.profiles ≠ .all) : profile ∈ m.profiles.names ↔
      ∃ u ∈ targets, u.name = m.name ∧ profile ∈ u.profiles.names := by
  obtain ⟨first, rest, hu, hm⟩ := exists_mentions h
  rw [hm] at hne ⊢
  simp only [← and_assoc, hu, Profiles.mem_names_foldl_merged hne, List.exists_mem_cons_iff,
    List.mem_map, exists_exists_and_eq_and]

section Parsed

/-- The profiles that the mentions of a name ask for. -/
def mentionsOf (targets : List Target) (name : ExperimentName) : List Profiles :=
  (targets.filter (·.name = name)).map Target.profiles

/-- Targets as they come from the command line. -/
def Parsed (targets : List Target) : Prop :=
  ∀ target ∈ targets, ∃ s, Target.parse s = .ok target

variable {targets' : List Target}

theorem Parsed.names_nodup (h : Parsed targets) : ∀ target ∈ targets,
    target.profiles.names.Nodup := by
  intro target ht
  obtain ⟨s, hs⟩ := h target ht
  cases hp : target.profiles with
  | none => exact List.nodup_nil
  | all => exact List.nodup_nil
  | named names => exact (parse_named hs hp).2

/-- Merging gives one target for each name, with the combined profiles of its mentions. -/
theorem mergeDuplicates_eq (h : Parsed targets) : mergeDuplicates targets =
    (targets.map Target.name).eraseDups.map fun name =>
      ⟨name, Profiles.combined (mentionsOf targets name)⟩ := by
  rw [← mergeDuplicates_names, List.map_map]
  refine (List.map_id _).symm.trans (List.map_congr_left fun m hm => ?_)
  have hc := (Grouping.mem_mergeAll_iff merge_name).mp hm
  cases hf : targets.filter (·.name = m.name) with
  | nil => rw [hf] at hc; cases hc
  | cons first rest =>
    have hsub : ∀ u ∈ first :: rest, u.profiles.names.Nodup := fun u hu =>
      h.names_nodup u (List.mem_of_mem_filter (hf ▸ hu))
    obtain ⟨hfirst, hrest⟩ := List.forall_mem_cons.mp hsub
    have hprofiles : m.profiles = Profiles.combined (mentionsOf targets m.name) := by
      rw [hf] at hc
      rw [← Option.some.inj hc, foldl_merge_profiles,
        Profiles.foldl_merged_eq_combined hfirst (List.forall_mem_map.mpr hrest),
        Option.some.inj hc]
      rw [mentionsOf, hf, List.map_cons]
    exact Target.ext rfl hprofiles

theorem mentionsOf_perm (h : targets.Perm targets') (name : ExperimentName) :
    (mentionsOf targets name).Perm (mentionsOf targets' name) := (h.filter _).map _

theorem Parsed.perm (h : Parsed targets) (hp : targets.Perm targets') : Parsed targets' :=
  fun target ht => h target (hp.mem_iff.mpr ht)

/-- Another order of the targets gives the same names, with the same profiles. -/
theorem mergeDuplicates_perm (h : Parsed targets) (hp : targets.Perm targets') :
    ((mergeDuplicates targets).map Target.name).Perm
        ((mergeDuplicates targets').map Target.name) ∧
      ∀ m ∈ mergeDuplicates targets, ∀ m' ∈ mergeDuplicates targets', m.name = m'.name →
        m.profiles.Same m'.profiles := by
  constructor
  · rw [mergeDuplicates_names, mergeDuplicates_names]
    exact Grouping.perm_eraseDups fun name => (hp.map Target.name).mem_iff
  · intro m hm m' hm' hname
    rw [mergeDuplicates_eq h] at hm
    rw [mergeDuplicates_eq (h.perm hp)] at hm'
    obtain ⟨name, -, rfl⟩ := List.mem_map.mp hm
    obtain ⟨name', -, rfl⟩ := List.mem_map.mp hm'
    obtain rfl : name = name' := hname
    exact Profiles.same_combined_of_perm (mentionsOf_perm hp name)

/-- Merging parsed targets gives one target for each name in the order of first mention, with the
combined profiles of its mentions. The combination is associative with none as its identity, and
all profiles absorb it, so the order of the targets changes orders only. -/
theorem merge_combines :
    (∀ targets : List Target, Parsed targets →
      mergeDuplicates targets = ((targets.map Target.name).eraseDups.map fun name =>
        ⟨name, Profiles.combined (mentionsOf targets name)⟩) ∧
      ∀ targets', targets.Perm targets' →
        ((mergeDuplicates targets).map Target.name).Perm
            ((mergeDuplicates targets').map Target.name) ∧
          ∀ m ∈ mergeDuplicates targets, ∀ m' ∈ mergeDuplicates targets', m.name = m'.name →
            m.profiles.Same m'.profiles) ∧
    (∀ p q r : Profiles, (p.merged q).merged r = p.merged (q.merged r)) ∧
    (∀ p : Profiles, Profiles.none.merged p = p ∧ p.merged .none = p) ∧
    ∀ p : Profiles, Profiles.all.merged p = .all ∧ p.merged .all = .all :=
  ⟨fun _ h => ⟨mergeDuplicates_eq h, fun _ => mergeDuplicates_perm h⟩, Profiles.merged_assoc,
    fun p => ⟨p.merged_none_left, p.merged_none_right⟩,
    fun p => ⟨p.merged_all_left, p.merged_all_right⟩⟩

end Parsed

section Lists

variable {a b n : Str} {t₁ t₂ : Target} {names₁ names₂ : List ProfileName}

theorem mergeDuplicates_pair (h : t₁.name = t₂.name) :
    mergeDuplicates [t₁, t₂] = [t₁.merge t₂] := by
  simp [mergeDuplicates, Grouping.mergeAll, Grouping.mergeInto, h]

/-- Reading two lists and merging them is reading the two lists as one. -/
theorem map_str_foldl_pushNew {list₁ list₂ : Str}
    (h₁ : names₁.map ProfileName.str = (pieces list₁).eraseDups)
    (h₂ : names₂.map ProfileName.str = (pieces list₂).eraseDups) :
    (names₂.foldl Profiles.pushNew names₁).map ProfileName.str =
      (pieces (list₁ ++ ',' :: list₂)).eraseDups := by
  obtain ⟨all₁, ha₁, rfl⟩ := exists_mapM_readPiece_iff.mpr h₁
  obtain ⟨all₂, ha₂, rfl⟩ := exists_mapM_readPiece_iff.mpr h₂
  rw [mapM_readPiece_eq_ok_iff] at ha₁ ha₂
  have hfold : all₂.eraseDups.foldl Profiles.pushNew all₁.eraseDups =
      (all₁ ++ all₂).eraseDups := by
    have h := Grouping.foldl_pushNew_foldl all₁.eraseDups [] all₂
    rw [Grouping.foldl_pushNew_nil, List.nil_append] at h
    rw [← Grouping.foldl_pushNew_nil (all₁ ++ all₂), List.foldl_append,
      Grouping.foldl_pushNew_nil]
    exact h
  rw [hfold, pieces_append, ← ha₁, ← ha₂, ← List.map_append,
    Grouping.eraseDups_map profileName_str_injective]

/-- A profile list over two arguments is the same as the list in one. -/
theorem merge_split_list (h₁ : Target.parse (n ++ ':' :: a) = .ok t₁)
    (h₂ : Target.parse (n ++ ':' :: b) = .ok t₂) (hn₁ : t₁.profiles = .named names₁)
    (hn₂ : t₂.profiles = .named names₂) :
    ∃ t, Target.parse (n ++ ':' :: (a ++ ',' :: b)) = .ok t ∧
      mergeDuplicates [t₁, t₂] = [t] := by
  have hcolon := colon_not_mem_of_parse h₁ hn₁
  obtain ⟨hname₁, hl₁⟩ := (parse_list_iff hcolon hn₁).mp h₁
  obtain ⟨hname₂, hl₂⟩ := (parse_list_iff hcolon hn₂).mp h₂
  have hname : t₁.name = t₂.name := ExperimentName.ext (hname₁.trans hname₂.symm)
  refine ⟨t₁.merge t₂, ?_, mergeDuplicates_pair hname⟩
  have hp : (t₁.merge t₂).profiles = .named (names₂.foldl Profiles.pushNew names₁) := by
    rw [Target.merge, hn₁, hn₂]
    rfl
  exact (parse_list_iff hcolon hp).mpr ⟨hname₁, map_str_foldl_pushNew hl₁ hl₂⟩

def profileA : ProfileName := ⟨['a'], ⟨'a', [], rfl, by decide⟩, by decide⟩

def profileB : ProfileName := ⟨['b'], ⟨'b', [], rfl, by decide⟩, by decide⟩

/-- Overlapping lists with whitespace around the name and the profiles. -/
theorem merge_split_list_overlap : ∃ t, Target.parse " d : b,a, b , b ".toList = .ok t ∧
    mergeDuplicates [⟨⟨['d'], by decide, by decide, by decide⟩, .named [profileB, profileA]⟩,
      ⟨⟨['d'], by decide, by decide, by decide⟩, .named [profileB]⟩] = [t] :=
  merge_split_list (n := " d ".toList) (a := " b,a".toList) (b := " b , b ".toList)
    (by decide) (by decide) rfl rfl

end Lists

end RobotCtl.Experiments
