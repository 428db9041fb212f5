import RobotCtl.Library.Grouping
import RobotCtl.Library.Words

/-! # The addresses of a robot

What a status report says of the network interfaces, from the output of
`ip -o -4 addr show`: one line for each address, which starts with an index and
the name of its interface.
-/

namespace RobotCtl.Status

open Text

structure Interface where
  name : Str
  addresses : List Str
  deriving DecidableEq, Repr

def inet : Str := "inet".toList

/-- The interface of a line and its address, which follows the first `inet` after the name. -/
def readAddress (line : Str) : Option (Str × Str) := do
  let fields := splitWhitespace line
  let name ← fields[1]?
  let address ← ((fields.drop 2).dropWhile (· ≠ inet))[1]?
  pure (name, address)

/-- Add an address to the first interface with its name, or a new interface at the end. -/
def pushAddress : List Interface → Str × Str → List Interface
  | [], (name, address) => [⟨name, [address]⟩]
  | iface :: interfaces, (name, address) =>
    if iface.name = name then ⟨iface.name, iface.addresses ++ [address]⟩ :: interfaces
    else iface :: pushAddress interfaces (name, address)

def parseIpAddresses (text : Str) : List Interface :=
  (lines text).foldl (fun interfaces line =>
    (readAddress line).elim interfaces (pushAddress interfaces)) []

/-- The line has a second field and, after it, a field `inet` that another one follows. -/
def Relevant (line : Str) : Prop := ∃ index name before address after,
  splitWhitespace line = index :: name :: before ++ inet :: address :: after

/-- The line is relevant with this name and this address, which follows the first `inet`. -/
def Shows (line : Str) (entry : Str × Str) : Prop := ∃ index before after,
  splitWhitespace line = index :: entry.1 :: before ++ inet :: entry.2 :: after ∧ inet ∉ before

/-- The relevant lines of a list, with what they show. -/
inductive Accounts : List Str → List (Str × Str) → Prop
  | nil : Accounts [] []
  | relevant {line : Str} {ls : List Str} {entry : Str × Str} {entries : List (Str × Str)} :
      Shows line entry → Accounts ls entries → Accounts (line :: ls) (entry :: entries)
  | other {line : Str} {ls : List Str} {entries : List (Str × Str)} :
      ¬ Relevant line → Accounts ls entries → Accounts (line :: ls) entries

/-- The entries are grouped by name: nothing is lost, duplicated or attributed to another name. -/
structure Groups (entries : List (Str × Str)) (interfaces : List Interface) : Prop where
  names : interfaces.map Interface.name = (entries.map Prod.fst).eraseDups
  distinct : (interfaces.map Interface.name).Nodup
  addresses : ∀ iface ∈ interfaces,
    iface.addresses = (entries.filter (·.1 = iface.name)).map Prod.snd
  nonempty : ∀ iface ∈ interfaces, iface.addresses ≠ []
  total : (interfaces.flatMap Interface.addresses).length = entries.length

section Lines

variable {line : Str} {entry : Str × Str}

/-- What follows the first occurrence of a mark. -/
theorem getElem?_dropWhile_eq_some_iff {mark a : Str} {fields : List Str} :
    (fields.dropWhile (· ≠ mark))[1]? = some a ↔
      ∃ before after, fields = before ++ mark :: a :: after ∧ mark ∉ before := by
  constructor
  · intro h
    have happ := List.takeWhile_append_dropWhile (p := (· ≠ mark)) (l := fields)
    have hhead := List.head?_dropWhile_not (· ≠ mark) fields
    generalize fields.dropWhile (· ≠ mark) = rest at h happ hhead
    rcases rest with _ | ⟨d, _ | ⟨b, after⟩⟩
    · simp at h
    · simp at h
    · obtain rfl : d = mark := by simpa using hhead
      obtain rfl : b = a := by simpa using h
      refine ⟨_, after, happ.symm, fun hm => ?_⟩
      simpa using List.mem_takeWhile_imp hm
  · rintro ⟨before, after, rfl, hb⟩
    rw [List.dropWhile_append_of_pos fun c hc => by simpa using ne_of_mem_of_not_mem hc hb]
    simp

/-- A mark that a field follows is there for a first time, and then a field follows it too. -/
theorem exists_first (mark a : Str) (before after : List Str) : ∃ before' a' after',
    before ++ mark :: a :: after = before' ++ mark :: a' :: after' ∧ mark ∉ before' := by
  induction before with
  | nil => exact ⟨[], a, after, rfl, List.not_mem_nil⟩
  | cons c before ih =>
    by_cases hc : c = mark
    · subst hc
      obtain ⟨d, rest, hd⟩ : ∃ d rest, before ++ c :: a :: after = d :: rest := by
        cases before with
        | nil => exact ⟨c, _, rfl⟩
        | cons d before => exact ⟨d, _, rfl⟩
      exact ⟨[], d, rest, by rw [List.cons_append, hd]; rfl, List.not_mem_nil⟩
    · obtain ⟨before', a', after', he, hb⟩ := ih
      refine ⟨c :: before', a', after', by rw [List.cons_append, he]; rfl, ?_⟩
      simp [Ne.symm hc, hb]

theorem readAddress_eq_some_iff : readAddress line = some entry ↔ Shows line entry := by
  simp only [readAddress, Option.bind_eq_bind, Option.bind_eq_some_iff,
    getElem?_dropWhile_eq_some_iff, Option.pure_def, Option.some.injEq]
  constructor
  · rintro ⟨name, hn, address, ⟨before, after, hf, hb⟩, rfl⟩
    generalize hs : splitWhitespace line = fields at hn hf
    rcases fields with _ | ⟨index, _ | ⟨second, fields⟩⟩
    · simp at hn
    · simp at hn
    · obtain rfl : second = name := by simpa using hn
      exact ⟨index, before, after, hs.trans (congrArg (index :: second :: ·) hf), hb⟩
  · rintro ⟨index, before, after, hs, hb⟩
    rw [hs]
    exact ⟨entry.1, rfl, entry.2, ⟨before, after, rfl, hb⟩, rfl⟩

theorem Shows.relevant (h : Shows line entry) : Relevant line := by
  obtain ⟨index, before, after, hs, -⟩ := h
  exact ⟨index, entry.1, before, entry.2, after, hs⟩

/-- A relevant line shows an address. -/
theorem Relevant.exists_shows (h : Relevant line) : ∃ entry, Shows line entry := by
  obtain ⟨index, name, before, address, after, hs⟩ := h
  obtain ⟨before', address', after', he, hb⟩ := exists_first inet address before after
  exact ⟨(name, address'), index, before', after', hs.trans (congrArg (index :: name :: ·) he), hb⟩

theorem readAddress_eq_none_iff : readAddress line = none ↔ ¬ Relevant line := by
  constructor
  · rintro h hr
    obtain ⟨entry, he⟩ := hr.exists_shows
    rw [readAddress_eq_some_iff.mpr he] at h
    cases h
  · intro h
    rw [Option.eq_none_iff_forall_ne_some]
    exact fun entry he => h (readAddress_eq_some_iff.mp he).relevant

/-- The accounts of a list of lines are what is read off its lines. -/
theorem accounts_iff {ls : List Str} {entries : List (Str × Str)} :
    Accounts ls entries ↔ entries = ls.filterMap readAddress := by
  constructor
  · intro h
    induction h with
    | nil => rfl
    | relevant hs _ ih => rw [List.filterMap_cons_some (readAddress_eq_some_iff.mpr hs), ih]
    | other hr _ ih => rw [List.filterMap_cons_none (readAddress_eq_none_iff.mpr hr), ih]
  · rintro rfl
    induction ls with
    | nil => exact .nil
    | cons line ls ih =>
      cases h : readAddress line with
      | none =>
        rw [List.filterMap_cons_none h]
        exact .other (readAddress_eq_none_iff.mp h) ih
      | some entry =>
        rw [List.filterMap_cons_some h]
        exact .relevant (readAddress_eq_some_iff.mp h) ih

end Lines

section Groups

/-- Two parts of one interface. -/
def joined (a b : Interface) : Interface := ⟨a.name, a.addresses ++ b.addresses⟩

/-- An interface of which one address is known. -/
def single (entry : Str × Str) : Interface := ⟨entry.1, [entry.2]⟩

theorem pushAddress_eq (interfaces : List Interface) (entry : Str × Str) :
    pushAddress interfaces entry =
      Grouping.mergeInto Interface.name joined interfaces (single entry) := by
  induction interfaces with
  | nil => rfl
  | cons iface interfaces ih => rw [pushAddress, Grouping.mergeInto, ih]; rfl

/-- The interfaces are those of the relevant lines, merged by name. -/
theorem parseIpAddresses_eq (text : Str) : parseIpAddresses text =
    Grouping.mergeAll Interface.name joined
      (((lines text).filterMap readAddress).map single) := by
  rw [parseIpAddresses, Grouping.mergeAll, List.foldl_map, List.foldl_filterMap]
  congr
  funext interfaces line
  cases readAddress line with
  | none => rfl
  | some entry => exact pushAddress_eq interfaces entry

theorem addresses_foldl_joined (iface : Interface) (entries : List (Str × Str)) :
    ((entries.map single).foldl joined iface).addresses =
      iface.addresses ++ entries.map Prod.snd := by
  induction entries generalizing iface with
  | nil => rw [List.map_nil, List.foldl_nil, List.map_nil, List.append_nil]
  | cons entry entries ih =>
    rw [List.map_cons, List.foldl_cons, ih, List.map_cons, List.append_cons]
    rfl

/-- What the entries of one name combine to. -/
theorem combineAll_single {iface : Interface} {entries : List (Str × Str)}
    (h : Grouping.combineAll joined (entries.map single) = some iface) :
    iface.addresses = entries.map Prod.snd ∧ entries ≠ [] := by
  cases entries with
  | nil => cases h
  | cons entry entries =>
    refine ⟨?_, List.cons_ne_nil _ _⟩
    rw [← Option.some.inj h]
    exact addresses_foldl_joined (single entry) entries

theorem groups_mergeAll (entries : List (Str × Str)) :
    Groups entries (Grouping.mergeAll Interface.name joined (entries.map single)) := by
  have hk : ∀ a b : Interface, (joined a b).name = a.name := fun _ _ => rfl
  have hkeys : (entries.map single).map Interface.name = entries.map Prod.fst := by
    rw [List.map_map]
    rfl
  have hnames : (Grouping.mergeAll Interface.name joined (entries.map single)).map
      Interface.name = (entries.map Prod.fst).eraseDups := by
    rw [← hkeys]
    convert Grouping.map_key_mergeAll hk (entries.map single)
  have hgroup : ∀ iface ∈ Grouping.mergeAll Interface.name joined (entries.map single),
      iface.addresses = (entries.filter (·.1 = iface.name)).map Prod.snd ∧
        entries.filter (·.1 = iface.name) ≠ [] := by
    intro iface hi
    have hc := (Grouping.mem_mergeAll_iff hk).mp hi
    rw [List.filter_map] at hc
    exact combineAll_single hc
  refine ⟨hnames, Grouping.nodup_mergeAll hk _, fun iface hi => (hgroup iface hi).1, ?_, ?_⟩
  · intro iface hi
    rw [(hgroup iface hi).1]
    simpa using (hgroup iface hi).2
  · have hcover : ∀ entry ∈ entries, entry.1 ∈ (Grouping.mergeAll Interface.name joined
        (entries.map single)).map Interface.name := by
      intro entry he
      rw [hnames, List.mem_eraseDups]
      exact List.mem_map_of_mem he
    have hall := Grouping.perm_flatMap_filter (Grouping.nodup_mergeAll hk _) hcover
    rw [List.flatMap_map] at hall
    rw [List.flatMap_congr fun iface hi => (hgroup iface hi).1, ← List.map_flatMap,
      List.length_map, hall.length_eq]

/-- Each relevant line is accounted for in the interface that it names, and nothing else is. -/
theorem parseIpAddresses_groups (text : Str) : (∃! entries, Accounts (lines text) entries) ∧
    ∀ entries, Accounts (lines text) entries → Groups entries (parseIpAddresses text) := by
  refine ⟨⟨_, accounts_iff.mpr rfl, fun entries h => accounts_iff.mp h⟩, fun entries h => ?_⟩
  rw [parseIpAddresses_eq, ← accounts_iff.mp h]
  exact groups_mergeAll entries

example : parseIpAddresses
    "3: wlan0 inet 10.0.0.5/24\n3: wlan0 link\n1: lo inet 127.0.0.1/8\n".toList =
      [⟨"wlan0".toList, ["10.0.0.5/24".toList]⟩, ⟨"lo".toList, ["127.0.0.1/8".toList]⟩] := by
  decide

end Groups

end RobotCtl.Status
