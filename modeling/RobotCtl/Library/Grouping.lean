import Mathlib.Data.List.Basic
import Mathlib.Data.List.Induction
import Mathlib.Data.List.Nodup

/-! # Merging entries by key

Entries are folded into a list that keeps one entry for each key, at the place
where the key first occurs. The merged entry of a key combines the entries with
that key, in order.
-/

namespace Grouping

variable {α K : Type} [DecidableEq K] {key : α → K} {combine : α → α → α}

/-- Combine an entry into the first one with its key, or add it at the end. -/
def mergeInto (key : α → K) (combine : α → α → α) : List α → α → List α
  | [], x => [x]
  | y :: ys, x => if key y = key x then combine y x :: ys else y :: mergeInto key combine ys x

def mergeAll (key : α → K) (combine : α → α → α) (xs : List α) : List α :=
  xs.foldl (mergeInto key combine) []

/-- All entries of a list combined, from the left. -/
def combineAll (combine : α → α → α) : List α → Option α
  | [] => none
  | x :: xs => some (xs.foldl combine x)

theorem combineAll_concat (xs : List α) (x : α) : combineAll combine (xs ++ [x]) =
    some ((combineAll combine xs).elim x (combine · x)) := by
  cases xs <;> simp [combineAll]

theorem map_key_mergeInto (hk : ∀ a b, key (combine a b) = key a) (acc : List α) (x : α) :
    (mergeInto key combine acc x).map key =
      if key x ∈ acc.map key then acc.map key else acc.map key ++ [key x] := by
  induction acc with
  | nil => simp [mergeInto]
  | cons y ys ih =>
    rw [mergeInto]
    by_cases h : key y = key x
    · simp [h, hk]
    · have hne : key x ≠ key y := fun hc => h hc.symm
      rw [if_neg h, List.map_cons, List.map_cons, ih]
      by_cases hm : key x ∈ ys.map key
      · rw [if_pos hm, if_pos (List.mem_cons_of_mem _ hm)]
      · rw [if_neg hm, if_neg (by simpa [hne] using hm)]
        rfl

theorem eraseDups_concat {K : Type} [BEq K] [LawfulBEq K] (ks : List K) (k : K) :
    (ks ++ [k]).eraseDups = if k ∈ ks then ks.eraseDups else ks.eraseDups ++ [k] := by
  rw [List.eraseDups_append]
  by_cases h : k ∈ ks <;> simp [List.removeAll, List.eraseDups_cons, h]

theorem eraseDups_map {α β : Type} [BEq α] [LawfulBEq α] [BEq β] [LawfulBEq β] {f : α → β}
    (hf : Function.Injective f) (xs : List α) : (xs.map f).eraseDups = xs.eraseDups.map f := by
  induction xs using List.reverseRecOn with
  | nil => rfl
  | append_singleton xs x ih =>
    rw [List.map_append, List.map_singleton, eraseDups_concat, eraseDups_concat, ih]
    simp only [List.mem_map_of_injective hf]
    split
    · rfl
    · rw [List.map_append, List.map_singleton]

/-- Every key is kept once, in order of first occurrence. -/
theorem map_key_mergeAll (hk : ∀ a b, key (combine a b) = key a) (xs : List α) :
    (mergeAll key combine xs).map key = (xs.map key).eraseDups := by
  induction xs using List.reverseRecOn with
  | nil => rfl
  | append_singleton xs x ih =>
    have hm : (mergeAll key combine (xs ++ [x])).map key =
        (mergeInto key combine (mergeAll key combine xs) x).map key := by
      simp [mergeAll]
    rw [hm, map_key_mergeInto hk, ih, List.map_append, List.map_singleton, eraseDups_concat]
    simp only [List.mem_eraseDups]

theorem nodup_eraseDups {K : Type} [BEq K] [LawfulBEq K] (ks : List K) :
    ks.eraseDups.Nodup := by
  induction ks using List.reverseRecOn with
  | nil => simp
  | append_singleton ks k ih =>
    rw [eraseDups_concat]
    split
    · exact ih
    · next h =>
      refine List.nodup_append.mpr ⟨ih, by simp, fun a ha b hb he => h ?_⟩
      rw [← List.mem_singleton.mp hb, ← he]
      exact List.mem_eraseDups.mp ha

theorem eraseDups_eq_self {K : Type} [BEq K] [LawfulBEq K] {ks : List K} (h : ks.Nodup) :
    ks.eraseDups = ks := by
  induction ks using List.reverseRecOn with
  | nil => rfl
  | append_singleton ks k ih =>
    obtain ⟨hks, -, hd⟩ := List.nodup_append.mp h
    have hk : k ∉ ks := fun hm => hd k hm k (List.mem_singleton_self k) rfl
    rw [eraseDups_concat, if_neg hk, ih hks]

theorem perm_eraseDups {K : Type} [BEq K] [LawfulBEq K] {ks ks' : List K}
    (h : ∀ k, k ∈ ks ↔ k ∈ ks') : ks.eraseDups.Perm ks'.eraseDups := by
  refine (List.perm_ext_iff_of_nodup (nodup_eraseDups ks) (nodup_eraseDups ks')).mpr fun k => ?_
  rw [List.mem_eraseDups, List.mem_eraseDups, h]

/-- The entries of all keys together are all entries. -/
theorem perm_flatMap_filter {ks : List K} (hn : ks.Nodup) {xs : List α}
    (h : ∀ x ∈ xs, key x ∈ ks) : (ks.flatMap fun k => xs.filter (key · = k)).Perm xs := by
  induction ks generalizing xs with
  | nil =>
    obtain rfl : xs = [] := List.eq_nil_iff_forall_not_mem.mpr fun x hx => by simpa using h x hx
    rfl
  | cons k ks ih =>
    obtain ⟨hk, hks⟩ := List.nodup_cons.mp hn
    -- the entries of the other keys are among those that do not have this one
    have hrest : ∀ k' ∈ ks, xs.filter (key · = k') =
        (xs.filter fun x => !decide (key x = k)).filter (key · = k') := by
      intro k' hk'
      rw [List.filter_filter]
      refine List.filter_congr fun x _ => ?_
      have hne : k' ≠ k := ne_of_mem_of_not_mem hk' hk
      by_cases hx : key x = k' <;> simp [hx, hne]
    rw [List.flatMap_cons, List.flatMap_congr hrest]
    refine (List.Perm.append_left _ (ih hks fun x hx => ?_)).trans
      (List.filter_append_perm (key · = k) xs)
    obtain ⟨hx, hne⟩ := List.mem_filter.mp hx
    exact (List.mem_cons.mp (h x hx)).resolve_left (by simpa using hne)

theorem nodup_mergeAll (hk : ∀ a b, key (combine a b) = key a) (xs : List α) :
    ((mergeAll key combine xs).map key).Nodup := by
  rw [map_key_mergeAll hk]
  exact nodup_eraseDups _

theorem find_mergeInto (hk : ∀ a b, key (combine a b) = key a) (acc : List α) (x : α) (k : K) :
    (mergeInto key combine acc x).find? (key · = k) = if key x = k then
      some ((acc.find? (key · = k)).elim x (combine · x)) else acc.find? (key · = k) := by
  induction acc with
  | nil =>
    by_cases h : key x = k <;> simp [mergeInto, h]
  | cons y ys ih =>
    rw [mergeInto]
    by_cases hy : key y = key x
    · by_cases h : key x = k <;> simp [hy, h, hk]
    · rw [if_neg hy, List.find?_cons, ih, List.find?_cons]
      by_cases h : key y = k
      · have hx : key x ≠ k := fun hc => hy (h.trans hc.symm)
        simp [h, hx]
      · simp [h]

/-- The entry of a key combines all entries with that key. -/
theorem find_mergeAll (hk : ∀ a b, key (combine a b) = key a) (xs : List α) (k : K) :
    (mergeAll key combine xs).find? (key · = k) =
      combineAll combine (xs.filter (key · = k)) := by
  induction xs using List.reverseRecOn with
  | nil => rfl
  | append_singleton xs x ih =>
    have hm : mergeAll key combine (xs ++ [x]) =
        mergeInto key combine (mergeAll key combine xs) x := by simp [mergeAll]
    rw [hm, find_mergeInto hk, ih, List.filter_append]
    by_cases h : key x = k
    · rw [if_pos h, List.filter_singleton, decide_eq_true h, cond_true, combineAll_concat]
    · rw [if_neg h, List.filter_singleton, decide_eq_false h, cond_false, List.append_nil]

/-- An entry is in the merged list exactly if it is what the entries of its key combine to. -/
theorem mem_mergeAll_iff (hk : ∀ a b, key (combine a b) = key a) {xs : List α} {x : α} :
    x ∈ mergeAll key combine xs ↔ combineAll combine (xs.filter (key · = key x)) = some x := by
  rw [← find_mergeAll hk]
  constructor
  · intro h
    obtain ⟨y, hy⟩ : ∃ y, (mergeAll key combine xs).find? (key · = key x) = some y := by
      rw [← Option.isSome_iff_exists, List.find?_isSome]
      exact ⟨x, h, by simp⟩
    have hkey : key y = key x := by simpa using List.find?_some hy
    rw [hy, List.inj_on_of_nodup_map (nodup_mergeAll hk xs) (List.mem_of_find?_eq_some hy) h hkey]
  · exact List.mem_of_find?_eq_some

theorem mergeInto_first (acc : List α) (x : α) : mergeInto key (fun first _ => first) acc x =
    if key x ∈ acc.map key then acc else acc ++ [x] := by
  induction acc with
  | nil => rfl
  | cons y ys ih =>
    rw [mergeInto, ih]
    by_cases h : key y = key x
    · simp [h]
    · simp only [if_neg h, List.map_cons, List.mem_cons, Ne.symm h, false_or]
      split <;> rfl

/-- Keeping the first entry of each key, one more entry is kept if its key is new. -/
theorem mergeAll_first_concat (xs : List α) (x : α) :
    mergeAll key (fun first _ => first) (xs ++ [x]) =
      if key x ∈ xs.map key then mergeAll key (fun first _ => first) xs
      else mergeAll key (fun first _ => first) xs ++ [x] := by
  have hk : (mergeAll key (fun first _ => first) xs).map key = (xs.map key).eraseDups :=
    map_key_mergeAll (fun _ _ => rfl) xs
  have hm : mergeAll key (fun first _ => first) (xs ++ [x]) =
      mergeInto key (fun first _ => first) (mergeAll key (fun first _ => first) xs) x := by
    simp [mergeAll]
  rw [hm, mergeInto_first, hk]
  simp only [List.mem_eraseDups]

/-- With distinct keys there is one entry for a key. -/
theorem filter_key_of_nodup {xs : List α} (h : (xs.map key).Nodup) {x : α} (hx : x ∈ xs) :
    xs.filter (key · = key x) = [x] := by
  induction xs with
  | nil => cases hx
  | cons y ys ih =>
    obtain ⟨hy, hn⟩ := List.nodup_cons.mp h
    rcases List.mem_cons.mp hx with rfl | hx
    · rw [List.filter_cons_of_pos (by simp), List.filter_eq_nil_iff.mpr fun z hz => ?_]
      simpa using fun he => hy (List.mem_map.mpr ⟨z, hz, he⟩)
    · have hne : key y ≠ key x := fun he => hy (List.mem_map.mpr ⟨x, hx, he.symm⟩)
      rw [List.filter_cons_of_neg (by simpa using hne), ih hn hx]

section PushNew

variable [DecidableEq α] {x y : α} {xs ys : List α}

/-- Add an entry at the end of a list that does not have it yet. -/
def pushNew (xs : List α) (x : α) : List α := if x ∈ xs then xs else xs ++ [x]

theorem mem_pushNew : y ∈ pushNew xs x ↔ y ∈ xs ∨ y = x := by
  unfold pushNew
  split
  · next h => exact ⟨Or.inl, fun hm => hm.elim id fun he => he ▸ h⟩
  · simp

theorem nodup_pushNew (h : xs.Nodup) : (pushNew xs x).Nodup := by
  unfold pushNew
  split
  · exact h
  · next hx => exact List.nodup_append.mpr ⟨h, by simp, by grind⟩

/-- What is added one by one is there in the end. -/
theorem mem_foldl_pushNew : y ∈ ys.foldl pushNew xs ↔ y ∈ xs ∨ y ∈ ys := by
  induction ys generalizing xs with
  | nil => simp
  | cons z ys ih => rw [List.foldl_cons, ih, mem_pushNew, List.mem_cons, or_assoc]

theorem foldl_pushNew_nil (xs : List α) : xs.foldl pushNew [] = xs.eraseDups := by
  induction xs using List.reverseRecOn with
  | nil => rfl
  | append_singleton xs x ih =>
    rw [List.foldl_concat, ih, eraseDups_concat, pushNew]
    simp only [List.mem_eraseDups]

/-- An entry that was seen is not added again, so adding in two rounds is adding in one. -/
theorem foldl_pushNew_foldl (xs ys zs : List α) :
    (zs.foldl pushNew ys).foldl pushNew xs = (ys ++ zs).foldl pushNew xs := by
  induction zs using List.reverseRecOn with
  | nil => rw [List.foldl_nil, List.append_nil]
  | append_singleton zs z ih =>
    rw [List.foldl_concat, ← List.append_assoc, List.foldl_concat, pushNew]
    split
    · next h =>
      have hm : z ∈ (ys ++ zs).foldl pushNew xs := by
        rw [mem_foldl_pushNew, List.mem_append]
        exact Or.inr (mem_foldl_pushNew.mp h)
      rw [ih, pushNew, if_pos hm]
    · rw [List.foldl_concat, ih]

end PushNew

end Grouping
