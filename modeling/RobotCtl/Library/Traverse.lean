import Mathlib.Data.List.Forall2

/-! # Reading a list with a function that can fail

The entries of a list are read from the left until one fails. Reading succeeds
if every entry is read, and fails with the error of the first one that is not.
-/

namespace Traverse

variable {α β ε σ : Type} {f : α → Except ε β} {x : α} {xs : List α} {y : β} {ys : List β} {e : ε}

theorem mapM_cons_ok (h : f x = .ok y) (xs : List α) :
    (x :: xs).mapM f = (xs.mapM f).map (y :: ·) := by
  rw [List.mapM_cons, h]
  cases hm : xs.mapM f <;> rfl

theorem mapM_cons_error (h : f x = .error e) (xs : List α) : (x :: xs).mapM f = .error e := by
  rw [List.mapM_cons, h]
  rfl

/-- Reading succeeds if each entry is read. -/
theorem mapM_eq_ok_iff : xs.mapM f = .ok ys ↔ List.Forall₂ (fun x y => f x = .ok y) xs ys := by
  induction xs generalizing ys with
  | nil =>
    rw [List.mapM_nil, List.forall₂_nil_left_iff]
    exact ⟨fun h => (Except.ok.inj h).symm, fun h => congrArg Except.ok h.symm⟩
  | cons x xs ih =>
    rw [List.forall₂_cons_left_iff]
    simp only [← ih]
    cases hx : f x with
    | error e => simp [mapM_cons_error hx]
    | ok y =>
      rw [mapM_cons_ok hx]
      cases hm : xs.mapM f with
      | error e => simp [Except.map]
      | ok zs => simp [Except.map, eq_comm]

/-- Reading fails with the error of the first entry that is not read. -/
theorem mapM_eq_error_iff : xs.mapM f = .error e ↔ ∃ before x after, xs = before ++ x :: after ∧
    (∀ y ∈ before, ∃ b, f y = .ok b) ∧ f x = .error e := by
  constructor
  · intro h
    induction xs with
    | nil => cases h
    | cons x xs ih =>
      cases hx : f x with
      | error e' =>
        rw [mapM_cons_error hx] at h
        exact ⟨[], x, xs, rfl, by simp, hx.trans (congrArg _ (Except.error.inj h))⟩
      | ok y =>
        rw [mapM_cons_ok hx] at h
        cases hm : xs.mapM f with
        | ok ys => rw [hm] at h; cases h
        | error e' =>
          rw [hm] at h
          obtain ⟨before, z, after, rfl, hb, hz⟩ := ih (hm.trans (congrArg _ (Except.error.inj h)))
          exact ⟨x :: before, z, after, rfl, List.forall_mem_cons.mpr ⟨⟨y, hx⟩, hb⟩, hz⟩
  · rintro ⟨before, x, after, rfl, hb, hx⟩
    induction before with
    | nil => exact mapM_cons_error hx after
    | cons z before ih =>
      obtain ⟨⟨b, hz⟩, hb⟩ := List.forall_mem_cons.mp hb
      rw [List.cons_append, mapM_cons_ok hz, ih hb]
      rfl

/-- A fold that reads each entry before it uses it can read them all first. -/
theorem foldlM_eq_mapM {step : σ → α → Except ε σ} {g : σ → β → σ}
    (hstep : ∀ s x, step s x = (f x).map (g s)) (s : σ) (xs : List α) :
    xs.foldlM step s = (xs.mapM f).map fun ys => ys.foldl g s := by
  induction xs generalizing s with
  | nil => rfl
  | cons x xs ih =>
    rw [List.foldlM_cons, hstep]
    cases hx : f x with
    | error e => rw [mapM_cons_error hx]; rfl
    | ok y =>
      rw [mapM_cons_ok hx]
      refine (ih (g s y)).trans ?_
      cases xs.mapM f <;> rfl

/-- Every value that was read comes from an entry, and every entry gave one. -/
theorem mem_of_mapM (h : xs.mapM f = .ok ys) :
    (∀ y ∈ ys, ∃ x ∈ xs, f x = .ok y) ∧ ∀ x ∈ xs, ∃ y ∈ ys, f x = .ok y := by
  have hf := mapM_eq_ok_iff.mp h
  clear h
  induction hf with
  | nil => simp
  | @cons x y xs ys hx _ ih =>
    constructor
    · rintro z (_ | ⟨_, hz⟩)
      · exact ⟨x, List.mem_cons_self, hx⟩
      · obtain ⟨w, hw, hf⟩ := ih.1 z hz
        exact ⟨w, List.mem_cons_of_mem _ hw, hf⟩
    · rintro w (_ | ⟨_, hw⟩)
      · exact ⟨y, List.mem_cons_self, hx⟩
      · obtain ⟨z, hz, hf⟩ := ih.2 w hw
        exact ⟨z, List.mem_cons_of_mem _ hz, hf⟩

/-- What each entry shares with what was read from it, the lists share. -/
theorem map_of_mapM {K : Type} {key : α → K} {key' : β → K} (h : xs.mapM f = .ok ys)
    (hk : ∀ x y, f x = .ok y → key' y = key x) : ys.map key' = xs.map key := by
  have hf := mapM_eq_ok_iff.mp h
  clear h
  induction hf with
  | nil => rfl
  | cons hx _ ih => rw [List.map_cons, List.map_cons, hk _ _ hx, ih]

end Traverse
