import Mathlib.Data.List.Basic

/-! # Interleavings

A concurrent trace tags every step with the process that made it, and the trace
of a process is its projection. What only one process can change is determined
by the projection on that process.
-/

namespace Interleaving

variable {ι E σ : Type} [DecidableEq ι]

/-- The steps of one process, in order. -/
def proj (i : ι) (w : List (ι × E)) : List E :=
  w.filterMap fun e => if e.1 = i then some e.2 else none

variable {i j : ι} {w w' : List (ι × E)} {e : E}

@[simp] theorem proj_nil : proj i ([] : List (ι × E)) = [] := rfl

@[simp] theorem proj_cons_self : proj i ((i, e) :: w) = e :: proj i w := by simp [proj]

theorem proj_cons_of_ne (h : j ≠ i) : proj i ((j, e) :: w) = proj i w := by simp [proj, h]

@[simp] theorem proj_append : proj i (w ++ w') = proj i w ++ proj i w' := by simp [proj]

theorem mem_proj_iff : e ∈ proj i w ↔ (i, e) ∈ w := by
  simp only [proj, List.mem_filterMap, Option.ite_none_right_eq_some, Option.some.injEq]
  constructor
  · rintro ⟨⟨j, e'⟩, h, rfl, rfl⟩; exact h
  · intro h; exact ⟨_, h, rfl, rfl⟩

/-- A step of a process is a step of the interleaving. -/
theorem exists_of_proj_eq {t₁ t₂ : List E} (h : proj i w = t₁ ++ e :: t₂) :
    ∃ w₁ w₂, w = w₁ ++ (i, e) :: w₂ ∧ proj i w₁ = t₁ ∧ proj i w₂ = t₂ := by
  induction w generalizing t₁ with
  | nil => simp at h
  | cons x w ih =>
    obtain ⟨j, x⟩ := x
    by_cases hj : j = i
    · subst hj
      rw [proj_cons_self] at h
      cases t₁ with
      | nil =>
        obtain ⟨rfl, rfl⟩ := List.cons.inj h
        exact ⟨[], w, rfl, rfl, rfl⟩
      | cons y t₁ =>
        obtain ⟨rfl, ht⟩ := List.cons.inj h
        obtain ⟨w₁, w₂, rfl, rfl, rfl⟩ := ih ht
        exact ⟨(j, x) :: w₁, w₂, rfl, proj_cons_self, rfl⟩
    · rw [proj_cons_of_ne hj] at h
      obtain ⟨w₁, w₂, rfl, rfl, rfl⟩ := ih h
      exact ⟨(j, x) :: w₁, w₂, rfl, proj_cons_of_ne hj, rfl⟩

/-- If the other processes change nothing, a fold sees the steps of one process only. -/
theorem foldl_proj {f : σ → E → σ} {s : σ} (h : ∀ j e, (j, e) ∈ w → j ≠ i → ∀ s, f s e = s) :
    (w.map Prod.snd).foldl f s = (proj i w).foldl f s := by
  induction w generalizing s with
  | nil => rfl
  | cons x w ih =>
    obtain ⟨j, x⟩ := x
    have hw : ∀ k e, (k, e) ∈ w → k ≠ i → ∀ s, f s e = s := fun k e he =>
      h k e (List.mem_cons_of_mem _ he)
    by_cases hj : j = i
    · subst hj
      simp only [List.map_cons, List.foldl_cons, proj_cons_self, ih hw]
    · rw [proj_cons_of_ne hj, List.map_cons, List.foldl_cons, h j x List.mem_cons_self hj, ih hw]

theorem proj_eq_map (h : ∀ x ∈ w, x.1 = i) : proj i w = w.map Prod.snd := by
  induction w with
  | nil => rfl
  | cons x w ih =>
    obtain ⟨j, x⟩ := x
    obtain rfl : j = i := h _ List.mem_cons_self
    rw [proj_cons_self, ih fun y hy => h y (List.mem_cons_of_mem _ hy), List.map_cons]

theorem proj_eq_nil (h : ∀ x ∈ w, x.1 ≠ i) : proj i w = [] := by
  rw [List.eq_nil_iff_forall_not_mem]
  exact fun e he => h _ (mem_proj_iff.mp he) rfl

omit [DecidableEq ι] in
@[simp] theorem map_snd_map_mk (i : ι) (t : List E) : (t.map (Prod.mk i)).map Prod.snd = t := by
  rw [List.map_map]
  exact List.map_id t

@[simp] theorem proj_map_self (t : List E) : proj i (t.map (Prod.mk i)) = t := by
  rw [proj_eq_map (by simp), map_snd_map_mk]

theorem proj_map_of_ne (t : List E) (h : j ≠ i) : proj i (t.map (Prod.mk j)) = [] :=
  proj_eq_nil (by simpa using fun _ _ => h)

/-- Every step of one process comes before every step of another. -/
def Precedes (j i : ι) (w : List (ι × E)) : Prop :=
  ∃ w₁ w₂, w = w₁ ++ w₂ ∧ (∀ x ∈ w₁, x.1 = j) ∧ ∀ x ∈ w₂, x.1 = i

/-- Processes that do not overlap run one after the other. -/
theorem Precedes.map_eq (h : Precedes j i w) (hne : j ≠ i) :
    w.map Prod.snd = proj j w ++ proj i w := by
  obtain ⟨w₁, w₂, rfl, h₁, h₂⟩ := h
  have h₃ : proj j w₂ = [] := proj_eq_nil fun x hx => h₂ x hx ▸ hne.symm
  have h₄ : proj i w₁ = [] := proj_eq_nil fun x hx => h₁ x hx ▸ hne
  rw [proj_append, proj_append, h₃, h₄, proj_eq_map h₁, proj_eq_map h₂, List.map_append]
  simp

end Interleaving
