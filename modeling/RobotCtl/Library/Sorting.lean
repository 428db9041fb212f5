import Mathlib.Data.List.Lex
import Mathlib.Data.List.Nodup
import Mathlib.Order.Lattice

/-! # Sorting by a key

Sorting entries with distinct keys puts them in the order in which their keys
strictly increase.
-/

namespace Sorting

variable {α K : Type} [LinearOrder K] (key : α → K)

def sortBy (xs : List α) : List α := xs.mergeSort fun a b => key a ≤ key b

variable {key} {xs : List α}

theorem mem_sortBy {x : α} : x ∈ sortBy key xs ↔ x ∈ xs := List.mem_mergeSort

theorem pairwise_le_sortBy (xs : List α) :
    (sortBy key xs).Pairwise fun a b => key a ≤ key b := by
  refine (List.pairwise_mergeSort ?_ ?_ xs).imp ?_
  · intro a b c hab hbc
    simp only [decide_eq_true_eq] at hab hbc ⊢
    exact hab.trans hbc
  · intro a b
    simpa using le_total (key a) (key b)
  · intro a b hab
    simpa using hab

theorem pairwise_sortBy (h : (xs.map key).Nodup) :
    (sortBy key xs).Pairwise fun a b => key a < key b := by
  have hn : ((sortBy key xs).map key).Nodup :=
    ((List.mergeSort_perm xs fun a b => key a ≤ key b).map key).nodup_iff.mpr h
  apply (pairwise_le_sortBy xs).imp₂ (fun a b hab hne => lt_of_le_of_ne hab hne)
  exact List.pairwise_map.mp hn

end Sorting
