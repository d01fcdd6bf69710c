import Mathlib.Data.List.Sort

namespace KernelEngine.Ranks

variable {α : Type*} [LinearOrder α] {l sorted : List α} {i : ℕ} {v : α}

/-- At most the entries in front of a place of a sorted list are below the one there. -/
theorem countP_lt_le (hl : l.SortedLE) (hi : l[i]? = some v) : l.countP (· < v) ≤ i := by
  obtain ⟨hlt, rfl⟩ := List.getElem?_eq_some_iff.mp hi
  have hbehind : (l.drop i).countP (· < l[i]) = 0 := by
    refine List.countP_eq_zero.mpr fun x hx => ?_
    obtain ⟨j, hj, rfl⟩ := List.mem_iff_getElem.mp hx
    rw [List.getElem_drop, decide_eq_true_eq, not_lt]
    exact hl.getElem_le_getElem_of_le (Nat.le_add_right i j)
  have hfront : (l.take i).countP (· < l[i]) ≤ i :=
    List.countP_le_length.trans (List.length_take_le i l)
  calc l.countP (· < l[i]) = (l.take i).countP (· < l[i]) + (l.drop i).countP (· < l[i]) := by
        rw [← List.countP_append, List.take_append_drop]
    _ ≤ i := by rw [hbehind]; exact hfront

/-- The entries up to a place of a sorted list are none of them above the one there. -/
theorem lt_countP_le (hl : l.SortedLE) (hi : l[i]? = some v) : i < l.countP (· ≤ v) := by
  obtain ⟨hlt, rfl⟩ := List.getElem?_eq_some_iff.mp hi
  have hall : (l.take (i + 1)).countP (· ≤ l[i]) = (l.take (i + 1)).length := by
    refine List.countP_eq_length.mpr fun x hx => ?_
    obtain ⟨j, hj, rfl⟩ := List.mem_iff_getElem.mp hx
    rw [List.length_take] at hj
    rw [List.getElem_take, decide_eq_true_eq]
    exact hl.getElem_le_getElem_of_le (by omega)
  have hle := (List.take_sublist (i + 1) l).countP_le (p := (· ≤ l[i]))
  rw [hall, List.length_take] at hle
  omega

/-- What is said of the sorted list by counting holds of the list itself. -/
theorem rank_of_sorted (hperm : sorted.Perm l) (hsorted : sorted.SortedLE)
    (hi : sorted[i]? = some v) : l.countP (· < v) ≤ i ∧ i < l.countP (· ≤ v) := by
  rw [← hperm.countP_eq, ← hperm.countP_eq]
  exact ⟨countP_lt_le hsorted hi, lt_countP_le hsorted hi⟩

/-- Later places hold no smaller entries. -/
theorem le_of_place_le {j : ℕ} {w : α} (hl : l.SortedLE) (hi : l[i]? = some v)
    (hj : l[j]? = some w) (hij : i ≤ j) : v ≤ w := by
  obtain ⟨hlt, rfl⟩ := List.getElem?_eq_some_iff.mp hi
  obtain ⟨hlt', rfl⟩ := List.getElem?_eq_some_iff.mp hj
  exact hl.getElem_le_getElem_of_le hij

end KernelEngine.Ranks
