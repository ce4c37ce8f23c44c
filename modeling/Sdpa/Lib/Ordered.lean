import Mathlib.Data.List.Sort

/-!
# Lists kept in order

Insertion before the first element that is not smaller, as a loop that looks for
the position does it, and removal of the one element that has a key.
-/
namespace Sdpa.Lib.Ordered

variable {α β : Type}

theorem insertIdx_findIdx (r : α → α → Prop) [DecidableRel r] (a : α) (l : List α) :
    l.insertIdx (l.findIdx fun x => decide (r a x)) a = l.orderedInsert r a := by
  induction l with
  | nil => rfl
  | cons x l ih =>
    rw [List.findIdx_cons, List.orderedInsert_cons]
    by_cases h : r a x
    · simp [h]
    · simp [h, ih]

/-- A relation holds along the list after an insertion if the new element is related to what it
comes before, and what is smaller is related to it. -/
theorem pairwise_orderedInsert [LinearOrder β] {key : α → β} {R : α → α → Prop} {a : α} {l : List α}
    (hsorted : l.Pairwise fun x y => key x ≤ key y) (hR : l.Pairwise R)
    (hafter : ∀ x ∈ l, key a ≤ key x → R a x) (hbefore : ∀ x ∈ l, key x < key a → R x a) :
    (l.orderedInsert (fun x y => key x ≤ key y) a).Pairwise R := by
  induction l with
  | nil => simp
  | cons x l ih =>
    rw [List.pairwise_cons] at hsorted hR
    rw [List.orderedInsert_cons]
    split
    · rename_i hle
      refine List.pairwise_cons.mpr ⟨fun y hy => ?_, List.pairwise_cons.mpr hR⟩
      refine hafter y hy ?_
      rcases List.mem_cons.mp hy with rfl | hmem
      · exact hle
      · exact hle.trans (hsorted.1 y hmem)
    · rename_i hlt
      refine List.pairwise_cons.mpr ⟨fun y hy => ?_, ?_⟩
      · rcases (List.mem_orderedInsert _).mp hy with rfl | hmem
        · exact hbefore x (by simp) (not_le.mp hlt)
        · exact hR.1 y hmem
      · exact ih hsorted.2 hR.2 (fun y hy => hafter y (List.mem_cons_of_mem x hy))
          fun y hy => hbefore y (List.mem_cons_of_mem x hy)

/-- Two elements of the list stand in one order or the other. -/
theorem rel_or_rel {R : α → α → Prop} {l : List α} (h : l.Pairwise R) {x y : α} (hx : x ∈ l)
    (hy : y ∈ l) (hne : x ≠ y) : R x y ∨ R y x := by
  obtain ⟨i, hi, rfl⟩ := List.mem_iff_getElem.mp hx
  obtain ⟨j, hj, rfl⟩ := List.mem_iff_getElem.mp hy
  have hget := List.pairwise_iff_getElem.mp h
  rcases Nat.lt_trichotomy i j with hij | rfl | hji
  · exact Or.inl (hget i j hi hj hij)
  · exact absurd rfl hne
  · exact Or.inr (hget j i hj hi hji)

/-- Removing the first element with a key removes all of them if there is at most one. -/
theorem eraseP_eq_filter {κ : Type} [DecidableEq κ] {key : α → κ} {k : κ} {l : List α}
    (h : (l.filter fun x => key x == k).length ≤ 1) :
    l.eraseP (fun x => key x == k) = l.filter fun x => key x != k := by
  induction l with
  | nil => rfl
  | cons x l ih =>
    by_cases hx : key x = k
    · have hnone : l.filter (fun y => key y == k) = [] := by
        rw [List.filter_cons_of_pos (by simp [hx]), List.length_cons] at h
        exact List.length_eq_zero_iff.mp (by omega)
      have hrest : l.filter (fun y => key y != k) = l := by
        refine List.filter_eq_self.mpr fun y hy => ?_
        have hy' := List.filter_eq_nil_iff.mp hnone y hy
        simpa using hy'
      simp [hx, hrest]
    · rw [List.filter_cons_of_neg (by simp [hx])] at h
      simp [hx, ih h]

theorem length_filter_le_one {κ : Type} [DecidableEq κ] {key : α → κ} {l : List α}
    (h : (l.map key).Nodup) (k : κ) : (l.filter fun x => key x == k).length ≤ 1 := by
  have hcount := List.nodup_iff_count_le_one.mp h k
  rw [List.count, List.countP_map, List.countP_eq_length_filter] at hcount
  exact hcount

end Sdpa.Lib.Ordered
