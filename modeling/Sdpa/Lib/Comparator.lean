import Mathlib.Data.List.Sort

/-!
# Sorting by a comparator

A sort by a comparison function is bound by its contract only on lists on which the
function is consistent: the comparison turns its sign when the arguments are
swapped, is transitive, and does not tell equal elements apart. On other lists it
may return anything, or fail.
-/
namespace Sdpa.Lib.Comparator

variable {α : Type} {cmp : α → α → Int} {l : List α}

structure Consistent (cmp : α → α → Int) (l : List α) : Prop where
  swap : ∀ x ∈ l, ∀ y ∈ l, 0 < cmp x y ↔ cmp y x < 0
  trans : ∀ x ∈ l, ∀ y ∈ l, ∀ z ∈ l, 0 < cmp x y → 0 < cmp y z → 0 < cmp x z
  zero : ∀ x ∈ l, ∀ y ∈ l, ∀ z ∈ l, cmp x y = 0 →
    (0 < cmp x z ↔ 0 < cmp y z) ∧ (cmp x z < 0 ↔ cmp y z < 0)

/-- The sort does what its contract says; `none` is a failure. -/
def Sorts (cmp : α → α → Int) (sort : List α → Option (List α)) : Prop :=
  ∀ l, Consistent cmp l → ∃ l', sort l = some l' ∧ l'.Perm l ∧ l'.Pairwise fun x y => cmp x y ≤ 0

/-- Differences of keys are consistent. -/
theorem consistent_of_key {key : α → Int} (h : ∀ x ∈ l, ∀ y ∈ l, cmp x y = key x - key y) :
    Consistent cmp l := by
  refine ⟨fun x hx y hy => ?_, fun x hx y hy z hz => ?_, fun x hx y hy z hz => ?_⟩
  · rw [h x hx y hy, h y hy x hx]
    omega
  · rw [h x hx y hy, h y hy z hz, h x hx z hz]
    omega
  · rw [h x hx y hy, h x hx z hz, h y hy z hz]
    omega

theorem Consistent.le_total (h : Consistent cmp l) {x y : α} (hx : x ∈ l) (hy : y ∈ l) :
    cmp x y ≤ 0 ∨ cmp y x ≤ 0 := by
  have hswap := h.swap x hx y hy
  omega

theorem Consistent.le_trans (h : Consistent cmp l) {x y z : α} (hx : x ∈ l) (hy : y ∈ l)
    (hz : z ∈ l) (hxy : cmp x y ≤ 0) (hyz : cmp y z ≤ 0) : cmp x z ≤ 0 := by
  have hyx := h.swap y hy x hx
  have hzy := h.swap z hz y hy
  have hzx := h.swap z hz x hx
  have hxz := h.swap x hx z hz
  -- Unless one pair is equal, `z` is above `y` and `y` above `x`.
  rcases Int.lt_or_eq_of_le hxy with hlt | heq
  · rcases Int.lt_or_eq_of_le hyz with hlt' | heq'
    · have habove := h.trans z hz y hy x hx (hzy.mpr hlt') (hyx.mpr hlt)
      omega
    · have hsame := h.zero y hy z hz x hx heq'
      omega
  · have hsame := h.zero x hx y hy z hz heq
    omega

/-- A merge sort that fails on all other lists keeps the contract. -/
theorem exists_sorts (cmp : α → α → Int) :
    ∃ sort, Sorts cmp sort ∧ ∀ l, ¬ Consistent cmp l → sort l = none := by
  classical
  let le : ∀ l : List α, {x // x ∈ l} → {x // x ∈ l} → Bool := fun l x y => decide (cmp x y ≤ 0)
  refine ⟨fun l => if Consistent cmp l then some ((l.attach.mergeSort (le l)).map Subtype.val)
    else none, fun l h => ⟨_, if_pos h, ?_, ?_⟩, fun l h => if_neg h⟩
  · have hperm := (List.mergeSort_perm l.attach (le l)).map Subtype.val
    rwa [List.attach_map_subtype_val] at hperm
  · have hsorted : (l.attach.mergeSort (le l)).Pairwise fun x y => le l x y := by
      refine List.pairwise_mergeSort (fun x y z hxy hyz => ?_) (fun x y => ?_) l.attach
      · exact decide_eq_true
          (h.le_trans x.2 y.2 z.2 (of_decide_eq_true hxy) (of_decide_eq_true hyz))
      · simpa [le] using h.le_total x.2 y.2
    exact List.pairwise_map.mpr (hsorted.imp fun hle => of_decide_eq_true hle)

end Sdpa.Lib.Comparator
