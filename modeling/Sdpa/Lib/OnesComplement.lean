import Mathlib.Algebra.BigOperators.Group.Finset.Basic
import Mathlib.Tactic.Common

/-!
# Sums with end-around carry

The sum of 16-bit numbers in which the carries are added in again at the low end. It
does not matter when they are added in, so that the sum of many numbers is `fold` of
their sum. A checksum makes the sum of all words of a header `65535`, and `update` is the
checksum after a change of some of the words that does not look at the others.
-/
namespace Sdpa.Lib.OnesComplement

/-- What is left when all carries are added in. -/
def fold (n : Nat) : Nat := if n = 0 then 0 else (n - 1) % 65535 + 1

theorem fold_le (n : Nat) : fold n ≤ 65535 := by
  rw [fold]
  split <;> omega

theorem fold_of_le {n : Nat} (h : n ≤ 65535) : fold n = n := by
  rw [fold]
  split <;> omega

/-- Carries are taken off the number. -/
theorem fold_spec (n : Nat) : ∃ q, n = fold n + 65535 * q ∧ (fold n = 0 ↔ n = 0) := by
  refine ⟨(n - 1) / 65535, ?_⟩
  rw [fold]
  split <;> omega

theorem fold_eq_iff {m n : Nat} : fold m = fold n ↔ m % 65535 = n % 65535 ∧ (m = 0 ↔ n = 0) := by
  obtain ⟨p, hm, hm'⟩ := fold_spec m
  obtain ⟨q, hn, hn'⟩ := fold_spec n
  have := fold_le m
  have := fold_le n
  omega

theorem fold_fold_add (a b : Nat) : fold (fold a + b) = fold (a + b) := by
  obtain ⟨q, ha, ha'⟩ := fold_spec a
  rw [fold_eq_iff]
  omega

theorem fold_add_fold (a b : Nat) : fold (a + fold b) = fold (a + b) := by
  rw [Nat.add_comm, fold_fold_add, Nat.add_comm]

/-- The carries added in once. -/
def carry (n : Nat) : Nat := n % 65536 + n / 65536

theorem fold_carry (n : Nat) : fold (carry n) = fold n := by
  rw [fold_eq_iff, carry]
  omega

theorem carry_eq_fold {n : Nat} (h : n ≤ 131070) : carry n = fold n := by
  rw [← fold_carry n, fold_of_le]
  rw [carry]
  omega

/-- The carries added in by a circuit, where the numbers have room. -/
theorem carry_mod {n w e : Nat} (hn : n < 65536 * e) (hw : 65536 + e ≤ w) :
    (n % 65536 % w + n / 65536 % e % w) % w = carry n := by
  have hlow : n % 65536 < 65536 := Nat.mod_lt _ (by omega)
  have hhigh : n / 65536 < e := Nat.div_lt_of_lt_mul hn
  rw [carry, Nat.mod_eq_of_lt hhigh, Nat.mod_eq_of_lt (by omega : n % 65536 < w),
    Nat.mod_eq_of_lt (by omega : n / 65536 < w), Nat.mod_eq_of_lt (by omega)]

/-- Two folded numbers. -/
theorem carry_add_eq_fold (a b : Nat) : carry (fold a + fold b) = fold (a + b) := by
  have := fold_le a
  have := fold_le b
  rw [carry_eq_fold (by omega), fold_fold_add, fold_add_fold]

theorem fold_eq_max_iff {n : Nat} : fold n = 65535 ↔ 0 < n ∧ n % 65535 = 0 := by
  obtain ⟨q, hn, hn'⟩ := fold_spec n
  have := fold_le n
  omega

/-! ## Checksums -/

/-- The checksum when the other words have grown by `delta`, where a word `m` that has become `m'`
counts as `m' + (65535 - m)`. -/
def update (c delta : Nat) : Nat := 65535 - fold (65535 - c + delta)

theorem update_le (c delta : Nat) : update c delta ≤ 65535 := Nat.sub_le _ _

/-- A sum is right after the update if and only if it was before: `old` and `new` are the sums of
the other words, `j` of which were changed. -/
theorem fold_add_update {c delta old new j : Nat} (hc : c ≤ 65535) (hold : 0 < old)
    (hpos : 0 < new) (hnew : new + 65535 * j = old + delta) :
    fold (new + update c delta) = 65535 ↔ fold (old + c) = 65535 := by
  obtain ⟨q, hq, -⟩ := fold_spec (65535 - c + delta)
  have hle := fold_le (65535 - c + delta)
  rw [fold_eq_max_iff, fold_eq_max_iff, update]
  omega

/-- The update of a zero is zero only if the changes cancel. -/
theorem update_of_zero {delta : Nat} : update 0 delta = 0 ↔ delta % 65535 = 0 := by
  have hle := fold_le (65535 - 0 + delta)
  have hmax := fold_eq_max_iff (n := 65535 - 0 + delta)
  rw [update]
  omega

/-- Words `x` with a checksum in word `k`. The words in `W` are changed, the others that are covered
stay, and the checksum is updated by the changes. -/
structure Updates (S W : Finset Nat) (k : Nat) (x y : Nat → Nat) : Prop where
  checksum : k ∈ S
  changed : W ⊆ S.erase k
  le : ∀ i, x i ≤ 65535
  same : ∀ i ∈ S, i ∉ W → i ≠ k → y i = x i
  update : y k = update (x k) (∑ i ∈ W, (y i + (65535 - x i)))

theorem Updates.sum_erase {S W : Finset Nat} {k : Nat} {x y : Nat → Nat} (h : Updates S W k x y) :
    ∑ i ∈ S.erase k, y i + 65535 * W.card =
      ∑ i ∈ S.erase k, x i + ∑ i ∈ W, (y i + (65535 - x i)) := by
  have hrest : ∑ i ∈ S.erase k \ W, y i = ∑ i ∈ S.erase k \ W, x i := by
    refine Finset.sum_congr rfl fun i hi => ?_
    rw [Finset.mem_sdiff, Finset.mem_erase] at hi
    exact h.same i hi.1.2 hi.2 hi.1.1
  have hchanged : ∑ i ∈ W, (y i + (65535 - x i)) + ∑ i ∈ W, x i =
      ∑ i ∈ W, y i + 65535 * W.card := by
    rw [← Finset.sum_add_distrib, Finset.sum_congr rfl fun i _ =>
      show y i + (65535 - x i) + x i = y i + 65535 by have := h.le i; omega,
      Finset.sum_add_distrib, Finset.sum_const_nat fun _ _ => rfl, Nat.mul_comm]
  rw [← Finset.sum_sdiff h.changed, ← Finset.sum_sdiff h.changed, hrest]
  omega

/-- The checksum is right after the changes if and only if it was before. -/
theorem Updates.valid_iff {S W : Finset Nat} {k : Nat} {x y : Nat → Nat} (h : Updates S W k x y)
    {c : Nat} (hx : 0 < c + ∑ i ∈ S.erase k, x i) (hy : 0 < c + ∑ i ∈ S.erase k, y i) :
    fold (c + ∑ i ∈ S, y i) = 65535 ↔ fold (c + ∑ i ∈ S, x i) = 65535 := by
  have hsum := h.sum_erase
  rw [← Finset.sum_erase_add S y h.checksum, ← Finset.sum_erase_add S x h.checksum, h.update,
    ← Nat.add_assoc, ← Nat.add_assoc]
  exact fold_add_update (h.le k) hx hy (j := W.card) (by omega)

end Sdpa.Lib.OnesComplement
