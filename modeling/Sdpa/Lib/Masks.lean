import Mathlib.Tactic.Common

/-!
# Agreement of words under a mask

A mask selects the bits of a word that matter. Two words agree under a mask if
these bits are the same; words that agree under a mask and under its complement
are equal. A mask lies within another if it selects no further bits.
-/
namespace Sdpa.Lib.Masks

variable {n : Nat} {m k a b c d : BitVec n}

def AgreeOn (m a b : BitVec n) : Prop := a &&& m = b &&& m

instance (m a b : BitVec n) : Decidable (AgreeOn m a b) := inferInstanceAs (Decidable (_ = _))

def Within (m k : BitVec n) : Prop := m &&& k = m

instance (m k : BitVec n) : Decidable (Within m k) := inferInstanceAs (Decidable (_ = _))

theorem agreeOn_iff :
    AgreeOn m a b ↔ ∀ i, m.getLsbD i = true → a.getLsbD i = b.getLsbD i := by
  constructor
  · intro h i hm
    have hi := congrArg (fun x => x.getLsbD i) h
    simpa [hm] using hi
  · intro h
    apply BitVec.eq_of_getLsbD_eq
    intro i _
    rw [BitVec.getLsbD_and, BitVec.getLsbD_and]
    cases hm : m.getLsbD i with
    | false => simp
    | true => simp [h i hm]

theorem within_iff : Within m k ↔ ∀ i, m.getLsbD i = true → k.getLsbD i = true := by
  constructor
  · intro h i hm
    have hi := congrArg (fun x => x.getLsbD i) h
    simpa [hm] using hi
  · intro h
    apply BitVec.eq_of_getLsbD_eq
    intro i _
    rw [BitVec.getLsbD_and]
    cases hm : m.getLsbD i with
    | false => simp
    | true => simp [h i hm]

namespace AgreeOn

theorem refl (m a : BitVec n) : AgreeOn m a a := rfl

theorem of_eq (h : a = b) : AgreeOn m a b := by rw [h]; exact refl m b

theorem symm (h : AgreeOn m a b) : AgreeOn m b a := Eq.symm h

theorem trans (h : AgreeOn m a b) (h' : AgreeOn m b c) : AgreeOn m a c := Eq.trans h h'

/-- The full mask selects every bit. -/
theorem eq (h : AgreeOn m a b) (hm : m = BitVec.allOnes n) : a = b := by
  subst hm
  simpa [AgreeOn] using h

/-- Nothing is outside the full mask. -/
theorem outside (hm : m = BitVec.allOnes n) (a b : BitVec n) : AgreeOn (~~~m) a b := by
  subst hm
  simp [AgreeOn]

theorem eq_of_outside (h : AgreeOn m a b) (h' : AgreeOn (~~~m) a b) : a = b := by
  apply BitVec.eq_of_getLsbD_eq
  intro i hi
  cases hm : m.getLsbD i with
  | true => exact agreeOn_iff.mp h i hm
  | false => exact agreeOn_iff.mp h' i (by rw [BitVec.getLsbD_not, hm]; simp [hi])

theorem mono (h : AgreeOn k a b) (hk : Within m k) : AgreeOn m a b :=
  agreeOn_iff.mpr fun i hi => agreeOn_iff.mp h i (within_iff.mp hk i hi)

theorem or (h : AgreeOn m a b) (h' : AgreeOn m c d) : AgreeOn m (a ||| c) (b ||| d) :=
  agreeOn_iff.mpr fun i hi => by
    rw [BitVec.getLsbD_or, BitVec.getLsbD_or, agreeOn_iff.mp h i hi, agreeOn_iff.mp h' i hi]

theorem and (h : AgreeOn m a b) (c : BitVec n) : AgreeOn m (a &&& c) (b &&& c) :=
  agreeOn_iff.mpr fun i hi => by
    rw [BitVec.getLsbD_and, BitVec.getLsbD_and, agreeOn_iff.mp h i hi]

theorem zero (a b : BitVec n) : AgreeOn 0 a b := by
  unfold AgreeOn
  exact BitVec.and_zero.trans BitVec.and_zero.symm

/-- Words that have no bits outside of `k` need not be compared there. -/
theorem of_within (ha : Within a k) (hb : Within b k) (h : AgreeOn (m &&& k) a b) :
    AgreeOn m a b := by
  unfold AgreeOn Within at *
  rw [← ha, ← hb, BitVec.and_assoc, BitVec.and_assoc, BitVec.and_comm k m]
  exact h

/-- Clearing and setting bits within a mask changes nothing outside of it. -/
theorem overwrite (hk : Within k m) (hc : Within c m) :
    AgreeOn (~~~m) ((a &&& ~~~k) ||| c) a :=
  agreeOn_iff.mpr fun i hi => by
    rw [BitVec.getLsbD_not, Bool.and_eq_true_iff, decide_eq_true_eq, Bool.not_eq_true'] at hi
    have out {x : BitVec n} (hx : Within x m) : x.getLsbD i = false := by
      by_contra hne
      have hm := within_iff.mp hx i (by simpa using hne)
      rw [hi.2] at hm
      cases hm
    rw [BitVec.getLsbD_or, BitVec.getLsbD_and, BitVec.getLsbD_not, out hk, out hc]
    simp [hi.1]

end AgreeOn

namespace Within

theorem refl (m : BitVec n) : Within m m := by simp [Within]

theorem trans (h : Within a b) (h' : Within b c) : Within a c :=
  within_iff.mpr fun i hi => within_iff.mp h' i (within_iff.mp h i hi)

theorem left (a b : BitVec n) : Within a (a ||| b) :=
  within_iff.mpr fun i hi => by simp [hi]

theorem right (a b : BitVec n) : Within b (a ||| b) :=
  within_iff.mpr fun i hi => by simp [hi]

theorem or (h : Within a c) (h' : Within b c) : Within (a ||| b) c :=
  within_iff.mpr fun i hi => by
    rw [BitVec.getLsbD_or, Bool.or_eq_true_iff] at hi
    exact hi.elim (within_iff.mp h i) (within_iff.mp h' i)

theorem shiftLeft (h : Within a b) (i : Nat) : Within (a <<< i) (b <<< i) := by
  unfold Within at h ⊢
  rw [← BitVec.shiftLeft_and_distrib, h]

/-- A narrow word is within the bits it was widened from. -/
theorem setWidth {w : Nat} (a : BitVec w) :
    Within (a.setWidth n) ((BitVec.allOnes w).setWidth n) := by
  unfold Within
  rw [← BitVec.setWidth_and, BitVec.and_allOnes]

theorem allOnes (a : BitVec n) : Within a (BitVec.allOnes n) := by simp [Within]

theorem eq_allOnes (h : Within (BitVec.allOnes n) m) : m = BitVec.allOnes n := by
  simpa [Within] using h

end Within

end Sdpa.Lib.Masks
