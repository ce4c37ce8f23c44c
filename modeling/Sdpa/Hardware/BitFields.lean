import Sdpa.Hardware.Packets

/-!
# Fields of a word

A field of a word is read with `extractLsb'` and written with `putBits`. A write is
read back and leaves the fields beside it alone.
-/
namespace Sdpa.Hardware

variable {n w l pos q : Nat}

theorem getLsbD_putBits (x : BitVec w) (v : BitVec n) {i : Nat} (hi : i < n) :
    (putBits pos x v).getLsbD i =
      if pos ≤ i ∧ i < pos + w then x.getLsbD (i - pos) else v.getLsbD i := by
  have hn : i - pos < n := by omega
  simp only [putBits, BitVec.getLsbD_or, BitVec.getLsbD_and, BitVec.getLsbD_not,
    BitVec.getLsbD_shiftLeft, BitVec.getLsbD_setWidth, BitVec.getLsbD_allOnes, hi, hn,
    decide_true, Bool.true_and]
  by_cases hpos : i < pos
  · simp [hpos, show ¬ pos ≤ i by omega]
  · by_cases hw : i < pos + w
    · simp [hpos, hw, show pos ≤ i by omega, show i - pos < w by omega]
    · simp [hpos, hw, show ¬ i - pos < w by omega, BitVec.getLsbD_of_ge x (i - pos) (by omega)]

@[simp] theorem extract_putBits_self (x : BitVec w) (v : BitVec n) (h : pos + w ≤ n) :
    (putBits pos x v).extractLsb' pos w = x := by
  refine BitVec.eq_of_getLsbD_eq fun i hi => ?_
  rw [BitVec.getLsbD_extractLsb', decide_eq_true hi, Bool.true_and,
    getLsbD_putBits x v (by omega), if_pos (by omega), Nat.add_sub_cancel_left]

/-- A field beside the one written. -/
theorem extract_putBits_of_beside (x : BitVec w) (v : BitVec n) (hl : q + l ≤ n)
    (h : q + l ≤ pos ∨ pos + w ≤ q) :
    (putBits pos x v).extractLsb' q l = v.extractLsb' q l := by
  refine BitVec.eq_of_getLsbD_eq fun i hi => ?_
  rw [BitVec.getLsbD_extractLsb', BitVec.getLsbD_extractLsb', getLsbD_putBits x v (by omega),
    if_neg (by omega)]

/-- A field inside the one written. -/
theorem extract_putBits_of_inside (x : BitVec w) (v : BitVec n) (hn : pos + w ≤ n)
    (h : pos ≤ q ∧ q + l ≤ pos + w) :
    (putBits pos x v).extractLsb' q l = x.extractLsb' (q - pos) l := by
  refine BitVec.eq_of_getLsbD_eq fun i hi => ?_
  rw [BitVec.getLsbD_extractLsb', BitVec.getLsbD_extractLsb', getLsbD_putBits x v (by omega),
    if_pos (by omega), Nat.sub_add_comm h.1]

/-- A field around the one written. -/
theorem extract_putBits_of_around (x : BitVec w) (v : BitVec n) (hn : q + l ≤ n)
    (h : q ≤ pos ∧ pos + w ≤ q + l) :
    (putBits pos x v).extractLsb' q l = putBits (pos - q) x (v.extractLsb' q l) := by
  refine BitVec.eq_of_getLsbD_eq fun i hi => ?_
  rw [getLsbD_putBits x _ hi, BitVec.getLsbD_extractLsb', BitVec.getLsbD_extractLsb',
    getLsbD_putBits x v (by omega), decide_eq_true hi, Bool.true_and, Bool.true_and]
  by_cases hi' : pos ≤ q + i ∧ q + i < pos + w
  · rw [if_pos hi', if_pos (by omega), show q + i - pos = i - (pos - q) by omega]
  · rw [if_neg hi', if_neg (by omega)]

end Sdpa.Hardware
