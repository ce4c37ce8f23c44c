import Sdpa.Hardware.Fifo
import Sdpa.Lib.Streams

/-!
# Links between the stages of the data path

A stage has a FIFO at its input and is ready while that FIFO is not nearly full. The
stage before it looks at `out_rdy` when it decides on its next output, so that its word
comes a cycle later. One slot is kept for that word, and no word is lost. The stage then
reads the words in the order in which they were written.
-/
namespace Sdpa.Hardware

open Lib.Clocked Lib.Streams

namespace SmallFifo

variable {α : Type} {bits : Nat}

/-- A ring without the fall-through that is fed by a sender that heeds `!nearly_full` and read when
it is not empty. -/
structure Link (f : Nat → SmallFifo α bits) (w : Nat → α) (wr rd : Nat → Bool) : Prop where
  step : ∀ u, f (u + 1) = (f u).step false (w u) (wr u) (rd u)
  depth : (f 0).depth = 0
  ptr : (f 0).wrPtr = (f 0).rdPtr
  heeds : Heeds (fun u => !(f u).nearlyFull) wr
  demand : ∀ u, rd u = true → (f u).isEmpty = false

namespace Link

variable {f : Nat → SmallFifo α bits} {w : Nat → α} {wr rd : Nat → Bool}

theorem room (h : Link f w wr rd) (t : Nat) : wr t = true → count wr t < count rd t + 2 ^ bits := by
  induction t using Nat.strong_induction_on with
  | h t ih =>
    intro ht
    cases t with
    | zero =>
      rw [h.heeds.start] at ht
      cases ht
    | succ t =>
      obtain ⟨hle, hholds⟩ := holds_pulses h.step h.depth h.ptr h.demand (t := t)
        fun u hu => ih u (by omega)
      have hnear := h.heeds.next t ht
      have hmono : count rd t ≤ count rd (t + 1) := count_mono rd (Nat.le_succ t)
      have hstep : count wr (t + 1) ≤ count wr t + (t + 1 - t) :=
        count_le_add_sub wr (Nat.le_succ t)
      rw [nearlyFull, hholds.depth, List.length_map, List.length_drop, length_pulses,
        Bool.not_eq_true', decide_eq_false_iff_not] at hnear
      omega

theorem holds (h : Link f w wr rd) (t : Nat) :
    count rd t ≤ count wr t ∧ (f t).Holds (((pulses wr t).drop (count rd t)).map w) :=
  holds_pulses h.step h.depth h.ptr h.demand fun u _ => h.room u

theorem isEmpty (h : Link f w wr rd) (t : Nat) :
    (f t).isEmpty = decide (count wr t ≤ count rd t) := by
  obtain ⟨hle, hholds⟩ := h.holds t
  rw [hholds.isEmpty, Bool.eq_iff_iff, decide_eq_true_eq, List.isEmpty_iff_length_eq_zero,
    List.length_map, List.length_drop, length_pulses]
  omega

theorem lt_of_nearlyFull (h : Link f w wr rd) {t : Nat} (hbits : 0 < bits)
    (ht : (f t).nearlyFull = true) : count rd t < count wr t := by
  obtain ⟨-, hholds⟩ := h.holds t
  have hpow : 2 ≤ 2 ^ bits := Nat.le_self_pow (by omega) 2
  rw [nearlyFull, hholds.depth, List.length_map, List.length_drop, length_pulses,
    decide_eq_true_eq] at ht
  omega

/-- The word read is the next one in line. -/
theorem dout (h : Link f w wr rd) {t : Nat} (ht : rd t = true) :
    (sent wr w t)[count rd t]? = some (f (t + 1)).dout := by
  obtain ⟨F, hF, hnth, hdout⟩ := dout_of_read h.step h.depth h.ptr h.demand h.room ht
  rw [hdout, sent_of_isNth w hnth hF]

theorem dout_of_not (h : Link f w wr rd) {t : Nat} (ht : rd t = false) :
    (f (t + 1)).dout = (f t).dout := by
  rw [h.step t, SmallFifo.step, ht]
  rfl

end Link

end SmallFifo

end Sdpa.Hardware
