import Mathlib.Order.Monotone.Basic
import Sdpa.Lib.Clocked

/-!
# Streams of frames

The words of a stream are numbered from zero, and so are its frames. `start len k`
words come before frame `k`, and `IsAt len n k j` says that word `n` is word `j`
of frame `k`. A sender that says so whenever it sends a certain word of a frame
has pulsed as often as it has sent such words.
-/
namespace Sdpa.Lib.Frames

open Clocked

variable {len : Nat → Nat}

/-- The number of words before frame `k`. -/
def start (len : Nat → Nat) : Nat → Nat
  | 0 => 0
  | k + 1 => start len k + len k

@[simp] theorem start_zero (len : Nat → Nat) : start len 0 = 0 := rfl

theorem start_succ (len : Nat → Nat) (k : Nat) : start len (k + 1) = start len k + len k := rfl

theorem start_mono (len : Nat → Nat) {j k : Nat} (h : j ≤ k) : start len j ≤ start len k :=
  monotone_nat_of_le_succ (fun k => Nat.le_add_right (start len k) (len k)) h

theorem start_const (l k : Nat) : start (fun _ => l) k = l * k := by
  induction k with
  | zero => rfl
  | succ k ih => rw [start_succ, ih, Nat.mul_succ]

theorem start_add_le {l : Nat} (h : ∀ k, l ≤ len k) (k n : Nat) :
    start len k + l * n ≤ start len (k + n) := by
  induction n with
  | zero => exact Nat.le_refl _
  | succ n ih =>
    have := h (k + n)
    rw [Nat.mul_succ, ← Nat.add_assoc k n 1, start_succ]
    omega

/-- Word `n` of the stream is word `j` of frame `k`. -/
structure IsAt (len : Nat → Nat) (n k j : Nat) : Prop where
  eq : n = start len k + j
  lt : j < len k

theorem isAt_zero (h : 0 < len 0) : IsAt len 0 0 0 := ⟨rfl, h⟩

theorem IsAt.succ {n k j : Nat} (h : IsAt len n k j) (hlt : j + 1 < len k) :
    IsAt len (n + 1) k (j + 1) := ⟨by rw [h.eq]; rfl, hlt⟩

/-- The word after the last one of a frame is the first one of the next. -/
theorem IsAt.next {n k j : Nat} (h : IsAt len n k j) (hlast : j + 1 = len k)
    (hpos : 0 < len (k + 1)) : IsAt len (n + 1) (k + 1) 0 := by
  refine ⟨?_, hpos⟩
  rw [h.eq, start_succ, ← hlast]
  rfl

theorem IsAt.frame_le {n n' k k' j j' : Nat} (h : IsAt len n k j) (h' : IsAt len n' k' j')
    (hle : n ≤ n') : k ≤ k' := by
  by_contra hlt
  have hstart := start_mono len (show k' + 1 ≤ k by omega)
  have heq := h.eq
  have heq' := h'.eq
  have hlt' := h'.lt
  rw [start_succ] at hstart
  omega

theorem IsAt.unique {n k k' j j' : Nat} (h : IsAt len n k j) (h' : IsAt len n k' j') :
    k = k' ∧ j = j' := by
  have hk : k = k' := Nat.le_antisymm (h.frame_le h' (Nat.le_refl n)) (h'.frame_le h (Nat.le_refl n))
  subst hk
  have heq := h.eq
  have heq' := h'.eq
  exact ⟨rfl, by omega⟩

/-- A word of each frame, by its number in the stream. -/
theorem strictMono_mark {m : Nat → Nat} (h : ∀ k, m k < len k) :
    StrictMono fun k => start len k + m k := by
  refine strictMono_nat_of_lt_succ fun k => ?_
  have := h k
  rw [start_succ]
  omega

/-- A pulse for each marked word that is sent: the pulses are as many as the marked words sent. -/
theorem lt_count_iff {wr q : Nat → Bool} {mark : Nat → Nat} (hmark : StrictMono mark)
    (hq : ∀ t, q t = true ↔ wr t = true ∧ ∃ k, count wr t = mark k) (t k : Nat) :
    k < count q t ↔ mark k < count wr t := by
  induction t generalizing k with
  | zero => simp
  | succ t ih =>
    rw [count_succ, count_succ]
    cases hwr : wr t with
    | false =>
      have hlow : q t = false := by
        rw [Bool.eq_false_iff]
        intro hpulse
        rw [((hq t).mp hpulse).1] at hwr
        cases hwr
      rw [hlow]
      exact ih k
    | true =>
      by_cases hpulse : q t = true
      · obtain ⟨-, k₀, hk₀⟩ := (hq t).mp hpulse
        -- The marks before this one were counted.
        have hbefore : count q t = k₀ := by
          refine Nat.le_antisymm (Nat.le_of_not_lt fun hlt => ?_) (Nat.le_of_not_lt fun hlt => ?_)
          · have := (ih k₀).mp hlt
            omega
          · have hnot : ¬ mark (count q t) < count wr t := fun h =>
              absurd ((ih _).mpr h) (Nat.lt_irrefl _)
            exact hnot (hk₀ ▸ hmark hlt)
        rw [hpulse, if_pos rfl, hbefore, hk₀, Nat.lt_succ_iff, Nat.lt_succ_iff]
        exact hmark.le_iff_le.symm
      · have hnone : mark k ≠ count wr t := fun heq => hpulse ((hq t).mpr ⟨hwr, k, heq.symm⟩)
        rw [Bool.eq_false_iff.mpr hpulse, if_pos rfl]
        have := ih k
        simp only [Bool.false_eq_true, if_false, Nat.add_zero]
        omega

/-- Marked words that are far apart are sent far apart. -/
theorem spaced_of_marks (wr : Nat → Bool) {q : Nat → Bool} {mark : Nat → Nat} {d : Nat}
    (hmono : StrictMono mark) (hmark : ∀ k, mark k + d ≤ mark (k + 1))
    (hq : ∀ t, q t = true → wr t = true ∧ ∃ k, count wr t = mark k) : Spaced d q := by
  intro t u ht hu htu
  obtain ⟨hwr, k, hk⟩ := hq t ht
  obtain ⟨-, l, hl⟩ := hq u hu
  have hlt : count wr t < count wr u := Nat.count_strict_mono hwr htu
  have hkl : k < l := hmono.lt_iff_lt.mp (by omega)
  have hnext := hmono.monotone (show k + 1 ≤ l from hkl)
  have := hmark k
  have := count_le_add_sub wr (Nat.le_of_lt htu)
  omega

/-! ## The words of the frames -/

variable {α : Type}

/-- The words of the first `n` frames. -/
def flat (f : Nat → List α) (n : Nat) : List α := (List.range n).flatMap f

@[simp] theorem flat_zero (f : Nat → List α) : flat f 0 = [] := rfl

theorem flat_succ (f : Nat → List α) (n : Nat) : flat f (n + 1) = flat f n ++ f n := by
  rw [flat, List.range_succ, List.flatMap_append, List.flatMap_singleton, flat]

theorem length_flat (f : Nat → List α) (n : Nat) :
    (flat f n).length = start (fun k => (f k).length) n := by
  induction n with
  | zero => rfl
  | succ n ih => rw [flat_succ, List.length_append, ih, start_succ]

theorem flat_mono (f : Nat → List α) {m n : Nat} (h : m ≤ n) : flat f m <+: flat f n := by
  induction n, h using Nat.le_induction with
  | base => exact List.prefix_refl _
  | succ n _ ih =>
    rw [flat_succ]
    exact ih.trans (List.prefix_append _ _)

theorem flat_getElem? {f : Nat → List α} {m n k j : Nat}
    (h : IsAt (fun k => (f k).length) n k j) (hk : k < m) : (flat f m)[n]? = (f k)[j]? := by
  obtain ⟨ys, hys⟩ := flat_mono f hk
  have hlen := length_flat f k
  have hlt := h.lt
  have heq := h.eq
  rw [← hys, flat_succ, List.append_assoc, List.getElem?_append_right (by omega), hlen, heq,
    Nat.add_sub_cancel_left, List.getElem?_append_left hlt]

/-! ## Frames of several streams, one after the other -/

variable {ι : Type} [DecidableEq ι]

/-- The frames of the streams `f` when the streams have their turns in the order given: each turn of
a stream is its next frame. -/
def merge (f : ι → Nat → List α) : List ι → List α
  | [] => []
  | q :: qs => f q 0 ++ merge (fun r n => if r = q then f r (n + 1) else f r n) qs

@[simp] theorem merge_nil (f : ι → Nat → List α) : merge f [] = [] := rfl

theorem merge_concat (f : ι → Nat → List α) (qs : List ι) (q : ι) :
    merge f (qs ++ [q]) = merge f qs ++ f q (qs.count q) := by
  induction qs generalizing f with
  | nil => simp [merge]
  | cons r qs ih =>
    rw [List.cons_append, merge, ih, merge, List.append_assoc, List.count_cons]
    by_cases hq : q = r
    · simp [hq]
    · simp [hq, Ne.symm hq]

end Sdpa.Lib.Frames
