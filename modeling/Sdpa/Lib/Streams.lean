import Mathlib.Data.Nat.Find
import Mathlib.Order.Monotone.Basic
import Sdpa.Lib.Clocked

/-!
# Streams of words between clocked stages

A stage passes a word on in every cycle in which its write signal is high:
`sent p w t` are the words passed before cycle `t`. When they come depends on the
stages around it, which words come should not. A stage that can lose the last word
it was given keeps a `log`.
-/
namespace Sdpa.Lib.Streams

open Clocked

variable {α : Type}

/-- The words `w` of the cycles before `t` in which `p` is high. -/
def sent (p : Nat → Bool) (w : Nat → α) (t : Nat) : List α := (pulses p t).map w

@[simp] theorem sent_zero (p : Nat → Bool) (w : Nat → α) : sent p w 0 = [] := rfl

theorem sent_succ (p : Nat → Bool) (w : Nat → α) (t : Nat) :
    sent p w (t + 1) = sent p w t ++ if p t then [w t] else [] := by
  rw [sent, pulses_succ, List.map_append, sent]
  cases p t <;> rfl

@[simp] theorem length_sent (p : Nat → Bool) (w : Nat → α) (t : Nat) :
    (sent p w t).length = count p t := by rw [sent, List.length_map, length_pulses]

theorem sent_of_isNth {p : Nat → Bool} (w : Nat → α) {k F t : Nat} (h : IsNth p k F)
    (hF : F < t) : (sent p w t)[k]? = some (w F) := by
  rw [sent, List.getElem?_map, pulses_of_isNth h hF]
  rfl

theorem take_succ_of_getElem? {l : List α} {n : Nat} {x : α} (h : l[n]? = some x) :
    l.take (n + 1) = l.take n ++ [x] := by
  rw [List.take_add_one, h]
  rfl

/-- What is passed later comes behind. -/
theorem sent_mono (p : Nat → Bool) (w : Nat → α) {t u : Nat} (h : t ≤ u) :
    sent p w t <+: sent p w u := by
  induction u, h using Nat.le_induction with
  | base => exact List.prefix_refl _
  | succ u _ ih =>
    rw [sent_succ]
    exact ih.trans (List.prefix_append _ _)

/-- The sender writes in a cycle only if the receiver was ready in the cycle before. -/
structure Heeds (rdy wr : Nat → Bool) : Prop where
  start : wr 0 = false
  next : ∀ t, wr (t + 1) = true → rdy t = true

/-- The signal is high again and again. -/
def Recurs (p : Nat → Bool) : Prop := ∀ t, ∃ u, t ≤ u ∧ p u = true

/-- A number that never falls, and grows with every pulse from cycle `T` on while it is below `n`,
comes to `n`, and there is a first cycle in which it has. -/
theorem Recurs.reaches {p : Nat → Bool} {f : Nat → Nat} {T n : Nat} (h : Recurs p)
    (hmono : Monotone f)
    (hgrows : ∀ t, T ≤ t → f t < n → p t = true → f t < f (t + 1)) :
    ∃ t, T ≤ t ∧ n ≤ f t ∧ ∀ u, T ≤ u → u < t → f u < n := by
  have hall : ∀ m, m ≤ n → ∃ t, T ≤ t ∧ m ≤ f t := by
    intro m
    induction m with
    | zero => exact fun _ => ⟨T, Nat.le_refl T, Nat.zero_le _⟩
    | succ m ih =>
      intro hm
      obtain ⟨t, hT, hle⟩ := ih (by omega)
      obtain ⟨u, htu, hu⟩ := h t
      have hmono' := hmono htu
      by_cases hlt : f u < n
      · have := hgrows u (by omega) hlt hu
        exact ⟨u + 1, by omega, by omega⟩
      · exact ⟨u, by omega, by omega⟩
  have hex := hall n (Nat.le_refl n)
  refine ⟨Nat.find hex, (Nat.find_spec hex).1, (Nat.find_spec hex).2, fun u hT hu => ?_⟩
  have := Nat.find_min hex hu
  omega

theorem Recurs.first {p : Nat → Bool} (h : Recurs p) (t : Nat) :
    ∃ u, t ≤ u ∧ p u = true ∧ ∀ v, t ≤ v → v < u → p v = false := by
  have hex := h t
  refine ⟨Nat.find hex, (Nat.find_spec hex).1, (Nat.find_spec hex).2, fun v htv hv => ?_⟩
  have hnot := Nat.find_min hex hv
  rw [Bool.eq_false_iff]
  exact fun hp => hnot ⟨htv, hp⟩

theorem Recurs.count_ge {p : Nat → Bool} (h : Recurs p) (n : Nat) : ∃ t, n ≤ count p t := by
  obtain ⟨t, -, hle, -⟩ := h.reaches (T := 0) (n := n) (f := count p) (fun _ _ => count_mono p)
    fun t _ _ ht => by rw [count_succ, ht]; exact Nat.lt_succ_self _
  exact ⟨t, hle⟩

/-! ## Logs -/

/-- Words that are written one after the other, where the last one may be taken back. -/
def log (p : Nat → Bool) (w : Nat → α) (undo : Nat → Bool) : Nat → List α
  | 0 => []
  | t + 1 =>
    if p t then log p w undo t ++ [w t]
    else if undo t then (log p w undo t).dropLast
    else log p w undo t

section Log

variable {p undo : Nat → Bool} (w : Nat → α)

/-- The words that are not taken back in the next cycle. -/
def kept (p undo : Nat → Bool) (t : Nat) : Bool := p t && !undo (t + 1)

/-- If only a word of the cycle before is taken back, those kept are the log. -/
theorem sent_kept (hp : ∀ t, undo t = true → p t = false)
    (hundo : ∀ t, undo (t + 1) = true → p t = true) (t : Nat) :
    sent (kept p undo) w t = if undo t then (log p w undo t).dropLast else log p w undo t := by
  induction t with
  | zero => exact (ite_self _).symm
  | succ t ih =>
    rw [sent_succ, ih, log, kept]
    cases hpt : p t with
    | true =>
      have hnot : undo t = false := Bool.eq_false_iff.mpr fun h => by
        rw [hp t h] at hpt
        cases hpt
      rw [hnot, if_neg Bool.false_ne_true, if_pos rfl]
      cases undo (t + 1) with
      | true => exact (List.append_nil _).trans List.dropLast_concat.symm
      | false => rfl
    | false =>
      have hnot : undo (t + 1) = false := Bool.eq_false_iff.mpr fun h => by
        rw [hundo t h] at hpt
        cases hpt
      rw [hnot]
      exact List.append_nil _

theorem log_eq_sent (h : ∀ t, undo t = false) (t : Nat) : log p w undo t = sent p w t := by
  induction t with
  | zero => rfl
  | succ t ih =>
    rw [log, sent_succ, ih, h t]
    cases p t with
    | true => rfl
    | false => exact (List.append_nil _).symm

end Log

end Sdpa.Lib.Streams
