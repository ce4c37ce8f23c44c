import Mathlib.Data.List.Induction

/-!
# Properties of each element of a sequence and its past
-/
namespace Sdpa.Lib.Histories

variable {α : Type} {P : List α → α → Prop}

/-- The property holds of each element and what comes before it. -/
def AtEach (P : List α → α → Prop) (l : List α) : Prop :=
  ∀ past x future, l = past ++ x :: future → P past x

theorem atEach_nil : AtEach P [] := by
  intro past x future h
  exact absurd h.symm (by simp)

theorem atEach_snoc {l : List α} {x : α} : AtEach P (l ++ [x]) ↔ AtEach P l ∧ P l x := by
  constructor
  · intro h
    refine ⟨?_, h l x [] rfl⟩
    rintro past y future rfl
    exact h past y (future ++ [x]) (by simp)
  · rintro ⟨hl, hx⟩ past y future heq
    rcases List.eq_nil_or_concat future with rfl | ⟨future, z, rfl⟩
    · obtain ⟨rfl, hlast⟩ := List.append_inj' heq rfl
      obtain rfl := List.cons.inj hlast |>.1
      exact hx
    · have hinit : l = past ++ y :: future := by
        have hcat : l ++ [x] = (past ++ y :: future) ++ [z] := by simpa using heq
        exact (List.append_inj' hcat rfl).1
      exact hl past y future hinit

/-- A property of every stage of a sequence, from what each step needs to keep it. -/
theorem stages_iff_atEach {Q : List α → Prop} {l : List α} (hnil : Q [])
    (hstep : ∀ past x future, l = past ++ x :: future → Q past → (Q (past ++ [x]) ↔ P past x)) :
    (∀ past future, l = past ++ future → Q past) ↔ AtEach P l := by
  constructor
  · intro hall past x future hsplit
    have hnext := hall (past ++ [x]) future (by rw [hsplit, List.append_assoc]; rfl)
    exact (hstep past x future hsplit (hall past (x :: future) hsplit)).mp hnext
  · intro heach past
    induction past using List.reverseRecOn with
    | nil => exact fun _ _ => hnil
    | append_singleton past x ih =>
      intro future hsplit
      rw [List.append_assoc, List.singleton_append] at hsplit
      exact (hstep past x future hsplit (ih (x :: future) hsplit)).mpr (heach past x future hsplit)

/-- Steps that never do anything may be left out of a run. -/
theorem foldlM_filter {E S : Type} {step : S → α → Except E S} {keep : α → Bool} {l : List α}
    (h : ∀ x ∈ l, keep x = false → ∀ s, step s x = .ok s) (s : S) :
    l.foldlM step s = (l.filter keep).foldlM step s := by
  induction l generalizing s with
  | nil => rfl
  | cons x l ih =>
    have ih := ih fun y hy => h y (List.mem_cons_of_mem x hy)
    cases hx : keep x with
    | false =>
      rw [List.filter_cons_of_neg (by rw [hx]; decide), ← ih, List.foldlM_cons,
        h x List.mem_cons_self hx]
      rfl
    | true =>
      rw [List.filter_cons_of_pos hx, List.foldlM_cons, List.foldlM_cons]
      exact congrArg (step s x >>= ·) (funext ih)

end Sdpa.Lib.Histories
