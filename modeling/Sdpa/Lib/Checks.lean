import Mathlib.Data.List.Basic

/-!
# Checks made in turn

A matcher that goes through a list of checks, stops at the first one that is not
passed, and notes something for each one that is. A check can also go wrong, and
then there is no result.
-/
namespace Sdpa.Lib.Checks

variable {φ σ : Type}

structure Check (φ : Type) where
  /-- `none` when the check goes wrong. -/
  verdict : Option Bool
  /-- What is noted once the check is passed. -/
  notes : List φ

/-- The checks, with what is noted added to `n`. -/
def run (add : σ → φ → σ) : List (Check φ) → σ → Option (Bool × σ)
  | [], n => some (true, n)
  | c :: cs, n =>
    match c.verdict with
    | none => none
    | some false => some (false, n)
    | some true => run add cs (c.notes.foldl add n)

/-- A check that rejects if `b` holds. -/
theorem run_reject (add : σ → φ → σ) (b : Bool) (l : List φ) (cs : List (Check φ)) (n : σ) :
    run add (⟨some !b, l⟩ :: cs) n = if b then some (false, n) else run add cs (l.foldl add n) := by
  cases b <;> rfl

/-- What the checks say. -/
def verdict : List (Check φ) → Option Bool
  | [] => some true
  | c :: cs => if c.verdict = some true then verdict cs else c.verdict

/-- What is noted by the checks before the first that is not passed. -/
def notes : List (Check φ) → List φ
  | [] => []
  | c :: cs => if c.verdict = some true then c.notes ++ notes cs else []

theorem run_eq (add : σ → φ → σ) (cs : List (Check φ)) (n : σ) :
    run add cs n = (verdict cs).map fun b => (b, (notes cs).foldl add n) := by
  induction cs generalizing n with
  | nil => rfl
  | cons c cs ih =>
    rcases hc : c.verdict with _ | _ | _
    · simp [run, verdict, hc]
    · simp [run, verdict, notes, hc]
    · simp [run, verdict, notes, hc, ih]

theorem verdict_eq_true {cs : List (Check φ)} :
    verdict cs = some true ↔ ∀ c ∈ cs, c.verdict = some true := by
  induction cs with
  | nil => simp [verdict]
  | cons c cs ih =>
    rw [verdict, List.forall_mem_cons]
    split
    · simp [*]
    · simp [*]

/-- Where all checks are passed, all is noted. -/
theorem mem_notes {cs : List (Check φ)} (h : verdict cs = some true) {c : Check φ} (hc : c ∈ cs)
    {x : φ} (hx : x ∈ c.notes) : x ∈ notes cs := by
  rw [verdict_eq_true] at h
  induction cs with
  | nil => cases hc
  | cons d cs ih =>
    obtain ⟨hd, hrest⟩ := List.forall_mem_cons.mp h
    rw [notes, if_pos hd, List.mem_append]
    rcases List.mem_cons.mp hc with rfl | hc
    · exact .inl hx
    · exact .inr (ih hrest hc)

/-- A check that rejects is enough if those before it do not go wrong. -/
theorem verdict_eq_false (before : List (Check φ)) {after : List (Check φ)} {c : Check φ}
    (hbefore : ∀ c ∈ before, c.verdict ≠ none) (hc : c.verdict = some false) :
    verdict (before ++ c :: after) = some false := by
  induction before with
  | nil => simp [verdict, hc]
  | cons b before ih =>
    rw [List.forall_mem_cons] at hbefore
    rw [List.cons_append, verdict]
    split
    · exact ih hbefore.2
    · rcases hb : b.verdict with _ | _ | _
      · exact absurd hb hbefore.1
      · rfl
      · exact absurd hb ‹_›

/-- No check goes wrong as long as each one has a verdict once those before it are passed. -/
theorem verdict_isSome {cs : List (Check φ)} (h : ∀ c ∈ cs, c.verdict ≠ none) :
    verdict cs ≠ none := by
  induction cs with
  | nil => simp [verdict]
  | cons c cs ih =>
    rw [List.forall_mem_cons] at h
    rw [verdict]
    split
    · exact ih h.2
    · exact h.1

end Sdpa.Lib.Checks
