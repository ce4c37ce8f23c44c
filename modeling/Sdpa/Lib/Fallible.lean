import Mathlib.Tactic.Common

/-!
# Computations that return

When a computation that may fail returns, and what, read off from its parts.
-/
namespace Sdpa.Lib.Fallible

variable {ε α β : Type}

def Returns (x : Except ε α) : Prop := ∃ a, x = .ok a

theorem map_eq_ok {x : Except ε α} {f : α → β} {b : β} :
    x.map f = .ok b ↔ ∃ a, x = .ok a ∧ f a = b := by
  cases x with
  | error e => simp [Except.map]
  | ok a => simp [Except.map]

theorem bind_eq_ok {x : Except ε α} {f : α → Except ε β} {b : β} :
    x >>= f = .ok b ↔ ∃ a, x = .ok a ∧ f a = .ok b := by
  cases x with
  | error e => simp [bind, Except.bind]
  | ok a => simp [bind, Except.bind]

theorem returns_map {x : Except ε α} {f : α → β} : Returns (x.map f) ↔ Returns x := by
  cases x with
  | error e => exact ⟨fun ⟨_, h⟩ => (by cases h), fun ⟨_, h⟩ => (by cases h)⟩
  | ok a => exact ⟨fun _ => ⟨a, rfl⟩, fun _ => ⟨f a, rfl⟩⟩

/-- A last part that always returns does not matter. -/
theorem returns_bind_of_forall {x : Except ε α} {f : α → Except ε β} (hf : ∀ a, Returns (f a)) :
    Returns (x >>= f) ↔ Returns x := by
  cases x with
  | error e => exact ⟨fun ⟨_, h⟩ => (by cases h), fun ⟨_, h⟩ => (by cases h)⟩
  | ok a => exact ⟨fun _ => ⟨a, rfl⟩, fun _ => hf a⟩

/-- The computation returns the value if the condition holds, and fails otherwise. -/
structure Gives (x : Except ε α) (P : Prop) (a : α) : Prop where
  yields : P → x = .ok a
  only : Returns x → P

namespace Gives

variable {x : Except ε α} {f : α → Except ε β} {P Q : Prop} {a a' : α} {b : β}

protected theorem pure (a : α) : Gives (pure a : Except ε α) True a := ⟨fun _ => rfl, fun _ => trivial⟩

theorem congr (h : Gives x P a) (hiff : P ↔ Q) : Gives x Q a :=
  ⟨fun hq => h.yields (hiff.mpr hq), fun hr => hiff.mp (h.only hr)⟩

theorem eq_of_ok (h : Gives x P a) (hx : x = .ok a') : a' = a := by
  rw [h.yields (h.only ⟨a', hx⟩)] at hx
  exact (Except.ok.inj hx).symm

/-- What follows decides, once the first part has its value. -/
theorem returns_bind (h : Gives x P a) : Returns (x >>= f) ↔ P ∧ Returns (f a) := by
  constructor
  · rintro ⟨b, hb⟩
    cases hx : x with
    | error e =>
      rw [hx] at hb
      cases hb
    | ok a' =>
      have hp := h.only ⟨a', hx⟩
      rw [h.yields hp] at hb
      exact ⟨hp, b, hb⟩
  · rintro ⟨hp, hrest⟩
    rw [h.yields hp]
    exact hrest

theorem bind (h : Gives x P a) (hf : Gives (f a) Q b) : Gives (x >>= f) (P ∧ Q) b where
  yields := by
    rintro ⟨hp, hq⟩
    rw [h.yields hp]
    exact hf.yields hq
  only := by
    intro hr
    obtain ⟨hp, hrest⟩ := h.returns_bind.mp hr
    exact ⟨hp, hf.only hrest⟩

theorem bind_eq_ok (h : Gives x P a) : x >>= f = .ok b ↔ P ∧ f a = .ok b := by
  constructor
  · intro hb
    have hp := (h.returns_bind.mp ⟨b, hb⟩).1
    rw [h.yields hp] at hb
    exact ⟨hp, hb⟩
  · rintro ⟨hp, hf⟩
    rw [h.yields hp]
    exact hf

end Gives

end Sdpa.Lib.Fallible
