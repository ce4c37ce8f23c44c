import Mathlib.Tactic.Common

/-!
# Simulation of stateful computations that may fail

Two computations over different states run side by side. The first is followed
only as far as its outcome is good: an outcome that is not good excuses the
second. Goodness is pulled back from the outcome to the state before, so that a
condition on the final state can be used at every step on the way to it.
-/
namespace Sdpa.Lib.Simulation

variable {E S T ι : Type}

/-- What is kept of the first run and what relates it to the second. -/
structure Spec (E S T ι : Type) where
  /-- Final states of interest. -/
  good : S → Prop
  /-- Failures that are of no interest. -/
  bad : E → Prop
  /-- Holds of the first run throughout. -/
  inv : S → Prop
  /-- Facts about the first run that stay true once they are. -/
  kept : ι → S → Prop
  rel : S → T → Prop

variable {P : Spec E S T ι} {α β : Type}

def GoodOut (P : Spec E S T ι) : Except E (α × S) → Prop
  | .ok r => P.good r.2
  | .error e => ¬ P.bad e

def OutRel (P : Spec E S T ι) : Except E (α × S) → Except E (α × T) → Prop
  | .ok r, .ok r' => r.1 = r'.1 ∧ P.rel r.2 r'.2
  | .error e, .error e' => e = e'
  | _, _ => False

/-- From states that satisfy `pre`, the second computation does what the first does. -/
structure Sim (P : Spec E S T ι) (pre : S → Prop) (f : StateT S (Except E) α)
    (g : StateT T (Except E) α) : Prop where
  keep : ∀ s r, P.inv s → pre s → f s = .ok r → P.inv r.2 ∧ ∀ i, P.kept i s → P.kept i r.2
  back : ∀ s, P.inv s → pre s → GoodOut P (f s) → P.good s
  sim : ∀ s t, P.inv s → pre s → P.rel s t → GoodOut P (f s) → OutRel P (f s) (g t)

theorem bind_ok {f : StateT S (Except E) α} {s : S} {r : α × S} (h : f s = .ok r)
    (k : α → StateT S (Except E) β) : (f >>= k) s = k r.1 r.2 := by
  have hbind : (f >>= k) s = (f s >>= fun r => k r.1 r.2) := rfl
  rw [hbind, h]
  rfl

theorem bind_error {f : StateT S (Except E) α} {s : S} {e : E} (h : f s = .error e)
    (k : α → StateT S (Except E) β) : (f >>= k) s = .error e := by
  have hbind : (f >>= k) s = (f s >>= fun r => k r.1 r.2) := rfl
  rw [hbind, h]
  rfl

namespace Sim

variable {pre : S → Prop}

theorem mono {pre' : S → Prop} {f : StateT S (Except E) α} {g : StateT T (Except E) α}
    (h : Sim P pre f g) (hpre : ∀ s, pre' s → pre s) : Sim P pre' f g where
  keep := fun s r hi hp => h.keep s r hi (hpre s hp)
  back := fun s hi hp => h.back s hi (hpre s hp)
  sim := fun s t hi hp => h.sim s t hi (hpre s hp)

protected theorem pure (a : α) : Sim P pre (pure a) (pure a) where
  keep := by
    intro s r hi _ hr
    obtain rfl := Except.ok.inj hr
    exact ⟨hi, fun _ h => h⟩
  back := fun _ _ _ hg => hg
  sim := fun _ _ _ _ hr _ => ⟨rfl, hr⟩

/-- The second part starts where the first part ends. -/
theorem bind {f : StateT S (Except E) α} {g : StateT T (Except E) α}
    {f' : α → StateT S (Except E) β} {g' : α → StateT T (Except E) β} {Q : α → S → Prop}
    (h : Sim P pre f g) (h' : ∀ a, Sim P (Q a) (f' a) (g' a))
    (hpost : ∀ s r, P.inv s → pre s → f s = .ok r → Q r.1 r.2) :
    Sim P pre (f >>= f') (g >>= g') where
  keep := by
    intro s r hi hp hr
    cases hf : f s with
    | error e =>
      rw [bind_error hf] at hr
      cases hr
    | ok m =>
      rw [bind_ok hf] at hr
      have hm := h.keep s m hi hp hf
      have hr' := (h' m.1).keep m.2 r hm.1 (hpost s m hi hp hf) hr
      exact ⟨hr'.1, fun i hk => hr'.2 i (hm.2 i hk)⟩
  back := by
    intro s hi hp hg
    apply h.back s hi hp
    cases hf : f s with
    | error e =>
      rw [bind_error hf] at hg
      exact hg
    | ok m =>
      rw [bind_ok hf] at hg
      exact (h' m.1).back m.2 (h.keep s m hi hp hf).1 (hpost s m hi hp hf) hg
  sim := by
    intro s t hi hp hr hg
    cases hf : f s with
    | error e =>
      rw [bind_error hf] at hg ⊢
      have hout := h.sim s t hi hp hr (by rw [hf]; exact hg)
      rw [hf] at hout
      cases hgt : g t with
      | error e' =>
        rw [hgt] at hout
        rw [bind_error hgt]
        exact hout
      | ok m' =>
        rw [hgt] at hout
        exact hout.elim
    | ok m =>
      rw [bind_ok hf] at hg ⊢
      have him := (h.keep s m hi hp hf).1
      have hpm := hpost s m hi hp hf
      have hgm : P.good m.2 := (h' m.1).back m.2 him hpm hg
      have hout := h.sim s t hi hp hr (by rw [hf]; exact hgm)
      rw [hf] at hout
      cases hgt : g t with
      | error e' =>
        rw [hgt] at hout
        exact hout.elim
      | ok m' =>
        rw [hgt] at hout
        rw [bind_ok hgt, ← hout.1]
        exact (h' m.1).sim m.2 m'.2 him hpm hout.2 hg

/-- A branch on a value that both states have. -/
theorem dispatch {v : S → β} {w : T → β} {f : β → StateT S (Except E) α}
    {g : β → StateT T (Except E) α} (hv : ∀ s t, P.rel s t → v s = w t)
    (h : ∀ b, Sim P (fun s => pre s ∧ v s = b) (f b) (g b)) :
    Sim P pre (fun s => f (v s) s) (fun t => g (w t) t) where
  keep := fun s r hi hp hr => (h (v s)).keep s r hi ⟨hp, rfl⟩ hr
  back := fun s hi hp hg => (h (v s)).back s hi ⟨hp, rfl⟩ hg
  sim := by
    intro s t hi hp hr hg
    rw [← hv s t hr]
    exact (h (v s)).sim s t hi ⟨hp, rfl⟩ hr hg

/-- A failure that is of no interest excuses the second computation. -/
theorem excused {e : E} {g : StateT T (Except E) α} (h : P.bad e) :
    Sim P pre (throw e : StateT S (Except E) α) g where
  keep := by
    intro s r _ _ hr
    cases hr
  back := fun _ _ _ hg => absurd h hg
  sim := fun _ _ _ _ _ hg => absurd h hg

/-- Where no failure is of interest, only the runs that succeed have to be followed. -/
theorem of_ok {f : StateT S (Except E) α} {g : StateT T (Except E) α} (hbad : ∀ e, P.bad e)
    (hkeep : ∀ s r, P.inv s → pre s → f s = .ok r → P.inv r.2 ∧ ∀ i, P.kept i s → P.kept i r.2)
    (hback : ∀ s r, f s = .ok r → P.good r.2 → P.good s)
    (hsim : ∀ s t r, P.inv s → pre s → P.rel s t → f s = .ok r → P.good r.2 →
      ∃ t', g t = .ok (r.1, t') ∧ P.rel r.2 t') : Sim P pre f g where
  keep := hkeep
  back := by
    intro s _ _ hg
    cases hf : f s with
    | error e =>
      rw [hf] at hg
      exact absurd (hbad e) hg
    | ok r =>
      rw [hf] at hg
      exact hback s r hf hg
  sim := by
    intro s t hi hp hr hg
    cases hf : f s with
    | error e =>
      rw [hf] at hg
      exact absurd (hbad e) hg
    | ok r =>
      rw [hf] at hg
      obtain ⟨t', hgt, hrel⟩ := hsim s t r hi hp hr hf hg
      rw [hgt]
      exact ⟨rfl, hrel⟩

/-- A failure that both computations raise, from good states or of no interest. -/
theorem throw {e : E} (h : ∀ s, P.inv s → pre s → ¬ P.bad e → P.good s) :
    Sim P pre (throw e : StateT S (Except E) α) (throw e : StateT T (Except E) α) where
  keep := by
    intro s r _ _ hr
    cases hr
  back := fun s hi hp hg => h s hi hp hg
  sim := fun _ _ _ _ _ _ => rfl

/-- A computation repeated over a list. -/
theorem forM {f : β → StateT S (Except E) PUnit} {g : β → StateT T (Except E) PUnit}
    {pre : S → Prop} (l : List β) (h : ∀ b ∈ l, Sim P pre (f b) (g b))
    (hpre : ∀ b ∈ l, ∀ s r, P.inv s → pre s → f b s = .ok r → pre r.2) :
    Sim P pre (l.forM f) (l.forM g) := by
  induction l with
  | nil => exact Sim.pure _
  | cons b l ih =>
    have hl := ih (fun x hx => h x (List.mem_cons_of_mem b hx))
      (fun x hx => hpre x (List.mem_cons_of_mem b hx))
    exact (h b List.mem_cons_self).bind (Q := fun _ => pre) (fun _ => hl)
      (fun s r hi hp hf => hpre b List.mem_cons_self s r hi hp hf)

end Sim

end Sdpa.Lib.Simulation
