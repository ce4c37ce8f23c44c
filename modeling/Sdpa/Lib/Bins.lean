import Mathlib.Data.List.Forall2
import Mathlib.Data.List.Range
import Mathlib.Algebra.Order.Group.Multiset
import Mathlib.Logic.Function.Basic

/-!
# Indexed bins

A family of lists indexed by naturals, read out as the concatenation of its
first bins. Changing one bin changes the read-out by exactly that bin; a class
of elements that lives in one bin is read out in the order of that bin. The
first element of a class can be erased or rewritten without touching the
classes disjoint from it.
-/
namespace Sdpa.Lib.Bins

variable {α : Type}

/-- The first `k` bins, one after another. -/
def readOut (f : Nat → List α) (k : Nat) : List α := (List.range k).flatMap f

theorem readOut_succ (f : Nat → List α) (k : Nat) :
    readOut f (k + 1) = readOut f k ++ f k := by
  simp [readOut, List.range_succ, List.flatMap_append]

theorem mem_readOut {f : Nat → List α} {k : Nat} {x : α} :
    x ∈ readOut f k ↔ ∃ i, i < k ∧ x ∈ f i := by
  simp [readOut, List.mem_flatMap]

/-- Bins past the end do not matter. -/
theorem readOut_update_of_le (f : Nat → List α) {i k : Nat} (h : k ≤ i) (l : List α) :
    readOut (Function.update f i l) k = readOut f k := by
  apply List.flatMap_congr
  intro j hj
  have hne : j ≠ i := by
    have := List.mem_range.mp hj
    omega
  rw [Function.update_of_ne hne]

/-- Replacing one bin replaces its elements in the read-out, as multisets. -/
theorem readOut_update (f : Nat → List α) {i k : Nat} (h : i < k) (l : List α) :
    (readOut (Function.update f i l) k : Multiset α) + (f i : Multiset α) =
      (readOut f k : Multiset α) + (l : Multiset α) := by
  induction k with
  | zero => omega
  | succ k ih =>
    rw [readOut_succ, readOut_succ, ← Multiset.coe_add, ← Multiset.coe_add]
    by_cases hk : i = k
    · subst hk
      rw [readOut_update_of_le f (Nat.le_refl i), Function.update_self, add_right_comm]
    · rw [Function.update_of_ne (Ne.symm hk), add_right_comm, ih (by omega), add_right_comm]

/-- A class of elements found in no other bin is read out as that bin lists it. -/
theorem filter_readOut (f : Nat → List α) (p : α → Bool) {i k : Nat} (hi : i < k)
    (h : ∀ j, j ≠ i → ∀ x ∈ f j, p x = false) :
    (readOut f k).filter p = (f i).filter p := by
  have hout : ∀ j, j ≠ i → (f j).filter p = [] := by
    intro j hj
    exact List.filter_eq_nil_iff.mpr fun x hx => by simp [h j hj x hx]
  have hlow : ∀ m, m ≤ i → (readOut f m).filter p = [] := by
    intro m
    induction m with
    | zero => intro _; simp [readOut]
    | succ m ih =>
      intro hm
      rw [readOut_succ, List.filter_append, ih (by omega), hout m (by omega)]
      rfl
  induction k with
  | zero => omega
  | succ k ih =>
    rw [readOut_succ, List.filter_append]
    by_cases hk : i = k
    · subst hk
      rw [hlow i (Nat.le_refl i), List.nil_append]
    · rw [ih (by omega), hout k (Ne.symm hk), List.append_nil]

/-! ## The first element of a class -/

/-- Rewrite the first element that satisfies `p`. -/
def modifyFirst (p : α → Bool) (f : α → α) : List α → List α
  | [] => []
  | x :: l => if p x then f x :: l else x :: modifyFirst p f l

variable {p q : α → Bool} {f : α → α}

theorem map_modifyFirst {β : Type} (g : α → β) (hg : ∀ x, g (f x) = g x) (l : List α) :
    (modifyFirst p f l).map g = l.map g := by
  induction l with
  | nil => rfl
  | cons x l ih =>
    unfold modifyFirst
    split <;> simp [hg, ih]

theorem mem_modifyFirst {l : List α} {y : α} (h : y ∈ modifyFirst p f l) :
    y ∈ l ∨ ∃ x ∈ l, p x ∧ y = f x := by
  induction l with
  | nil => exact .inl h
  | cons x l ih =>
    unfold modifyFirst at h
    split at h
    · rename_i hx
      rcases List.mem_cons.mp h with rfl | hl
      · exact .inr ⟨x, List.mem_cons_self, hx, rfl⟩
      · exact .inl (List.mem_cons_of_mem x hl)
    · rcases List.mem_cons.mp h with rfl | hl
      · exact .inl List.mem_cons_self
      · rcases ih hl with hold | ⟨z, hz, hp, hy⟩
        · exact .inl (List.mem_cons_of_mem x hold)
        · exact .inr ⟨z, List.mem_cons_of_mem x hz, hp, hy⟩

theorem filter_eraseP_self (l : List α) : (l.eraseP p).filter p = (l.filter p).tail := by
  induction l with
  | nil => rfl
  | cons x l ih =>
    by_cases hx : p x
    · rw [List.eraseP_cons_of_pos hx, List.filter_cons_of_pos hx, List.tail_cons]
    · rw [List.eraseP_cons_of_neg hx, List.filter_cons_of_neg hx, List.filter_cons_of_neg hx, ih]

theorem filter_eraseP_disjoint (hd : ∀ x, p x → ¬ q x) (l : List α) :
    (l.eraseP p).filter q = l.filter q := by
  induction l with
  | nil => rfl
  | cons x l ih =>
    by_cases hx : p x
    · rw [List.eraseP_cons_of_pos hx, List.filter_cons_of_neg (hd x hx)]
    · rw [List.eraseP_cons_of_neg hx, List.filter_cons, List.filter_cons, ih]

theorem filter_modifyFirst_self (hf : ∀ x, p (f x) = p x) (l : List α) :
    (modifyFirst p f l).filter p = (l.filter p).modifyHead f := by
  induction l with
  | nil => rfl
  | cons x l ih =>
    by_cases hx : p x
    · have hfx : p (f x) := by rw [hf, hx]
      rw [modifyFirst, if_pos hx, List.filter_cons_of_pos hx, List.filter_cons_of_pos hfx,
        List.modifyHead_cons]
    · rw [modifyFirst, if_neg hx, List.filter_cons_of_neg hx, List.filter_cons_of_neg hx, ih]

theorem filter_modifyFirst_disjoint (hd : ∀ x, p x → ¬ q x) (hf : ∀ x, q (f x) = q x)
    (l : List α) : (modifyFirst p f l).filter q = l.filter q := by
  induction l with
  | nil => rfl
  | cons x l ih =>
    by_cases hx : p x
    · have hfx : ¬ q (f x) := by rw [hf]; exact hd x hx
      rw [modifyFirst, if_pos hx, List.filter_cons_of_neg hfx, List.filter_cons_of_neg (hd x hx)]
    · rw [modifyFirst, if_neg hx, List.filter_cons, List.filter_cons, ih]

/-- Rewrites of disjoint classes do not see each other. -/
theorem modifyFirst_comm {g : α → α} (hd : ∀ x, p x → ¬ q x) (hf : ∀ x, q (f x) = q x)
    (hg : ∀ x, p (g x) = p x) (l : List α) :
    modifyFirst p f (modifyFirst q g l) = modifyFirst q g (modifyFirst p f l) := by
  induction l with
  | nil => rfl
  | cons x l ih =>
    by_cases hp : p x
    · have hq : ¬ q x := hd x hp
      have hfx : ¬ q (f x) := by rw [hf]; exact hq
      simp only [modifyFirst, hp, hq, hfx, if_true, if_false, Bool.false_eq_true]
    · by_cases hq : q x
      · have hgx : ¬ p (g x) := by rw [hg]; exact hp
        simp only [modifyFirst, hp, hq, hgx, if_true, if_false, Bool.false_eq_true]
      · simp only [modifyFirst, hp, hq, if_false, Bool.false_eq_true, ih]

theorem modifyFirst_modifyFirst {g : α → α} (hg : ∀ x, p (g x) = p x) (l : List α) :
    modifyFirst p f (modifyFirst p g l) = modifyFirst p (f ∘ g) l := by
  induction l with
  | nil => rfl
  | cons x l ih =>
    by_cases hp : p x
    · have hgx : p (g x) := by rw [hg, hp]
      simp only [modifyFirst, hp, hgx, if_true, Function.comp_apply]
    · simp only [modifyFirst, hp, if_false, Bool.false_eq_true, ih]

theorem modifyFirst_append_of_not_left {l : List α} (h : ∀ x ∈ l, p x = false) (r : List α) :
    modifyFirst p f (l ++ r) = l ++ modifyFirst p f r := by
  induction l with
  | nil => rfl
  | cons x l ih =>
    have hx : ¬ p x = true := by simp [h x List.mem_cons_self]
    rw [List.cons_append, modifyFirst, if_neg hx, List.cons_append,
      ih fun y hy => h y (List.mem_cons_of_mem x hy)]

theorem modifyFirst_of_not {l : List α} (h : ∀ x ∈ l, p x = false) : modifyFirst p f l = l := by
  have happend := modifyFirst_append_of_not_left (f := f) h []
  rwa [modifyFirst, List.append_nil] at happend

theorem modifyFirst_append_of_not_right (l : List α) {r : List α} (h : ∀ x ∈ r, p x = false) :
    modifyFirst p f (l ++ r) = modifyFirst p f l ++ r := by
  induction l with
  | nil => exact modifyFirst_of_not h
  | cons x l ih =>
    rw [List.cons_append, modifyFirst, modifyFirst, ih]
    split <;> rfl

/-- The first element of a class that lives in one bin is the first of the read-out. -/
theorem readOut_modifyFirst (b : Nat → List α) {i k : Nat} (hi : i < k)
    (h : ∀ j, j ≠ i → ∀ x ∈ b j, p x = false) :
    readOut (Function.update b i (modifyFirst p f (b i))) k = modifyFirst p f (readOut b k) := by
  induction k with
  | zero => omega
  | succ k ih =>
    rw [readOut_succ, readOut_succ]
    by_cases hk : i = k
    · subst hk
      have hlow : ∀ x ∈ readOut b i, p x = false := by
        intro x hx
        obtain ⟨j, hj, hxj⟩ := mem_readOut.mp hx
        exact h j (by omega) x hxj
      rw [readOut_update_of_le b (Nat.le_refl i), Function.update_self,
        modifyFirst_append_of_not_left hlow]
    · rw [ih (by omega), Function.update_of_ne (Ne.symm hk),
        modifyFirst_append_of_not_right _ (h k (Ne.symm hk))]

/-- A rewrite seen through a map. -/
theorem map_modifyFirst_of_comm {β : Type} {m : α → β} {q : β → Bool} {g : β → β}
    (hf : ∀ x, m (f x) = g (m x)) {l : List α} (hp : ∀ x ∈ l, p x = q (m x)) :
    (modifyFirst p f l).map m = modifyFirst q g (l.map m) := by
  induction l with
  | nil => rfl
  | cons x l ih =>
    rw [modifyFirst, List.map_cons, modifyFirst, ← hp x List.mem_cons_self,
      ← ih fun y hy => hp y (List.mem_cons_of_mem x hy)]
    split
    · rw [List.map_cons, hf]
    · rw [List.map_cons]

/-- A rewrite that does not change what it finds. -/
theorem modifyFirst_eq_self {l : List α} (h : ∀ x, l.find? p = some x → f x = x) :
    modifyFirst p f l = l := by
  induction l with
  | nil => rfl
  | cons x l ih =>
    rw [modifyFirst]
    by_cases hx : p x
    · rw [if_pos hx, h x (List.find?_cons_of_pos hx)]
    · rw [if_neg hx, ih fun y hy => h y (by rw [List.find?_cons_of_neg hx, hy])]

/-- What is rewritten, and that nothing else is. -/
theorem exists_modifyFirst_eq {l : List α} {x : α} (h : l.find? p = some x) :
    ∃ before after, l = before ++ x :: after ∧ (∀ y ∈ before, p y = false) ∧
      modifyFirst p f l = before ++ f x :: after := by
  obtain ⟨hx, before, after, rfl, hbefore⟩ := List.find?_eq_some_iff_append.mp h
  have hfalse : ∀ y ∈ before, p y = false := fun y hy => by simpa using hbefore y hy
  refine ⟨before, after, rfl, hfalse, ?_⟩
  rw [modifyFirst_append_of_not_left hfalse, modifyFirst, if_pos hx]

theorem forall₂_modifyFirst {R : α → α → Prop} (hrefl : ∀ x, R x x) (hf : ∀ x, R x (f x))
    (l : List α) : List.Forall₂ R l (modifyFirst p f l) := by
  induction l with
  | nil => exact .nil
  | cons x l ih =>
    rw [modifyFirst]
    split
    · exact .cons (hf x) (List.forall₂_same.mpr fun y _ => hrefl y)
    · exact .cons (hrefl x) ih

theorem forall₂_trans {R : α → α → Prop} (htrans : ∀ x y z, R x y → R y z → R x z)
    {l₁ l₂ l₃ : List α} (h₁ : List.Forall₂ R l₁ l₂) (h₂ : List.Forall₂ R l₂ l₃) :
    List.Forall₂ R l₁ l₃ := by
  induction h₁ generalizing l₃ with
  | nil => exact h₂
  | cons hxy _ ih =>
    cases h₂ with
    | cons hyz hrest => exact .cons (htrans _ _ _ hxy hyz) (ih hrest)

end Sdpa.Lib.Bins
