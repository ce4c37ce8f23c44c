import Mathlib.Data.Nat.Count

/-!
# Clocked machines

A clocked machine is a step function from an input and the registers of one
cycle to the registers of the next. What is proved of a part of a larger machine is
about the trajectory of its registers and the wires that feed it.

A signal is a predicate of the cycle. `ago n p` is `p` delayed by `n` registers
that start low; `Spaced d p` says that pulses of `p` are at least `d` cycles
apart.
-/
namespace Sdpa.Lib.Clocked

variable {σ ι : Type}

/-- The registers at the start of each cycle. -/
def run (step : ι → σ → σ) (s : σ) (input : Nat → ι) : Nat → σ
  | 0 => s
  | t + 1 => step (input t) (run step s input t)

/-- The trajectory of registers that are clocked by `step` on the given inputs. -/
def Follows (step : ι → σ → σ) (input : Nat → ι) (s : Nat → σ) : Prop :=
  ∀ t, s (t + 1) = step (input t) (s t)

theorem follows_run (step : ι → σ → σ) (s : σ) (input : Nat → ι) :
    Follows step input (run step s input) := fun _ => rfl

/-! ## Delayed signals -/

variable {p : Nat → Bool}

/-- The signal `p` as it was `n` cycles before, low in the first `n` cycles. -/
def ago (n : Nat) (p : Nat → Bool) (t : Nat) : Bool := decide (n ≤ t) && p (t - n)

@[simp] theorem ago_zero (p : Nat → Bool) (t : Nat) : ago 0 p t = p t := by simp [ago]

@[simp] theorem ago_succ_zero (n : Nat) (p : Nat → Bool) : ago (n + 1) p 0 = false := by
  simp [ago]

@[simp] theorem ago_succ_succ (n : Nat) (p : Nat → Bool) (t : Nat) :
    ago (n + 1) p (t + 1) = ago n p t := by simp [ago]

theorem ago_add (n : Nat) (p : Nat → Bool) (t : Nat) : ago n p (t + n) = p t := by simp [ago]

theorem ago_iff {n t : Nat} : ago n p t = true ↔ ∃ u, u + n = t ∧ p u = true := by
  constructor
  · intro h
    rw [ago, Bool.and_eq_true, decide_eq_true_eq] at h
    exact ⟨t - n, by omega, h.2⟩
  · rintro ⟨u, rfl, h⟩
    rw [ago_add, h]

theorem ago_ago (m n : Nat) (p : Nat → Bool) (t : Nat) : ago m (ago n p) t = ago (m + n) p t := by
  rw [Bool.eq_iff_iff, ago_iff, ago_iff]
  constructor
  · rintro ⟨u, rfl, hu⟩
    obtain ⟨v, rfl, hv⟩ := ago_iff.mp hu
    exact ⟨v, by omega, hv⟩
  · rintro ⟨u, rfl, hu⟩
    exact ⟨u + n, by omega, ago_iff.mpr ⟨u, rfl, hu⟩⟩

/-- A register that takes a delayed signal is that signal delayed once more. -/
theorem eq_ago_succ {q : Nat → Bool} {n : Nat} (hstart : q 0 = false)
    (hstep : ∀ t, q (t + 1) = ago n p t) (t : Nat) : q t = ago (n + 1) p t := by
  cases t with
  | zero => rw [hstart, ago_succ_zero]
  | succ t => rw [hstep t, ago_succ_succ]

/-! ## Pulses -/

/-- Pulses of `p` are at least `d` cycles apart. -/
def Spaced (d : Nat) (p : Nat → Bool) : Prop :=
  ∀ t u, p t = true → p u = true → t < u → t + d ≤ u

theorem Spaced.mono {d e : Nat} (h : Spaced d p) (hle : e ≤ d) : Spaced e p := by
  intro t u ht hu htu
  have := h t u ht hu htu
  omega

/-- Between two pulses there is none. -/
theorem Spaced.low {d t u : Nat} (h : Spaced d p) (ht : p t = true) (htu : t < u)
    (hu : u < t + d) : p u = false := by
  cases hpu : p u with
  | false => rfl
  | true =>
    have := h t u ht hpu htu
    omega

theorem Spaced.low_before {d t u : Nat} (h : Spaced d p) (ht : p t = true) (hut : u < t)
    (hu : t < u + d) : p u = false := by
  cases hpu : p u with
  | false => rfl
  | true =>
    have := h u t hpu ht hut
    omega

/-- A delay keeps the distances between pulses. -/
theorem Spaced.ago {d : Nat} (h : Spaced d p) (n : Nat) : Spaced d (ago n p) := by
  intro t u ht hu htu
  obtain ⟨t', rfl, ht'⟩ := ago_iff.mp ht
  obtain ⟨u', rfl, hu'⟩ := ago_iff.mp hu
  have := h t' u' ht' hu' (by omega)
  omega

/-- `T` is the last pulse of `p` before cycle `t`. -/
structure Latest (p : Nat → Bool) (t T : Nat) : Prop where
  pulse : p T = true
  lt : T < t
  low : ∀ u, T < u → u < t → p u = false

theorem latest_self {t : Nat} (h : p t = true) : Latest p (t + 1) t :=
  ⟨h, by omega, fun u hu hut => by omega⟩

theorem Latest.succ {t T : Nat} (h : Latest p t T) (ht : p t = false) : Latest p (t + 1) T := by
  refine ⟨h.pulse, by have := h.lt; omega, fun u hu hut => ?_⟩
  by_cases hue : u = t
  · exact hue ▸ ht
  · exact h.low u hu (by omega)

theorem Latest.le {t T u : Nat} (h : Latest p t T) (hu : p u = true) (hut : u < t) : u ≤ T := by
  by_contra hlt
  have := h.low u (by omega) hut
  rw [hu] at this
  cases this

theorem Latest.unique {t T T' : Nat} (h : Latest p t T) (h' : Latest p t T') : T = T' :=
  Nat.le_antisymm (h'.le h.pulse h.lt) (h.le h'.pulse h'.lt)

theorem latest_or_none (p : Nat → Bool) (t : Nat) :
    (∀ u, u < t → p u = false) ∨ ∃ T, Latest p t T := by
  induction t with
  | zero => exact .inl fun u hu => by omega
  | succ t ih =>
    cases ht : p t with
    | true => exact .inr ⟨t, latest_self ht⟩
    | false =>
      rcases ih with hnone | ⟨T, hT⟩
      · refine .inl fun u hu => ?_
        by_cases hue : u = t
        · exact hue ▸ ht
        · exact hnone u (by omega)
      · exact .inr ⟨T, hT.succ ht⟩

/-! ## Counting pulses -/

/-- The number of pulses of `p` before cycle `t`. -/
def count (p : Nat → Bool) (t : Nat) : Nat := Nat.count (fun u => p u = true) t

@[simp] theorem count_zero (p : Nat → Bool) : count p 0 = 0 := Nat.count_zero _

theorem count_succ (p : Nat → Bool) (t : Nat) :
    count p (t + 1) = count p t + if p t then 1 else 0 := Nat.count_succ _ t

theorem count_mono (p : Nat → Bool) {t u : Nat} (h : t ≤ u) : count p t ≤ count p u :=
  Nat.count_monotone _ h

/-- There are no more pulses than cycles. -/
theorem count_le_add_sub (p : Nat → Bool) {t u : Nat} (h : t ≤ u) :
    count p u ≤ count p t + (u - t) := by
  induction u, h using Nat.le_induction with
  | base => omega
  | succ u htu ih =>
    have hle : (if p u then 1 else 0) ≤ 1 := by split <;> omega
    rw [count_succ]
    omega

theorem count_congr {q : Nat → Bool} {t : Nat} (h : ∀ u, u < t → p u = q u) :
    count p t = count q t := by
  induction t with
  | zero => simp
  | succ t ih => rw [count_succ, count_succ, ih fun u hu => h u (by omega), h t (by omega)]

/-- Nothing is counted where there is no pulse. -/
theorem count_eq_of_low {t u : Nat} (hle : t ≤ u) (h : ∀ v, t ≤ v → v < u → p v = false) :
    count p u = count p t := by
  induction u, hle using Nat.le_induction with
  | base => rfl
  | succ u hle ih =>
    rw [count_succ, h u hle (by omega)]
    exact ih fun v hv hvu => h v hv (by omega)

theorem count_le_of_low {n : Nat} (h : ∀ u, n ≤ u → p u = false) (t : Nat) :
    count p t ≤ count p n := by
  by_cases hn : n ≤ t
  · exact Nat.le_of_eq (count_eq_of_low hn fun v hv _ => h v hv)
  · exact count_mono p (by omega)

/-- The first `n` cycles. -/
def burst (n t : Nat) : Bool := decide (t < n)

theorem count_burst (n t : Nat) : count (burst n) t = min t n := by
  induction t with
  | zero => rw [count_zero, Nat.zero_min]
  | succ t ih =>
    rw [count_succ, ih, burst]
    by_cases hlt : t < n
    · rw [decide_eq_true hlt, if_pos rfl]
      omega
    · rw [decide_eq_false hlt, if_neg Bool.false_ne_true]
      omega

theorem count_ago (n : Nat) (p : Nat → Bool) (t : Nat) : count (ago n p) t = count p (t - n) := by
  induction t with
  | zero => simp
  | succ t ih =>
    rw [count_succ, ih]
    by_cases hn : n ≤ t
    · rw [Nat.sub_add_comm hn, count_succ, ago, decide_eq_true hn, Bool.true_and]
    · rw [ago, decide_eq_false hn, show t + 1 - n = t - n by omega]
      rfl

/-- A signal with as many pulses as another one had a cycle before is that one delayed. -/
theorem count_succ_eq_iff {q : Nat → Bool} :
    (∀ t, count q (t + 1) = count p t) ↔ q = ago 1 p := by
  constructor
  · intro h
    refine funext (eq_ago_succ ?_ fun t => ?_)
    · have hzero := h 0
      rw [count_succ, count_zero, count_zero] at hzero
      cases hq : q 0 with
      | false => rfl
      | true => simp [hq] at hzero
    · have hnext := h (t + 1)
      rw [count_succ, h t, count_succ p] at hnext
      rw [ago_zero]
      cases hq : q (t + 1) <;> cases hp : p t <;> simp [hq, hp] at hnext ⊢
  · intro h t
    rw [h, count_ago, Nat.add_sub_cancel]

/-- `F` is the pulse of `p` with `k` pulses before it. -/
structure IsNth (p : Nat → Bool) (k F : Nat) : Prop where
  pulse : p F = true
  before : count p F = k

theorem IsNth.unique {k F G : Nat} (h : IsNth p k F) (h' : IsNth p k G) : F = G :=
  Nat.count_injective h.pulse h'.pulse (h.before.trans h'.before.symm)

/-- A signal that is always high. -/
theorem isNth_high (n : Nat) : IsNth (fun _ => true) n n := ⟨rfl, by simp [count]⟩

/-- A pulse comes before `t` if it is counted there. -/
theorem IsNth.lt_iff {k F : Nat} (h : IsNth p k F) (t : Nat) : k < count p t ↔ F < t := by
  constructor
  · intro hlt
    exact Nat.lt_of_count_lt_count (h.before ▸ hlt)
  · intro hlt
    rw [← h.before]
    exact Nat.count_strict_mono h.pulse hlt

theorem exists_nth {k t : Nat} (h : k < count p t) : ∃ F, F < t ∧ IsNth p k F := by
  induction t with
  | zero => simp at h
  | succ t ih =>
    by_cases hlt : k < count p t
    · obtain ⟨F, hF, hnth⟩ := ih hlt
      exact ⟨F, by omega, hnth⟩
    · rw [count_succ] at h
      cases hp : p t with
      | false =>
        rw [hp] at h
        exact absurd h hlt
      | true =>
        rw [hp, if_pos rfl] at h
        exact ⟨t, by omega, hp, by omega⟩

theorem IsNth.ago {k F : Nat} (h : IsNth p k F) (n : Nat) : IsNth (ago n p) k (F + n) where
  pulse := by rw [ago_add, h.pulse]
  before := by rw [count_ago, Nat.add_sub_cancel, h.before]

theorem IsNth.of_ago {k F n : Nat} (h : IsNth (Clocked.ago n p) k F) :
    ∃ G, F = G + n ∧ IsNth p k G := by
  obtain ⟨G, rfl, hG⟩ := ago_iff.mp h.pulse
  refine ⟨G, rfl, hG, ?_⟩
  rw [← h.before, count_ago, Nat.add_sub_cancel]

/-- Signals with as many pulses, the ones among the others, are the same so far. -/
theorem eq_of_count_eq {q : Nat → Bool} (hsub : ∀ u, q u = true → p u = true) {t : Nat}
    (h : count q t = count p t) {u : Nat} (hut : u < t) : q u = p u := by
  have hle : ∀ v, count q v ≤ count p v := fun v => Nat.count_mono_left fun w _ hw => hsub w hw
  induction t with
  | zero => omega
  | succ t ih =>
    have hbefore := hle t
    rw [count_succ, count_succ] at h
    cases hq : q t with
    | true =>
      have hp := hsub t hq
      rw [hq, hp] at h
      rcases Nat.lt_succ_iff_lt_or_eq.mp hut with hlt | rfl
      · exact ih (by omega) hlt
      · rw [hq, hp]
    | false =>
      cases hp : p t with
      | true =>
        rw [hq, hp, if_pos rfl, if_neg Bool.false_ne_true] at h
        omega
      | false =>
        rw [hq, hp] at h
        rcases Nat.lt_succ_iff_lt_or_eq.mp hut with hlt | rfl
        · exact ih h hlt
        · rw [hq, hp]

/-- The pulses of `q` have the numbers that they have among those of `p` if `q` misses none of `p`
before one of its own. -/
theorem isNth_of_isNth_iff {q : Nat → Bool} (hsub : ∀ u, q u = true → p u = true) :
    (∀ k F, IsNth q k F → IsNth p k F) ↔
      ∀ F G, F < G → p F = true → q G = true → q F = true := by
  constructor
  · intro h F G hFG hF hG
    have hnth := h (count q G) G ⟨hG, rfl⟩
    rw [eq_of_count_eq hsub hnth.before.symm hFG, hF]
  · intro h k F hF
    refine ⟨hsub F hF.pulse, ?_⟩
    rw [← hF.before]
    refine count_congr fun u hu => ?_
    cases hp : p u with
    | true => exact (h u F hu hp hF.pulse).symm
    | false =>
      cases hq : q u with
      | true =>
        rw [hsub u hq] at hp
        cases hp
      | false => rfl

/-- The cycles of the pulses before `t`, in order. -/
def pulses (p : Nat → Bool) (t : Nat) : List Nat := (List.range t).filter p

theorem pulses_succ (p : Nat → Bool) (t : Nat) :
    pulses p (t + 1) = pulses p t ++ if p t then [t] else [] := by
  rw [pulses, List.range_succ, List.filter_append, List.filter_singleton, pulses]
  cases p t <;> rfl

theorem length_pulses (p : Nat → Bool) (t : Nat) : (pulses p t).length = count p t := by
  induction t with
  | zero => simp [pulses]
  | succ t ih =>
    rw [pulses_succ, List.length_append, ih, count_succ]
    cases p t <;> rfl

theorem isNth_of_pulses {k F t : Nat} (h : (pulses p t)[k]? = some F) : IsNth p k F := by
  induction t with
  | zero => simp [pulses] at h
  | succ t ih =>
    rw [pulses_succ] at h
    by_cases hlt : k < count p t
    · rw [List.getElem?_append_left (by rwa [length_pulses])] at h
      exact ih h
    · rw [List.getElem?_append_right (by rw [length_pulses]; omega), length_pulses] at h
      cases hp : p t with
      | false => simp [hp] at h
      | true =>
        rw [hp, if_pos rfl, List.getElem?_singleton] at h
        split at h
        · cases h
          exact ⟨hp, by omega⟩
        · cases h

theorem pulses_of_isNth {k F t : Nat} (h : IsNth p k F) (hF : F < t) :
    (pulses p t)[k]? = some F := by
  have hk : k < (pulses p t).length := by
    rw [length_pulses]
    exact (h.lt_iff t).mpr hF
  have hget := List.getElem?_eq_getElem hk
  rw [hget, (isNth_of_pulses hget).unique h]

/-! ## Pulses of two signals -/

/-- The pulses of `q` before `t`, each with the pulse of `p` that has the same number. -/
def paired (p q : Nat → Bool) (t : Nat) : List (Nat × Nat) := (pulses p t).zip (pulses q t)

theorem zip_eq_take {α β : Type} {l : List α} {r : List β} (h : r.length ≤ l.length) :
    l.zip r = (l.take r.length).zip r := by
  conv_lhs => rw [List.zip_eq_zip_take_min, Nat.min_eq_right h, List.take_length]

variable {q : Nat → Bool} {t : Nat}

theorem paired_succ_of_low (hle : count q t ≤ count p t) (ht : q t = false) :
    paired p q (t + 1) = paired p q t := by
  have hlen : (pulses q t).length ≤ (pulses p t).length := by rwa [length_pulses, length_pulses]
  rw [paired, pulses_succ p, pulses_succ q, ht, if_neg Bool.false_ne_true, List.append_nil, paired,
    zip_eq_take hlen, zip_eq_take (by rw [List.length_append]; omega),
    List.take_append_of_le_length hlen]

theorem paired_succ {F : Nat} (hF : IsNth p (count q t) F) (hlt : F < t) (ht : q t = true) :
    paired p q (t + 1) = paired p q t ++ [(F, t)] := by
  have hget := pulses_of_isNth hF hlt
  rw [← length_pulses] at hget
  have hlen : (pulses q t).length < (pulses p t).length := (List.getElem?_eq_some_iff.mp hget).1
  rw [paired, pulses_succ p, pulses_succ q, ht, if_pos rfl, paired, zip_eq_take (Nat.le_of_lt hlen),
    zip_eq_take (by simp only [List.length_append, List.length_singleton]; omega),
    List.length_append, List.length_singleton, List.take_append_of_le_length hlen,
    List.take_add_one, hget]
  exact List.zip_append (by rw [List.length_take]; omega)

end Sdpa.Lib.Clocked
