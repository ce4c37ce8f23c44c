import Sdpa.Lib.Clocked

/-!
# First-word fall-through queues

The first word of the queue is at the output before it is read. A word that is
read stays there when nothing is behind it, and gives way to the next word in the
following cycle otherwise. Which word is shown depends on the cycles of the writes
and reads alone, so `stamps` runs a queue of write cycles.

In a `Delayed` queue each word is read a fixed number of cycles after it was written,
as in a pipeline. In a `Demand` queue the reader waits for a word to be shown: which
one it is follows from the numbers of words written and read.
-/
namespace Sdpa.Lib.Fallthrough

open Clocked

variable {α β : Type}

/-- `shown` is the word at the output, valid while `empty` is low; `rest` are the
words behind it, oldest first. -/
structure Queue (α : Type) where
  shown : Option α
  empty : Bool
  rest : List α

def Queue.init : Queue α := ⟨none, true, []⟩

def Queue.step (wr : Option α) (rd : Bool) (q : Queue α) : Queue α :=
  match q.rest with
  | [] => ⟨q.shown, q.empty || rd, wr.toList⟩
  | x :: xs =>
    if q.empty || rd then ⟨some x, false, xs ++ wr.toList⟩
    else ⟨q.shown, false, x :: xs ++ wr.toList⟩

/-- The output takes the next word in this cycle. -/
def Queue.pulls (rd : Bool) (q : Queue α) : Bool := (q.empty || rd) && !q.rest.isEmpty

def Queue.map (f : α → β) (q : Queue α) : Queue β := ⟨q.shown.map f, q.empty, q.rest.map f⟩

theorem Queue.pulls_map (f : α → β) (rd : Bool) (q : Queue α) :
    (q.map f).pulls rd = q.pulls rd := by simp [Queue.pulls, Queue.map]

theorem Queue.length_rest_map (f : α → β) (q : Queue α) :
    (q.map f).rest.length = q.rest.length := List.length_map f

/-- Moving words around does not look at them. -/
theorem Queue.step_map (f : α → β) (wr : Option α) (rd : Bool) (q : Queue α) :
    (q.map f).step (wr.map f) rd = (q.step wr rd).map f := by
  obtain ⟨shown, empty, rest⟩ := q
  cases rest with
  | nil => cases wr <;> rfl
  | cons x xs =>
    cases hpull : (empty || rd) <;> cases wr <;> simp [Queue.step, Queue.map, hpull]

/-- The queue whose words are the cycles in which they were written. -/
def stamps (wr rd : Nat → Bool) : Nat → Queue Nat
  | 0 => .init
  | t + 1 => (stamps wr rd t).step (if wr t then some t else none) (rd t)

theorem length_rest_stamps_le (wr rd : Nat → Bool) (t : Nat) :
    (stamps wr rd t).rest.length ≤ count wr t := by
  induction t with
  | zero => simp [stamps, Queue.init]
  | succ t ih =>
    have hlen : (if wr t then some t else none).toList.length = if wr t then 1 else 0 := by
      cases wr t <;> rfl
    rw [stamps, count_succ, ← hlen]
    cases hrest : (stamps wr rd t).rest with
    | nil => simp only [Queue.step, hrest, Nat.le_add_left]
    | cons x xs =>
      rw [hrest, List.length_cons] at ih
      simp only [Queue.step, hrest]
      split
      · simp only [List.length_append]
        omega
      · simp only [List.length_append, List.length_cons]
        omega

/-! ## Reads at a fixed distance from the writes -/

section Delayed

variable {wr : Nat → Bool} {d L : Nat}

/-- What the queue is at cycle `t`, from the last two writes before. -/
inductive Phase (wr : Nat → Bool) (L t : Nat) : Queue Nat → Prop
  | untouched (h : ∀ u, u < t → wr u = false) : Phase wr L t ⟨none, true, []⟩
  | behind {T T' : Nat} (h : Latest wr t T) (h' : Latest wr T T') (hle : t ≤ T' + L) :
      Phase wr L t ⟨some T', false, [T]⟩
  | written {T : Nat} {shown : Option Nat} (h : Latest wr t T) (ht : t = T + 1)
      (hread : ∀ T', Latest wr T T' → T' + L < t ∧ shown = some T') :
      Phase wr L t ⟨shown, true, [T]⟩
  | first {T : Nat} (h : Latest wr t T) (hlt : T + 1 < t) (hle : t ≤ T + L)
      (hread : ∀ T', Latest wr T T' → T' + L < t) : Phase wr L t ⟨some T, false, []⟩
  | read {T : Nat} (h : Latest wr t T) (hlt : T + L < t) : Phase wr L t ⟨some T, true, []⟩

/-- A read is that of a write `L` cycles before: of the last write, once the one before it is
read. -/
theorem ago_eq_of_latest {t T : Nat} (hL : 0 < L) (hT : Latest wr t T)
    (hread : ∀ T', Latest wr T T' → T' + L < t) : ago L wr t = decide (t = T + L) := by
  rw [Bool.eq_iff_iff, ago_iff, decide_eq_true_eq]
  constructor
  · rintro ⟨u, rfl, hu⟩
    rcases Nat.lt_or_eq_of_le (hT.le hu (by omega)) with hlt | rfl
    · rcases latest_or_none wr T with hnone | ⟨T', hT'⟩
      · rw [hnone u hlt] at hu
        cases hu
      · have hle := hT'.le hu hlt
        have := hread T' hT'
        omega
    · rfl
  · rintro rfl
    exact ⟨T, rfl, hT.pulse⟩

/-- While the next word is already behind, the read to come is that of the word shown. -/
theorem ago_eq_of_behind {t T T' : Nat} (hLd : L < 2 * d) (hwr : Spaced d wr)
    (hT : Latest wr t T) (hT' : Latest wr T T') (hle : t ≤ T' + L) :
    ago L wr t = decide (t = T' + L) := by
  have hgap := hwr T' T hT'.pulse hT.pulse hT'.lt
  have hlt := hT.lt
  rw [Bool.eq_iff_iff, ago_iff, decide_eq_true_eq]
  constructor
  · rintro ⟨u, rfl, hu⟩
    rcases Nat.lt_or_eq_of_le (show u ≤ T' by omega) with hlt' | rfl
    · have := hwr u T' hu hT'.pulse hlt'
      omega
    · rfl
  · rintro rfl
    exact ⟨T', rfl, hT'.pulse⟩

theorem Phase.step (hd : 2 ≤ d) (hL : 2 ≤ L) (hLd : L < 2 * d) (hwr : Spaced d wr) {t : Nat}
    {q : Queue Nat} (h : Phase wr L t q) :
    Phase wr L (t + 1) (q.step (if wr t then some t else none) (ago L wr t)) := by
  cases h with
  | untouched hnone =>
    have hrd : ago L wr t = false := by
      rw [Bool.eq_false_iff]
      intro hrd
      obtain ⟨u, rfl, hu⟩ := ago_iff.mp hrd
      rw [hnone u (by omega)] at hu
      cases hu
    cases hw : wr t with
    | true =>
      refine .written (latest_self hw) rfl fun T' hT' => ?_
      have hlow := hnone T' hT'.lt
      rw [hT'.pulse] at hlow
      cases hlow
    | false =>
      rw [hrd]
      refine .untouched fun u hu => ?_
      by_cases hut : u = t
      · exact hut ▸ hw
      · exact hnone u (by omega)
  | @behind T T' hT hT' hle =>
    have hgap := hwr T' T hT'.pulse hT.pulse hT'.lt
    have hlt := hT.lt
    have hw : wr t = false := hwr.low hT.pulse hlt (by omega)
    rw [hw, ago_eq_of_behind hLd hwr hT hT' hle]
    by_cases ht : t = T' + L
    · rw [decide_eq_true ht]
      refine .first (hT.succ hw) (by omega) (by omega) fun T₂ hT₂ => ?_
      rw [hT₂.unique hT']
      omega
    · rw [decide_eq_false ht]
      exact .behind (hT.succ hw) hT' (by omega)
  | @written T shown hT ht hread =>
    have hw : wr t = false := hwr.low hT.pulse hT.lt (by omega)
    rw [hw]
    refine .first (hT.succ hw) (by omega) (by omega) fun T' hT' => ?_
    have := (hread T' hT').1
    omega
  | @first T hT hlt hle hread =>
    rw [ago_eq_of_latest (by omega) hT hread]
    cases hw : wr t with
    | true =>
      by_cases ht : t = T + L
      · rw [decide_eq_true ht]
        refine .written (latest_self hw) rfl fun T' hT' => ?_
        rw [hT'.unique hT]
        exact ⟨by omega, rfl⟩
      · rw [decide_eq_false ht]
        exact .behind (latest_self hw) hT (by omega)
    | false =>
      by_cases ht : t = T + L
      · rw [decide_eq_true ht]
        exact .read (hT.succ hw) (by omega)
      · rw [decide_eq_false ht]
        exact .first (hT.succ hw) (by omega) (by omega) fun T' hT' => by
          have := hread T' hT'
          omega
  | @read T hT hlt =>
    cases hw : wr t with
    | true =>
      refine .written (latest_self hw) rfl fun T' hT' => ?_
      rw [hT'.unique hT]
      exact ⟨by omega, rfl⟩
    | false => exact .read (hT.succ hw) (by omega)

theorem phase_stamps (hd : 2 ≤ d) (hL : 2 ≤ L) (hLd : L < 2 * d) (hwr : Spaced d wr) (t : Nat) :
    Phase wr L t (stamps wr (ago L wr) t) := by
  induction t with
  | zero => exact .untouched fun u hu => by omega
  | succ t ih => exact ih.step hd hL hLd hwr

theorem Phase.length_rest_le {t : Nat} {q : Queue Nat} (h : Phase wr L t q) :
    q.rest.length ≤ 1 := by
  cases h <;> simp

/-- In the cycle after the read of a word, the word shown is it or the next one. -/
theorem shown_after_read (hd : 2 ≤ d) (hL : 2 ≤ L) (hLd : L < 2 * d) (hwr : Spaced d wr)
    {T : Nat} (hT : wr T = true) :
    ∃ u, (stamps wr (ago L wr) (T + L + 1)).shown = some u ∧ wr u = true ∧ T ≤ u ∧ u < T + L ∧
      ∀ v, T < v → v < T + L → wr v = true → v = u := by
  have hphase := phase_stamps hd hL hLd hwr (T + L + 1)
  -- At most one word is written between the word and the cycle after its read.
  have hone : ∀ {v}, T < v → v < T + L + 1 → wr v = true → ∀ {w}, T < w → w < T + L + 1 →
      wr w = true → w = v := by
    intro v hv hvL hwv w hw hwL hww
    have hTv := hwr T v hT hwv hv
    have hTw := hwr T w hT hww hw
    rcases Nat.lt_trichotomy w v with hlt | heq | hlt
    · have := hwr w v hww hwv hlt
      omega
    · exact heq
    · have := hwr v w hwv hww hlt
      omega
  generalize stamps wr (ago L wr) (T + L + 1) = q at hphase
  cases hphase with
  | untouched hnone =>
    rw [hnone T (by omega)] at hT
    cases hT
  | @behind S S' hS hS' hle =>
    have hlt := hS.lt
    have hgap := hwr S' S hS'.pulse hS.pulse hS'.lt
    have := hwr T S' hT hS'.pulse (by omega)
    omega
  | @written S shown hS ht hread =>
    obtain rfl : S = T + L := by omega
    rcases latest_or_none wr (T + L) with hnone | ⟨S', hS'⟩
    · rw [hnone T (by omega)] at hT
      cases hT
    · have hle := hS'.le hT (by omega)
      have heq : S' = T := by
        have := (hread S' hS').1
        omega
      subst heq
      refine ⟨S', (hread S' hS').2, hT, le_refl _, by omega, fun v hv hvL hwv => ?_⟩
      have := hone (by omega) (by omega) hS.pulse hv (by omega) hwv
      omega
  | @first S hS hlt hle hread =>
    have := hS.le hT (by omega)
    refine ⟨S, rfl, hS.pulse, this, by omega, fun v hv hvL hwv => ?_⟩
    exact Nat.le_antisymm (hS.le hwv (by omega)) (by
      by_contra hvS
      have := hone (by omega) (by omega) hS.pulse hv (by omega) hwv
      omega)
  | @read S hS hlt =>
    obtain rfl : S = T := by
      have := hS.le hT (by omega)
      omega
    refine ⟨S, rfl, hT, le_refl _, by omega, fun v hv hvL hwv => ?_⟩
    have := hS.le hwv (by omega)
    omega

end Delayed

/-! ## Reads on demand -/

section Demand

variable {wr rd : Nat → Bool}

/-- The queue at cycle `t` after `n` reads, when `m` words have come to the output: those that
were read, and one more if there is a word to be read. -/
structure InLine (wr : Nat → Bool) (n m t : Nat) (q : Queue Nat) : Prop where
  came : m = if q.empty then n else n + 1
  le : m ≤ count wr t
  shown : ∀ k, m = k + 1 → ∃ u, q.shown = some u ∧ IsNth wr k u
  rest : q.rest = (pulses wr t).drop m
  empty : q.empty = decide (count wr (t - 1) ≤ n)

theorem inLine_init (wr : Nat → Bool) : InLine wr 0 0 0 .init where
  came := rfl
  le := Nat.zero_le _
  shown k hk := by omega
  rest := by simp [Queue.init, pulses]
  empty := by simp [Queue.init]

theorem drop_pulses_succ {m t : Nat} (h : m ≤ count wr t) :
    (pulses wr (t + 1)).drop m = (pulses wr t).drop m ++ (if wr t then some t else none).toList := by
  rw [pulses_succ, List.drop_append_of_le_length (by rwa [length_pulses])]
  cases wr t <;> rfl

/-- Without a word behind the output, all words have come there. -/
theorem InLine.count_of_nil {n m t : Nat} {q : Queue Nat} (h : InLine wr n m t q)
    (hnil : q.rest = []) : count wr t = m := by
  have hlen := congrArg List.length h.rest
  rw [hnil, List.length_nil, List.length_drop, length_pulses] at hlen
  have := h.le
  omega

/-- What is behind the output and what was read were written. -/
theorem InLine.length_rest_le {n m t : Nat} {q : Queue Nat} (h : InLine wr n m t q) :
    q.rest.length + n ≤ count wr t := by
  have hle := h.le
  have hcame : n ≤ m := by
    rw [h.came]
    split <;> omega
  rw [h.rest, List.length_drop, length_pulses]
  omega

theorem InLine.next {n m t x : Nat} {xs : List Nat} {q : Queue Nat} (h : InLine wr n m t q)
    (hcons : q.rest = x :: xs) :
    m < count wr t ∧ IsNth wr m x ∧ xs = (pulses wr t).drop (m + 1) := by
  have hrest := h.rest
  rw [hcons] at hrest
  refine ⟨?_, isNth_of_pulses (t := t) ?_, ?_⟩
  · have hlen := congrArg List.length hrest
    rw [List.length_cons, List.length_drop, length_pulses] at hlen
    omega
  · have hhead : ((pulses wr t).drop m)[0]? = some x := by
      rw [← hrest]
      rfl
    rwa [List.getElem?_drop, Nat.add_zero] at hhead
  · rw [← List.drop_drop, ← hrest]
    rfl

/-- One cycle in which only a word that is shown is read. -/
theorem InLine.step {n m t : Nat} {q : Queue Nat} (h : InLine wr n m t q) {r : Bool}
    (hr : r = true → q.empty = false) :
    ∃ m', InLine wr (n + if r then 1 else 0) m' (t + 1)
      (q.step (if wr t then some t else none) r) := by
  have hmono : count wr t ≤ count wr (t + 1) := count_mono wr (Nat.le_succ t)
  have hle := h.le
  have hcame := h.came
  cases hcase : q.rest with
  | nil =>
    have hall := h.count_of_nil hcase
    have hstep : q.step (if wr t then some t else none) r =
        ⟨q.shown, q.empty || r, (if wr t then some t else none).toList⟩ := by
      rw [Queue.step, hcase]
    rw [hstep]
    refine ⟨m, ⟨?_, by omega, h.shown, ?_, ?_⟩⟩
    · cases r with
      | false => simpa using hcame
      | true => simpa [hr rfl] using hcame
    · rw [drop_pulses_succ hle, ← h.rest, hcase]
      rfl
    · rw [Nat.add_sub_cancel, hall, hcame]
      cases r with
      | false => cases q.empty <;> simp
      | true => simp [hr rfl]
  | cons x xs =>
    obtain ⟨hlt, hx, htail⟩ := h.next hcase
    cases hpull : (q.empty || r) with
    | true =>
      have hread : n + (if r then 1 else 0) = m := by
        cases r with
        | false =>
          rw [Bool.or_false] at hpull
          simpa [hpull] using hcame.symm
        | true => simpa [hr rfl] using hcame.symm
      have hstep : q.step (if wr t then some t else none) r =
          ⟨some x, false, xs ++ (if wr t then some t else none).toList⟩ := by
        simp only [Queue.step, hcase, hpull, if_true]
      rw [hstep, hread]
      refine ⟨m + 1, ⟨rfl, by omega, fun k hk => ⟨x, rfl, ?_⟩, ?_, ?_⟩⟩
      · rwa [← Nat.succ.inj hk]
      · rw [drop_pulses_succ hlt, ← htail]
      · exact (decide_eq_false (by rw [Nat.add_sub_cancel]; omega)).symm
    | false =>
      obtain ⟨hempty, rfl⟩ := Bool.or_eq_false_iff.mp hpull
      have hstep : q.step (if wr t then some t else none) false =
          ⟨q.shown, false, x :: xs ++ (if wr t then some t else none).toList⟩ := by
        simp only [Queue.step, hcase, hempty, Bool.or_self, Bool.false_eq_true, if_false]
      rw [hempty] at hcame
      rw [hstep]
      refine ⟨m, ⟨hcame, by omega, h.shown, ?_, ?_⟩⟩
      · rw [drop_pulses_succ hle, ← h.rest, hcase]
      · refine (decide_eq_false ?_).symm
        rw [Nat.add_sub_cancel]
        simp only [Bool.false_eq_true, if_false, Nat.add_zero] at hcame ⊢
        omega

/-- Reads come only when a word is shown. -/
def OnDemand (wr rd : Nat → Bool) : Prop := ∀ t, rd t = true → (stamps wr rd t).empty = false

/-- The words to come are those written and not yet read, as long as reads come only when a word is
shown. -/
theorem inLine_of_demand {t : Nat}
    (h : ∀ u m, u < t → InLine wr (count rd u) m u (stamps wr rd u) → rd u = true →
      (stamps wr rd u).empty = false) :
    ∃ m, InLine wr (count rd t) m t (stamps wr rd t) := by
  induction t with
  | zero => exact ⟨0, inLine_init wr⟩
  | succ t ih =>
    obtain ⟨m, hline⟩ := ih fun u m hu => h u m (by omega)
    rw [count_succ]
    exact hline.step (h t m (by omega) hline)

theorem inLine_of_lt (h : ∀ t, rd t = true → count rd t < count wr (t - 1)) (t : Nat) :
    ∃ m, InLine wr (count rd t) m t (stamps wr rd t) := by
  refine inLine_of_demand fun u m _ hline hu => ?_
  rw [hline.empty]
  exact decide_eq_false (Nat.not_le.mpr (h u hu))

theorem inLine_stamps (h : OnDemand wr rd) (t : Nat) :
    ∃ m, InLine wr (count rd t) m t (stamps wr rd t) :=
  inLine_of_demand fun u _ _ _ hu => h u hu

/-- A word can be read from the second cycle after it was written, once those before it are. -/
theorem empty_stamps (h : OnDemand wr rd) (t : Nat) :
    (stamps wr rd t).empty = decide (count wr (t - 1) ≤ count rd t) := by
  obtain ⟨m, hline⟩ := inLine_stamps h t
  exact hline.empty

theorem onDemand_iff :
    OnDemand wr rd ↔ ∀ t, rd t = true → count rd t < count wr (t - 1) := by
  constructor
  · intro h t ht
    have hempty := h t ht
    rwa [empty_stamps h t, decide_eq_false_iff_not, Nat.not_le] at hempty
  · intro h t ht
    obtain ⟨m, hline⟩ := inLine_of_lt h t
    rw [hline.empty]
    exact decide_eq_false (Nat.not_le.mpr (h t ht))

/-- Words that are written earlier are there too. -/
theorem OnDemand.of_ago {n : Nat} (h : OnDemand (ago n wr) rd) : OnDemand wr rd := by
  rw [onDemand_iff] at h ⊢
  intro t ht
  have hlt := h t ht
  rw [count_ago] at hlt
  exact Nat.lt_of_lt_of_le hlt (count_mono wr (Nat.sub_le _ _))

/-- The word read is the first one that was not read before. -/
theorem written_of_read (h : OnDemand wr rd) {t : Nat} (ht : rd t = true) :
    ∃ F, F + 1 < t ∧ IsNth wr (count rd t) F := by
  obtain ⟨F, hF, hnth⟩ := exists_nth (onDemand_iff.mp h t ht)
  exact ⟨F, by omega, hnth⟩

theorem count_read_le (h : OnDemand wr rd) (t : Nat) : count rd t ≤ count wr (t - 1) := by
  induction t with
  | zero => simp
  | succ t ih =>
    have hmono : count wr (t - 1) ≤ count wr t := count_mono wr (Nat.sub_le t 1)
    rw [count_succ, Nat.add_sub_cancel]
    cases ht : rd t with
    | false => exact Nat.le_trans ih hmono
    | true =>
      obtain ⟨F, hF, hnth⟩ := written_of_read h ht
      have hlt : count rd t < count wr t := (hnth.lt_iff t).mpr (by omega)
      exact hlt

/-- As many words have come to the output as were written in time, but at most one more than were
read. -/
theorem came_stamps (h : OnDemand wr rd) (t : Nat) :
    InLine wr (count rd t) (min (count wr (t - 1)) (count rd t + 1)) t (stamps wr rd t) := by
  obtain ⟨m, hline⟩ := inLine_stamps h t
  have hcame := hline.came
  have hread := count_read_le h t
  have hm : m = min (count wr (t - 1)) (count rd t + 1) := by
    rw [hline.empty] at hcame
    by_cases hle : count wr (t - 1) ≤ count rd t
    · rw [decide_eq_true hle, if_pos rfl] at hcame
      omega
    · rw [decide_eq_false hle] at hcame
      simp only [Bool.false_eq_true, if_false] at hcame
      omega
  exact hm ▸ hline

theorem shown_stamps (h : OnDemand wr rd) {t k F : Nat} (hF : IsNth wr k F)
    (hk : min (count wr (t - 1)) (count rd t + 1) = k + 1) :
    (stamps wr rd t).shown = some F := by
  obtain ⟨u, hshown, hu⟩ := (came_stamps h t).shown k hk
  rw [hshown, hu.unique hF]

/-- In the cycle after a word was read, the next word is shown if it was written before the read,
and the same word otherwise. -/
theorem shown_after_demand (h : OnDemand wr rd) {t F : Nat} (ht : rd t = true)
    (hF : IsNth wr (count rd t) F) :
    ∃ u, (stamps wr rd (t + 1)).shown = some u ∧
      ((u = F ∧ ∀ G, IsNth wr (count rd t + 1) G → t ≤ G) ∨
        (IsNth wr (count rd t + 1) u ∧ u < t)) := by
  have hwritten := onDemand_iff.mp h t ht
  have hmono : count wr (t - 1) ≤ count wr t := count_mono wr (Nat.sub_le t 1)
  have hread : count rd (t + 1) = count rd t + 1 := by rw [count_succ, ht]; rfl
  by_cases hnext : count rd t + 1 < count wr t
  · obtain ⟨G, hG, hnth⟩ := exists_nth hnext
    refine ⟨G, shown_stamps h hnth ?_, .inr ⟨hnth, hG⟩⟩
    rw [hread, Nat.add_sub_cancel]
    omega
  · refine ⟨F, shown_stamps h hF ?_, .inl ⟨rfl, fun G hG => ?_⟩⟩
    · rw [hread, Nat.add_sub_cancel]
      omega
    · rw [hG.lt_iff] at hnext
      omega

theorem length_rest_stamps (h : OnDemand wr rd) (t : Nat) :
    (stamps wr rd t).rest.length = count wr t - min (count wr (t - 1)) (count rd t + 1) := by
  rw [(came_stamps h t).rest, List.length_drop, length_pulses]

end Demand

end Sdpa.Lib.Fallthrough
