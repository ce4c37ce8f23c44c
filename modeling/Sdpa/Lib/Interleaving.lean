import Mathlib.Data.List.Induction
import Mathlib.Data.List.Nodup
import Mathlib.Logic.Function.Basic
import Mathlib.Tactic.Common

/-!
# Interleavings of threads that read, compute and write

A thread looks at a shared state once, computes a value from what it saw, and
changes the shared state once. An interleaving is any order of the steps that
keeps the order of each thread. Where no thread writes between another thread's
read and its write, the threads ran one at a time, in the order of their writes.
-/
namespace Sdpa.Lib.Interleaving

variable {σ ρ ν ι : Type}

structure Thread (σ ρ ν : Type) where
  read : σ → ρ
  compute : ρ → ν
  write : ν → σ → σ

/-- What the thread computes if it reads in this state. -/
def Thread.value (t : Thread σ ρ ν) (s : σ) : ν := t.compute (t.read s)

inductive Event (ι : Type)
  | read (i : ι)
  | compute (i : ι)
  | write (i : ι)
  deriving DecidableEq

def Event.thread : Event ι → ι
  | .read i | .compute i | .write i => i

/-- Every thread makes its three steps once, in their order. -/
structure Schedule (ι : Type) [DecidableEq ι] where
  events : List (Event ι)
  each : ∀ i, events.filter (fun e => e.thread = i) = [.read i, .compute i, .write i]

structure Config (σ ρ ν ι : Type) where
  shared : σ
  loaded : ι → Option ρ
  computed : ι → Option ν

def Config.start (s : σ) : Config σ ρ ν ι := ⟨s, fun _ => none, fun _ => none⟩

variable [DecidableEq ι]

def step (t : ι → Thread σ ρ ν) (c : Config σ ρ ν ι) : Event ι → Config σ ρ ν ι
  | .read i => { c with loaded := Function.update c.loaded i (some ((t i).read c.shared)) }
  | .compute i =>
    { c with computed := Function.update c.computed i ((c.loaded i).map (t i).compute) }
  | .write i =>
    match c.computed i with
    | none => c
    | some v => { c with shared := (t i).write v c.shared }

def run (t : ι → Thread σ ρ ν) (events : List (Event ι)) (s : σ) : Config σ ρ ν ι :=
  events.foldl (step t) (Config.start s)

/-- One thread after the other: the state, and what each thread has computed. -/
def oneAtATime (t : ι → Thread σ ρ ν) : List ι → σ × (ι → Option ν) → σ × (ι → Option ν)
  | [], r => r
  | i :: order, r =>
    oneAtATime t order
      ((t i).write ((t i).value r.1) r.1, Function.update r.2 i (some ((t i).value r.1)))

def inTurn (t : ι → Thread σ ρ ν) (order : List ι) (s : σ) : σ × (ι → Option ν) :=
  oneAtATime t order (s, fun _ => none)

/-- No thread writes between another thread's read and its write. -/
def Undisturbed (x : Schedule ι) : Prop :=
  ∀ i j, i ≠ j → ¬ List.Sublist [Event.read i, .write j, .write i] x.events

/-! ## The events of an interleaving -/

/-- What a thread has done before each of its steps. -/
def Event.earlier : Event ι → List (Event ι)
  | .read _ => []
  | .compute i => [.read i]
  | .write i => [.read i, .compute i]

namespace Schedule

variable (x : Schedule ι)

theorem filter_before {past rest : List (Event ι)} {e : Event ι}
    (h : x.events = past ++ e :: rest) :
    past.filter (fun e' => e'.thread = e.thread) = e.earlier := by
  have heach := x.each e.thread
  rw [h, List.filter_append, List.filter_cons_of_pos (by simp)] at heach
  generalize past.filter (fun e' => e'.thread = e.thread) = before at heach ⊢
  generalize rest.filter (fun e' => e'.thread = e.thread) = after at heach
  rcases before with _ | ⟨a, _ | ⟨b, _ | ⟨d, before⟩⟩⟩ <;> cases e <;>
    simp_all [Event.earlier, Event.thread]

theorem mem_of_earlier {past rest : List (Event ι)} {e e' : Event ι}
    (h : x.events = past ++ e :: rest) (he : e' ∈ e.earlier) : e' ∈ past := by
  rw [← x.filter_before h] at he
  exact List.mem_of_mem_filter he

theorem mem_events (e : Event ι) : e ∈ x.events := by
  have hmem : e ∈ x.events.filter (fun e' => e'.thread = e.thread) := by
    rw [x.each]
    cases e <;> simp [Event.thread]
  exact List.mem_of_mem_filter hmem

theorem nodup : x.events.Nodup := by
  rw [List.nodup_iff_count_le_one]
  intro e
  have hcount : x.events.count e = (x.events.filter (fun e' => e'.thread = e.thread)).count e :=
    (List.count_filter (by simp)).symm
  rw [hcount, x.each]
  cases e <;> simp [Event.thread]

/-- What follows an event of the interleaving follows the place where it occurs. -/
theorem sublist_after {past rest l : List (Event ι)} {e : Event ι}
    (h : x.events = past ++ e :: rest) (hl : List.Sublist (e :: l) x.events) :
    List.Sublist l rest := by
  have hnodup := x.nodup
  rw [h] at hl hnodup
  obtain ⟨l₁, l₂, heq, hpast, hrest⟩ := List.sublist_append_iff.mp hl
  cases l₁ with
  | nil =>
    rw [List.nil_append] at heq
    rw [← heq] at hrest
    exact List.cons_sublist_cons.mp hrest
  | cons a l₁ =>
    obtain ⟨rfl, -⟩ := List.cons.inj heq
    have hmem : e ∈ past := hpast.subset List.mem_cons_self
    exact absurd rfl ((List.nodup_append.mp hnodup).2.2 e hmem e List.mem_cons_self)

theorem not_mem_before {past rest : List (Event ι)} {e : Event ι}
    (h : x.events = past ++ e :: rest) : e ∉ past := by
  have hnodup := x.nodup
  rw [h] at hnodup
  intro hmem
  exact (List.nodup_append.mp hnodup).2.2 e hmem e List.mem_cons_self rfl

theorem not_mem_after {past rest : List (Event ι)} {e : Event ι}
    (h : x.events = past ++ e :: rest) : e ∉ rest := by
  have hnodup := x.nodup
  rw [h] at hnodup
  exact (List.nodup_cons.mp (List.nodup_append.mp hnodup).2.1).1

/-- The threads in the order of their writes. -/
def writers (events : List (Event ι)) : List ι :=
  events.filterMap fun e => match e with
    | .write i => some i
    | .read _ | .compute _ => none

omit [DecidableEq ι] in
theorem mem_writers {events : List (Event ι)} {i : ι} :
    i ∈ writers events ↔ Event.write i ∈ events := by
  rw [writers, List.mem_filterMap]
  constructor
  · rintro ⟨e, hmem, he⟩
    cases e with
    | read j => cases he
    | compute j => cases he
    | write j =>
      obtain rfl := Option.some.inj he
      exact hmem
  · intro h
    exact ⟨_, h, rfl⟩

theorem writers_nodup : (writers x.events).Nodup := by
  apply List.Nodup.filterMap _ x.nodup
  intro e e' i he he'
  cases e <;> cases e' <;> simp_all

end Schedule

/-! ## A rule for interleavings

The value a thread writes was computed from the state at its read. A property of
the events so far and the state holds at the end if each write keeps it, given
that it held at the read as well. -/

/-- Of the state in which thread `i` has read, at which the property held. -/
def AtRead (inv : List (Event ι) → σ → Prop) (past : List (Event ι)) (i : ι) (P : σ → Prop) : Prop :=
  ∃ before after s, past = before ++ .read i :: after ∧ inv before s ∧ P s

omit [DecidableEq ι] in
theorem AtRead.later {inv : List (Event ι) → σ → Prop} {past : List (Event ι)} {i : ι}
    {P Q : σ → Prop} (h : AtRead inv past i P) (e : Event ι) (hPQ : ∀ s, P s → Q s) :
    AtRead inv (past ++ [e]) i Q := by
  obtain ⟨before, after, s, rfl, hs, hP⟩ := h
  exact ⟨before, after ++ [e], s, by simp, hs, hPQ s hP⟩

structure Sound (t : ι → Thread σ ρ ν) (inv : List (Event ι) → σ → Prop)
    (past : List (Event ι)) (c : Config σ ρ ν ι) : Prop where
  shared : inv past c.shared
  loaded : ∀ i, Event.read i ∈ past → AtRead inv past i fun s => c.loaded i = some ((t i).read s)
  computed : ∀ i, Event.compute i ∈ past →
    AtRead inv past i fun s => c.computed i = some ((t i).value s)

section Rule

variable {t : ι → Thread σ ρ ν} {x : Schedule ι} {inv : List (Event ι) → σ → Prop}
  {past : List (Event ι)} {c : Config σ ρ ν ι} {i : ι}

theorem Sound.read (h : Sound t inv past c)
    (hkeep : inv past c.shared → inv (past ++ [.read i]) c.shared) :
    Sound t inv (past ++ [.read i]) (step t c (.read i)) where
  shared := hkeep h.shared
  loaded := by
    intro k hk
    by_cases hki : k = i
    · subst hki
      exact ⟨past, [], c.shared, rfl, h.shared, Function.update_self _ _ _⟩
    · exact (h.loaded k (by simpa [hki] using hk)).later _ fun s hl =>
        (Function.update_of_ne hki _ _).trans hl
  computed k hk := (h.computed k (by simpa using hk)).later _ fun _ hc => hc

theorem Sound.compute (h : Sound t inv past c) (hread : Event.read i ∈ past)
    (hkeep : inv past c.shared → inv (past ++ [.compute i]) c.shared) :
    Sound t inv (past ++ [.compute i]) (step t c (.compute i)) where
  shared := hkeep h.shared
  loaded k hk := (h.loaded k (by simpa using hk)).later _ fun _ hl => hl
  computed := by
    intro k hk
    by_cases hki : k = i
    · subst hki
      refine (h.loaded k hread).later _ fun s hl => (Function.update_self _ _ _).trans ?_
      rw [hl]
      rfl
    · exact (h.computed k (by simpa [hki] using hk)).later _ fun s hc =>
        (Function.update_of_ne hki _ _).trans hc

theorem Sound.write (h : Sound t inv past c) (hcompute : Event.compute i ∈ past)
    (hkeep : ∀ before after s, past = before ++ .read i :: after → inv before s →
      inv past c.shared → inv (past ++ [.write i]) ((t i).write ((t i).value s) c.shared)) :
    Sound t inv (past ++ [.write i]) (step t c (.write i)) := by
  obtain ⟨before, after, s, hpast, hs, hc⟩ := h.computed i hcompute
  have hstep : step t c (.write i) =
      { c with shared := (t i).write ((t i).value s) c.shared } := by
    simp only [step, hc]
  rw [hstep]
  exact ⟨hkeep before after s hpast hs h.shared,
    fun k hk => (h.loaded k (by simpa using hk)).later _ fun _ hl => hl,
    fun k hk => (h.computed k (by simpa using hk)).later _ fun _ hc => hc⟩

/-- The rule: only writes can break the property, and a write can use that the
property held where its thread has read. -/
theorem sound_run {s₀ : σ} (hstart : inv [] s₀)
    (hstay : ∀ past e rest s, x.events = past ++ e :: rest → (∀ i, e ≠ .write i) →
      inv past s → inv (past ++ [e]) s)
    (hwrite : ∀ before i after rest s s',
      x.events = (before ++ .read i :: after) ++ .write i :: rest → inv before s →
        inv (before ++ .read i :: after) s' →
          inv ((before ++ .read i :: after) ++ [.write i]) ((t i).write ((t i).value s) s')) :
    Sound t inv x.events (run t x.events s₀) := by
  have hall : ∀ past rest, x.events = past ++ rest → Sound t inv past (run t past s₀) := by
    intro past
    induction past using List.reverseRecOn with
    | nil =>
      intro rest _
      exact ⟨hstart, fun i hi => (List.not_mem_nil hi).elim, fun i hi => (List.not_mem_nil hi).elim⟩
    | append_singleton past e ih =>
      intro rest hsplit
      rw [List.append_assoc, List.singleton_append] at hsplit
      have hold := ih (e :: rest) hsplit
      have hrun : run t (past ++ [e]) s₀ = step t (run t past s₀) e := by
        rw [run, List.foldl_append]
        rfl
      rw [hrun]
      cases e with
      | read i => exact hold.read (hstay past _ rest _ hsplit (by simp))
      | compute i =>
        exact hold.compute (x.mem_of_earlier hsplit (by simp [Event.earlier]))
          (hstay past _ rest _ hsplit (by simp))
      | write i =>
        refine hold.write (x.mem_of_earlier hsplit (by simp [Event.earlier])) ?_
        rintro before after s rfl hs hnow
        exact hwrite before i after rest s _ hsplit hs hnow
  exact hall x.events [] (by simp)

end Rule

/-! ## Undisturbed interleavings -/

theorem oneAtATime_append (t : ι → Thread σ ρ ν) (order order' : List ι)
    (r : σ × (ι → Option ν)) :
    oneAtATime t (order ++ order') r = oneAtATime t order' (oneAtATime t order r) := by
  induction order generalizing r with
  | nil => rfl
  | cons i order ih => exact ih _

theorem oneAtATime_of_not_mem (t : ι → Thread σ ρ ν) {order : List ι} {i : ι} (h : i ∉ order)
    (r : σ × (ι → Option ν)) : (oneAtATime t order r).2 i = r.2 i := by
  induction order generalizing r with
  | nil => rfl
  | cons k order ih =>
    rw [List.mem_cons, not_or] at h
    rw [oneAtATime, ih h.2]
    exact Function.update_of_ne h.1 _ _

open Schedule in
theorem writers_quiet {x : Schedule ι} (hx : Undisturbed x) {before after rest : List (Event ι)}
    {i : ι} (h : x.events = (before ++ .read i :: after) ++ .write i :: rest) :
    writers (before ++ .read i :: after) = writers before := by
  have hnone : writers after = [] := by
    rw [List.eq_nil_iff_forall_not_mem]
    intro j hj
    rw [mem_writers] at hj
    have hij : i ≠ j := by
      rintro rfl
      exact x.not_mem_before h (by simp [hj])
    apply hx i j hij
    obtain ⟨a, b, rfl⟩ := List.append_of_mem hj
    rw [h]
    have hlast : List.Sublist [Event.write i] (.write i :: rest) := by simp
    have hmid : List.Sublist [Event.write j] (a ++ .write j :: b) := by simp
    have hfirst : List.Sublist [Event.read i, .write j] (before ++ .read i :: (a ++ .write j :: b)) :=
      (List.Sublist.cons_cons _ hmid).trans (List.sublist_append_right _ _)
    exact hfirst.append hlast
  have hcons : writers (Event.read i :: after) = writers after := rfl
  rw [writers, List.filterMap_append]
  change writers before ++ writers (Event.read i :: after) = _
  rw [hcons, hnone, List.append_nil]

open Schedule in
/-- Threads that are not disturbed run as if one at a time, in the order of their writes. -/
theorem run_of_undisturbed {x : Schedule ι} (hx : Undisturbed x) (t : ι → Thread σ ρ ν)
    (s : σ) : (run t x.events s).shared = (inTurn t (writers x.events) s).1 ∧
      (run t x.events s).computed = (inTurn t (writers x.events) s).2 := by
  have hsound : Sound t (fun past s' => s' = (inTurn t (writers past) s).1) x.events
      (run t x.events s) := by
    refine sound_run rfl ?_ ?_
    · intro past e rest s' _ he hs
      have hsame : writers (past ++ [e]) = writers past := by
        cases e with
        | read i => simp [writers]
        | compute i => simp [writers]
        | write i => exact absurd rfl (he i)
      rw [hsame]
      exact hs
    · rintro before i after rest s₁ s₂ hsplit rfl rfl
      have hsnoc : writers ((before ++ .read i :: after) ++ [.write i]) =
          writers before ++ [i] := by
        rw [← writers_quiet hx hsplit]
        simp [writers]
      rw [hsnoc, writers_quiet hx hsplit, inTurn, inTurn, oneAtATime_append]
      rfl
  refine ⟨hsound.shared, funext fun i => ?_⟩
  obtain ⟨before, after, s', hread, rfl, hc⟩ := hsound.computed i (x.mem_events _)
  have hmem : Event.write i ∈ after := by
    have hboth : List.Sublist [Event.read i, .write i] x.events := by
      have h3 : List.Sublist [Event.read i, .compute i, .write i] x.events := by
        rw [← x.each i]
        exact List.filter_sublist
      exact List.Sublist.trans (by simp) h3
    exact List.singleton_sublist.mp (x.sublist_after hread hboth)
  obtain ⟨a, b, rfl⟩ := List.append_of_mem hmem
  have hsplit : x.events = (before ++ .read i :: a) ++ .write i :: b := by
    rw [hread, List.append_assoc, List.cons_append]
  have hwriters : writers x.events = writers before ++ i :: writers b := by
    rw [hsplit, ← writers_quiet hx hsplit]
    simp [writers]
  have hlast : i ∉ writers b := by
    rw [mem_writers]
    exact x.not_mem_after hsplit
  rw [hc, hwriters, inTurn, inTurn, oneAtATime_append, oneAtATime, oneAtATime_of_not_mem t hlast]
  simp only [Function.update_self]

/-! ## A disturbed interleaving -/

/-- Where a schedule is split at the read and the write of `i`, a write that is ordered
between them is in the middle part. -/
theorem Schedule.mem_between {x : Schedule ι} {i j : ι} (hij : i ≠ j)
    (hx : List.Sublist [Event.read i, .write j, .write i] x.events)
    {before after rest : List (Event ι)}
    (hsplit : x.events = (before ++ .read i :: after) ++ .write i :: rest) :
    Event.write j ∉ before ∧ Event.write j ∈ after := by
  have hread : x.events = before ++ .read i :: (after ++ .write i :: rest) := by
    rw [hsplit, List.append_assoc, List.cons_append]
  have hmem : Event.write j ∈ after ++ .write i :: rest :=
    (x.sublist_after hread hx).subset (by simp)
  constructor
  · obtain ⟨a, b, hab⟩ := List.append_of_mem hmem
    have hwrite : x.events = (before ++ .read i :: a) ++ .write j :: b := by
      rw [hread, hab, List.append_assoc, List.cons_append]
    intro h
    exact x.not_mem_before hwrite (by simp [h])
  · by_contra hnot
    have hlate : Event.write j ∈ rest := by
      simp only [List.mem_append, List.mem_cons] at hmem
      rcases hmem with h | h | h
      · exact absurd h hnot
      · exact absurd (Event.write.inj h).symm hij
      · exact h
    -- but then the write of `i`, which comes later still, is there twice
    obtain ⟨a, b, rfl⟩ := List.append_of_mem hlate
    have hwrite : x.events =
        ((before ++ .read i :: after) ++ .write i :: a) ++ .write j :: b := by
      rw [List.append_assoc, List.cons_append]
      exact hsplit
    have htwo : List.Sublist [Event.write j, .write i] x.events :=
      (List.sublist_cons_self _ _).trans hx
    have hagain : Event.write i ∈ b := List.singleton_sublist.mp (x.sublist_after hwrite htwo)
    exact x.not_mem_after hsplit (by simp [hagain])

/-- A write between the read and the write of thread `i` is lost, if both threads
take a state with `first` to one with `second` and the others change nothing. -/
theorem lost_update {x : Schedule ι} {t : ι → Thread σ ρ ν} {i j : ι} (hij : i ≠ j)
    (hx : List.Sublist [Event.read i, .write j, .write i] x.events) {first second : σ → Prop}
    (hidle : ∀ k, k ≠ i → k ≠ j → ∀ s s', first s ∨ second s →
      (first s' → first ((t k).write ((t k).value s) s')) ∧
        (second s' → second ((t k).write ((t k).value s) s')))
    (hj : ∀ s s', first s → first s' → second ((t j).write ((t j).value s) s'))
    (hi : ∀ s s', first s → second s' → second ((t i).write ((t i).value s) s'))
    {s₀ : σ} (hstart : first s₀) : second (run t x.events s₀).shared := by
  have hsound : Sound t
      (fun past s => (Event.write j ∉ past → first s) ∧ (Event.write j ∈ past → second s))
      x.events (run t x.events s₀) := by
    refine sound_run ⟨fun _ => hstart, fun h => (List.not_mem_nil h).elim⟩ ?_ ?_
    · intro past e rest s _ he hs
      have hsame : Event.write j ∈ past ++ [e] ↔ Event.write j ∈ past := by
        simp [(he j).symm]
      rw [hsame]
      exact hs
    · intro before k after rest s s' hsplit hs hs'
      generalize hpast : before ++ Event.read k :: after = past at hsplit hs' ⊢
      have hbefore : Event.write j ∈ before → Event.write j ∈ past := by
        intro h
        rw [← hpast]
        exact List.mem_append_left _ h
      by_cases hkj : k = j
      · subst hkj
        have hnow := x.not_mem_before hsplit
        have hthen : Event.write k ∉ before := fun h => hnow (hbefore h)
        refine ⟨fun h => absurd (by simp) h, fun _ => hj s s' (hs.1 hthen) (hs'.1 hnow)⟩
      have hsame : Event.write j ∈ past ++ [.write k] ↔ Event.write j ∈ past := by
        simp [Ne.symm hkj]
      rw [hsame]
      by_cases hki : k = i
      · subst hki
        obtain ⟨hthen, hnow⟩ := Schedule.mem_between hij hx (hpast ▸ hsplit)
        have hnow : Event.write j ∈ past := by
          rw [← hpast]
          exact List.mem_append_right before (List.mem_cons_of_mem _ hnow)
        exact ⟨fun h => absurd hnow h, fun _ => hi s s' (hs.1 hthen) (hs'.2 hnow)⟩
      · have hseen : first s ∨ second s := by
          by_cases h : Event.write j ∈ before
          · exact .inr (hs.2 h)
          · exact .inl (hs.1 h)
        have hkeep := hidle k hki hkj s s' hseen
        exact ⟨fun h => hkeep.1 (hs'.1 h), fun h => hkeep.2 (hs'.2 h)⟩
  exact hsound.shared.2 (x.mem_events _)

end Sdpa.Lib.Interleaving
