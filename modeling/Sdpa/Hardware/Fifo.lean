import Mathlib.Logic.Function.Basic
import Sdpa.Lib.Fallthrough

/-!
# The FIFOs

`small_fifo` is a ring of `2 ** MAX_DEPTH_BITS` words with a registered output:
a word that is read appears in the next cycle. `fallthrough_small_fifo` reads the
ring ahead, so that its first word is at the output by itself. The ring holds a
list as long as it is not written while full, and the fall-through FIFO is then
the queue of `Lib.Fallthrough`.
-/
namespace Sdpa.Hardware

open Lib.Clocked Lib.Fallthrough

variable {α : Type} {bits : Nat}

/-- The registers of `small_fifo`. -/
structure SmallFifo (α : Type) (bits : Nat) where
  queue : BitVec bits → α
  rdPtr : BitVec bits
  wrPtr : BitVec bits
  depth : BitVec (bits + 1)
  dout : α

namespace SmallFifo

def full (f : SmallFifo α bits) : Bool := f.depth.toNat = 2 ^ bits

def nearlyFull (f : SmallFifo α bits) : Bool := 2 ^ bits - 1 ≤ f.depth.toNat

def isEmpty (f : SmallFifo α bits) : Bool := f.depth = 0

def step (reset : Bool) (din : α) (wrEn rdEn : Bool) (f : SmallFifo α bits) :
    SmallFifo α bits where
  queue := if wrEn then Function.update f.queue f.wrPtr din else f.queue
  dout := if rdEn then f.queue f.rdPtr else f.dout
  wrPtr := if reset then 0 else if wrEn then f.wrPtr + 1 else f.wrPtr
  rdPtr := if reset then 0 else if rdEn then f.rdPtr + 1 else f.rdPtr
  depth :=
    if reset then 0
    else if wrEn && !rdEn then f.depth + 1
    else if !wrEn && rdEn then f.depth - 1
    else f.depth

/-- The words in the ring, oldest first. -/
structure Holds (f : SmallFifo α bits) (xs : List α) : Prop where
  depth : f.depth.toNat = xs.length
  room : xs.length ≤ 2 ^ bits
  wrPtr : f.wrPtr = f.rdPtr + BitVec.ofNat bits xs.length
  word : ∀ i (h : i < xs.length), f.queue (f.rdPtr + BitVec.ofNat bits i) = xs[i]

theorem Holds.isEmpty {f : SmallFifo α bits} {xs : List α} (h : f.Holds xs) :
    f.isEmpty = xs.isEmpty := by
  have hzero : f.depth = 0 ↔ xs = [] := by
    rw [← List.length_eq_zero_iff, ← h.depth]
    exact ⟨fun h0 => by rw [h0]; rfl, fun h0 => BitVec.eq_of_toNat_eq (by rw [h0]; rfl)⟩
  rw [SmallFifo.isEmpty, Bool.eq_iff_iff, decide_eq_true_eq, hzero, List.isEmpty_iff]

theorem Holds.full {f : SmallFifo α bits} {xs : List α} (h : f.Holds xs) :
    f.full = decide (xs.length = 2 ^ bits) := by rw [SmallFifo.full, h.depth]

theorem holds_nil {f : SmallFifo α bits} (hdepth : f.depth = 0) (hptr : f.wrPtr = f.rdPtr) :
    f.Holds [] where
  depth := by rw [hdepth]; rfl
  room := by simp
  wrPtr := by rw [hptr]; simp
  word i hi := by simp at hi

/-! A cycle without reset takes a word out, puts one in, or both, in that order. -/

def pop (f : SmallFifo α bits) : SmallFifo α bits :=
  { f with rdPtr := f.rdPtr + 1, depth := f.depth - 1, dout := f.queue f.rdPtr }

def push (din : α) (f : SmallFifo α bits) : SmallFifo α bits :=
  { f with
    queue := Function.update f.queue f.wrPtr din, wrPtr := f.wrPtr + 1, depth := f.depth + 1 }

theorem step_eq (din : α) (wrEn rdEn : Bool) (f : SmallFifo α bits) :
    f.step false din wrEn rdEn =
      (if wrEn then push din else id) ((if rdEn then pop else id) f) := by
  cases wrEn <;> cases rdEn <;> simp [step, push, pop, BitVec.sub_add_cancel]

theorem slot_succ (p : BitVec bits) (i : Nat) :
    p + 1 + BitVec.ofNat bits i = p + BitVec.ofNat bits (i + 1) := by
  rw [Nat.add_comm i, BitVec.ofNat_add, BitVec.add_assoc]
  rfl

/-- Slots of the ring less than a turn apart are different. -/
theorem slot_ne (p : BitVec bits) {i j : Nat} (hij : i < j) (hj : j < i + 2 ^ bits) :
    p + BitVec.ofNat bits i ≠ p + BitVec.ofNat bits j := by
  intro h
  have hof : BitVec.ofNat bits i = BitVec.ofNat bits j := by simpa using h
  have hmod : i % 2 ^ bits = j % 2 ^ bits := by simpa using congrArg BitVec.toNat hof
  have hdvd : 2 ^ bits ∣ j - i := Nat.dvd_of_mod_eq_zero (Nat.sub_mod_eq_zero_of_mod_eq hmod.symm)
  have := Nat.le_of_dvd (by omega) hdvd
  omega

theorem Holds.pop {f : SmallFifo α bits} {x : α} {xs : List α} (h : f.Holds (x :: xs)) :
    f.pop.Holds xs ∧ f.pop.dout = x := by
  have hdepth := h.depth
  have hroom := h.room
  simp only [List.length_cons] at hdepth hroom
  refine ⟨⟨?_, by omega, ?_, fun i hi => ?_⟩, ?_⟩
  · have hlt := f.depth.isLt
    show (f.depth - 1).toNat = xs.length
    rw [BitVec.toNat_sub_of_le (BitVec.le_def.mpr (by rw [hdepth]; simp))]
    simp [hdepth]
  · show f.wrPtr = f.rdPtr + 1 + BitVec.ofNat bits xs.length
    rw [h.wrPtr, List.length_cons, slot_succ]
  · show f.queue (f.rdPtr + 1 + BitVec.ofNat bits i) = xs[i]
    rw [slot_succ]
    exact h.word (i + 1) (Nat.succ_lt_succ hi)
  · have hword := h.word 0 (Nat.succ_pos _)
    rw [BitVec.add_zero] at hword
    exact hword

theorem Holds.push {f : SmallFifo α bits} {xs : List α} (h : f.Holds xs) (din : α)
    (hroom : xs.length < 2 ^ bits) : (f.push din).Holds (xs ++ [din]) := by
  have hlen : (xs ++ [din]).length = xs.length + 1 := by simp
  refine ⟨?_, by omega, ?_, fun i hi => ?_⟩
  · show (f.depth + 1).toNat = (xs ++ [din]).length
    rw [BitVec.toNat_add_of_lt (by rw [h.depth]; simp; omega), h.depth, hlen]
    simp
  · show f.wrPtr + 1 = f.rdPtr + BitVec.ofNat bits (xs ++ [din]).length
    rw [hlen, BitVec.ofNat_add, ← BitVec.add_assoc, ← h.wrPtr]
    rfl
  · show Function.update f.queue f.wrPtr din (f.rdPtr + BitVec.ofNat bits i) = (xs ++ [din])[i]
    rw [h.wrPtr]
    rcases Nat.lt_or_eq_of_le (show i ≤ xs.length by omega) with hlt | rfl
    · rw [Function.update_of_ne (slot_ne f.rdPtr hlt (by omega)), h.word i hlt,
        List.getElem_append_left hlt]
    · rw [Function.update_self]
      simp

/-- One cycle of the ring, on the words it holds. -/
theorem Holds.step {f : SmallFifo α bits} {xs : List α} (h : f.Holds xs) (din : α)
    {wrEn rdEn : Bool} (hread : rdEn = true → xs ≠ [])
    (hroom : wrEn = true → xs.length < 2 ^ bits ∨ rdEn = true) :
    (f.step false din wrEn rdEn).Holds
      ((if rdEn then xs.tail else xs) ++ if wrEn then [din] else []) := by
  rw [step_eq]
  cases rdEn with
  | false =>
    cases wrEn with
    | false => simpa using h
    | true => exact h.push din (by simpa using hroom)
  | true =>
    obtain ⟨x, xs, rfl⟩ := List.exists_cons_of_ne_nil (hread rfl)
    have hroom' := h.room
    rw [List.length_cons] at hroom'
    cases wrEn with
    | false => simpa using h.pop.1
    | true => exact h.pop.1.push din (by omega)

section Trajectory

variable {f : Nat → SmallFifo α bits} {w : Nat → α} {wr rd : Nat → Bool}

/-- A ring that starts empty, is read only when it is not empty and written only with room in it
holds the words that were written and not yet read. -/
theorem holds_pulses (hf : ∀ t, f (t + 1) = (f t).step false (w t) (wr t) (rd t))
    (hdepth : (f 0).depth = 0) (hptr : (f 0).wrPtr = (f 0).rdPtr)
    (hdemand : ∀ t, rd t = true → (f t).isEmpty = false) {t : Nat}
    (hroom : ∀ u, u < t → wr u = true → count wr u < count rd u + 2 ^ bits) :
    count rd t ≤ count wr t ∧ (f t).Holds (((pulses wr t).drop (count rd t)).map w) := by
  induction t with
  | zero => exact ⟨Nat.le_refl _, holds_nil hdepth hptr⟩
  | succ t ih =>
    obtain ⟨hle, hholds⟩ := ih fun u hu => hroom u (by omega)
    have hlen : (((pulses wr t).drop (count rd t)).map w).length = count wr t - count rd t := by
      rw [List.length_map, List.length_drop, length_pulses]
    have hread : rd t = true → ((pulses wr t).drop (count rd t)).map w ≠ [] := by
      intro hrd hnil
      have hempty := hdemand t hrd
      rw [hholds.isEmpty, hnil] at hempty
      cases hempty
    have hlt : rd t = true → count rd t < count wr t := by
      intro hrd
      have := List.length_pos_of_ne_nil (hread hrd)
      omega
    have hstep := hholds.step (w t) hread fun (hwr : wr t = true) =>
      .inl (by have := hroom t (by omega) hwr; omega)
    have hle' : count rd (t + 1) ≤ count wr t := by
      rw [count_succ]
      cases hrd : rd t with
      | false => exact hle
      | true => exact hlt hrd
    refine ⟨Nat.le_trans hle' (count_mono wr (Nat.le_succ t)), ?_⟩
    have hdrop : ((pulses wr (t + 1)).drop (count rd (t + 1))).map w =
        (if rd t then (((pulses wr t).drop (count rd t)).map w).tail
          else ((pulses wr t).drop (count rd t)).map w) ++ if wr t then [w t] else [] := by
      rw [drop_pulses_succ hle', List.map_append, count_succ]
      cases rd t <;> cases wr t <;> simp [List.tail_drop]
    rw [hf t, hdrop]
    exact hstep

/-- A ring that is never written while full is written only with room in it. -/
theorem room_of_not_full (hf : ∀ t, f (t + 1) = (f t).step false (w t) (wr t) (rd t))
    (hdepth : (f 0).depth = 0) (hptr : (f 0).wrPtr = (f 0).rdPtr)
    (hdemand : ∀ t, rd t = true → (f t).isEmpty = false)
    (hfull : ∀ t, wr t = true → (f t).full = false) (t : Nat) (ht : wr t = true) :
    count wr t < count rd t + 2 ^ bits := by
  induction t using Nat.strong_induction_on with
  | h t ih =>
    obtain ⟨hle, hholds⟩ := holds_pulses hf hdepth hptr hdemand (t := t) ih
    have hroom := hholds.room
    have hnot := hfull t ht
    rw [hholds.full, decide_eq_false_iff_not] at hnot
    rw [List.length_map, List.length_drop, length_pulses] at hroom hnot
    omega

/-- The word at the output in the cycle after a read. -/
theorem dout_of_read (hf : ∀ t, f (t + 1) = (f t).step false (w t) (wr t) (rd t))
    (hdepth : (f 0).depth = 0) (hptr : (f 0).wrPtr = (f 0).rdPtr)
    (hdemand : ∀ t, rd t = true → (f t).isEmpty = false)
    (hroom : ∀ t, wr t = true → count wr t < count rd t + 2 ^ bits) {t : Nat}
    (ht : rd t = true) :
    ∃ F, F < t ∧ IsNth wr (count rd t) F ∧ (f (t + 1)).dout = w F := by
  obtain ⟨hle, hholds⟩ := holds_pulses hf hdepth hptr hdemand (t := t) fun u _ => hroom u
  have hlt : count rd t < count wr t := by
    have hempty := hdemand t ht
    rw [hholds.isEmpty, List.isEmpty_eq_false_iff_exists_mem] at hempty
    obtain ⟨x, hx⟩ := hempty
    have := List.length_pos_of_mem hx
    rw [List.length_map, List.length_drop, length_pulses] at this
    omega
  obtain ⟨F, hF, hnth⟩ := exists_nth hlt
  refine ⟨F, hF, hnth, ?_⟩
  have hget : (pulses wr t)[count rd t]? = some F := by
    obtain ⟨G, hG⟩ : ∃ G, (pulses wr t)[count rd t]? = some G :=
      ⟨_, List.getElem?_eq_getElem (by rwa [length_pulses])⟩
    rw [hG, (isNth_of_pulses hG).unique hnth]
  have hcons : (pulses wr t).drop (count rd t) = F :: (pulses wr t).drop (count rd t + 1) := by
    rw [List.drop_eq_getElem?_toList_append, hget]
    rfl
  rw [hcons] at hholds
  have hdout : (f t).queue (f t).rdPtr = w F := hholds.pop.2
  rw [hf t, ht]
  exact hdout

end Trajectory

end SmallFifo

/-- The registers of `fallthrough_small_fifo`. -/
structure FallthroughSmallFifo (α : Type) (bits : Nat) where
  fifo : SmallFifo α bits
  empty : Bool

namespace FallthroughSmallFifo

def dout (f : FallthroughSmallFifo α bits) : α := f.fifo.dout

def full (f : FallthroughSmallFifo α bits) : Bool := f.fifo.full

def nearlyFull (f : FallthroughSmallFifo α bits) : Bool := f.fifo.nearlyFull

def fifoRdEn (rdEn : Bool) (f : FallthroughSmallFifo α bits) : Bool :=
  match f.empty with
  | true => !f.fifo.isEmpty
  | false => rdEn && !f.fifo.isEmpty

def emptyNxt (rdEn : Bool) (f : FallthroughSmallFifo α bits) : Bool :=
  match f.empty with
  | true => f.fifo.isEmpty
  | false => rdEn && f.fifo.isEmpty

def step (reset : Bool) (din : α) (wrEn rdEn : Bool) (f : FallthroughSmallFifo α bits) :
    FallthroughSmallFifo α bits where
  fifo := f.fifo.step reset din wrEn (f.fifoRdEn rdEn)
  empty := if reset then true else f.emptyNxt rdEn

/-- The FIFO as the queue of its words. -/
structure Shows (f : FallthroughSmallFifo α bits) (q : Queue α) : Prop where
  empty : f.empty = q.empty
  rest : f.fifo.Holds q.rest
  dout : ∀ x, q.shown = some x → f.dout = x

theorem Shows.fifoRdEn {f : FallthroughSmallFifo α bits} {q : Queue α} (h : f.Shows q)
    (rdEn : Bool) : f.fifoRdEn rdEn = q.pulls rdEn := by
  rw [FallthroughSmallFifo.fifoRdEn, h.empty, h.rest.isEmpty, Queue.pulls]
  cases q.empty <;> rfl

/-- One cycle of the FIFO is one step of the queue, if the ring is not written while full. -/
theorem Shows.step {f : FallthroughSmallFifo α bits} {q : Queue α} (h : f.Shows q) (din : α)
    {wrEn : Bool} (rdEn : Bool)
    (hroom : wrEn = true → q.rest.length < 2 ^ bits ∨ q.pulls rdEn = true) :
    (f.step false din wrEn rdEn).Shows (q.step (if wrEn then some din else none) rdEn) := by
  have hrd := h.fifoRdEn rdEn
  obtain ⟨shown, empty, rest⟩ := q
  have hempty : f.empty = empty := h.empty
  have hisEmpty : f.fifo.isEmpty = rest.isEmpty := h.rest.isEmpty
  have hlist : (if wrEn then some din else none).toList = if wrEn then [din] else [] := by
    cases wrEn <;> rfl
  have hread : f.fifoRdEn rdEn = true → rest ≠ [] := by
    rintro heq rfl
    rw [hrd, Queue.pulls] at heq
    simp at heq
  rw [← hrd] at hroom
  have hrest := h.rest.step din hread hroom
  cases rest with
  | nil =>
    have hfifo : f.fifoRdEn rdEn = false := by rw [hrd]; simp [Queue.pulls]
    refine ⟨?_, ?_, fun x hx => ?_⟩
    · show f.emptyNxt rdEn = (empty || rdEn)
      rw [emptyNxt, hempty, hisEmpty]
      cases empty <;> simp
    · rw [hfifo] at hrest
      simpa [Queue.step, FallthroughSmallFifo.step, hlist, hfifo] using hrest
    · have hdout := h.dout x hx
      simpa [FallthroughSmallFifo.step, FallthroughSmallFifo.dout, SmallFifo.step, hfifo] using hdout
  | cons y ys =>
    have hnext : f.emptyNxt rdEn = false := by
      rw [emptyNxt, hempty, hisEmpty]
      cases empty <;> simp
    have hstep : f.fifoRdEn rdEn = (empty || rdEn) := by rw [hrd]; simp [Queue.pulls]
    rw [hstep] at hrest
    cases hpull : (empty || rdEn) with
    | false =>
      rw [hpull] at hrest hstep
      refine ⟨?_, ?_, fun x hx => ?_⟩
      · simpa [FallthroughSmallFifo.step, Queue.step, hpull] using hnext
      · simpa [FallthroughSmallFifo.step, Queue.step, hpull, hstep, hlist] using hrest
      · have hdout := h.dout x (by simpa [Queue.step, hpull] using hx)
        simpa [FallthroughSmallFifo.step, FallthroughSmallFifo.dout, SmallFifo.step, hstep]
          using hdout
    | true =>
      rw [hpull] at hrest hstep
      refine ⟨?_, ?_, fun x hx => ?_⟩
      · simpa [FallthroughSmallFifo.step, Queue.step, hpull] using hnext
      · simpa [FallthroughSmallFifo.step, Queue.step, hpull, hstep, hlist] using hrest
      · obtain rfl : y = x := by simpa [Queue.step, hpull] using hx
        have hdout : f.fifo.queue f.fifo.rdPtr = y := h.rest.pop.2
        simpa [FallthroughSmallFifo.step, FallthroughSmallFifo.dout, SmallFifo.step, hstep]
          using hdout

/-- A FIFO with no word in it. -/
structure Vacant (f : FallthroughSmallFifo α bits) : Prop where
  empty : f.empty = true
  depth : f.fifo.depth = 0
  ptr : f.fifo.wrPtr = f.fifo.rdPtr

theorem vacant_of_reset (din : α) (wrEn rdEn : Bool) (f : FallthroughSmallFifo α bits) :
    (f.step true din wrEn rdEn).Vacant := ⟨rfl, rfl, rfl⟩

theorem Vacant.step {f : FallthroughSmallFifo α bits} (h : f.Vacant) (din : α) (rdEn : Bool) :
    (f.step false din false rdEn).Vacant := by
  have hempty : f.fifo.isEmpty = true := by rw [SmallFifo.isEmpty, h.depth]; simp
  have hrd : f.fifoRdEn rdEn = false := by rw [FallthroughSmallFifo.fifoRdEn, h.empty, hempty]; rfl
  refine ⟨?_, ?_, ?_⟩
  · show f.emptyNxt rdEn = true
    rw [emptyNxt, h.empty]
    exact hempty
  · simpa [FallthroughSmallFifo.step, SmallFifo.step, hrd] using h.depth
  · simpa [FallthroughSmallFifo.step, SmallFifo.step, hrd] using h.ptr

/-- A FIFO as reset leaves it, with `x` in every register. -/
def start (x : α) : FallthroughSmallFifo α bits := ⟨⟨fun _ => x, 0, 0, 0, x⟩, true⟩

theorem Vacant.shows {f : FallthroughSmallFifo α bits} (h : f.Vacant) : f.Shows Queue.init where
  empty := h.empty
  rest := SmallFifo.holds_nil h.depth h.ptr
  dout x hx := by cases hx

section Trajectory

variable {f : Nat → FallthroughSmallFifo α bits} {w : Nat → α} {wr rd : Nat → Bool}

/-- No word is lost up to cycle `t`: the ring is written only with room in it. -/
def Roomy (bits : Nat) (wr rd : Nat → Bool) (t : Nat) : Prop :=
  ∀ u, u < t → wr u = true →
    (stamps wr rd u).rest.length < 2 ^ bits ∨ (stamps wr rd u).pulls (rd u) = true

/-- A FIFO that starts empty and does not overflow shows the word written in the cycle that the
queue of write cycles shows. -/
theorem shows_stamps (hf : ∀ t, f (t + 1) = (f t).step false (w t) (wr t) (rd t))
    (hstart : (f 0).Vacant) {t : Nat} (hroom : Roomy bits wr rd t) :
    (f t).Shows ((stamps wr rd t).map w) := by
  induction t with
  | zero => exact hstart.shows
  | succ t ih =>
    have hshows := ih fun u hu => hroom u (by omega)
    have hmap : (if wr t then some (w t) else none) = (if wr t then some t else none).map w := by
      cases wr t <;> rfl
    rw [hf t, stamps, ← Queue.step_map, ← hmap]
    refine hshows.step (w t) (rd t) fun hw => ?_
    rw [Queue.length_rest_map, Queue.pulls_map]
    exact hroom t (by omega) hw

theorem dout_of_shown (hf : ∀ t, f (t + 1) = (f t).step false (w t) (wr t) (rd t))
    (hstart : (f 0).Vacant) {t u : Nat} (hroom : Roomy bits wr rd t)
    (hshown : (stamps wr rd t).shown = some u) : (f t).dout = w u :=
  (shows_stamps hf hstart hroom).dout (w u) (by rw [Queue.map, hshown]; rfl)

/-- A word is written while the ring is full and nothing is taken out of it. -/
def overflows (wrEn rdEn : Bool) (f : FallthroughSmallFifo α bits) : Bool :=
  wrEn && f.full && !f.fifoRdEn rdEn

theorem roomy_of_not_overflows (hf : ∀ t, f (t + 1) = (f t).step false (w t) (wr t) (rd t))
    (hstart : (f 0).Vacant) (h : ∀ t, (f t).overflows (wr t) (rd t) = false) (t : Nat) :
    Roomy bits wr rd t := by
  induction t with
  | zero => exact fun u hu => by omega
  | succ t ih =>
    intro u hu hwr
    by_cases hlt : u < t
    · exact ih u hlt hwr
    obtain rfl : u = t := by omega
    have hshows := shows_stamps hf hstart ih
    have hno := h u
    have hlen := hshows.rest.room
    rw [overflows, hwr, hshows.fifoRdEn, full, hshows.rest.full, Bool.true_and, Queue.pulls_map,
      Queue.length_rest_map] at hno
    rw [Queue.length_rest_map] at hlen
    cases hpull : (stamps wr rd u).pulls (rd u) with
    | true => exact .inr rfl
    | false =>
      rw [hpull, Bool.not_false, Bool.and_true, decide_eq_false_iff_not] at hno
      exact .inl (Nat.lt_of_le_of_ne hlen hno)

theorem not_overflows_of_roomy (hf : ∀ t, f (t + 1) = (f t).step false (w t) (wr t) (rd t))
    (hstart : (f 0).Vacant) (hroom : ∀ t, Roomy bits wr rd t) (t : Nat) :
    (f t).overflows (wr t) (rd t) = false := by
  have hshows := shows_stamps hf hstart (hroom t)
  rw [overflows, hshows.fifoRdEn, full, hshows.rest.full, Queue.pulls_map, Queue.length_rest_map]
  cases hwr : wr t with
  | false => rfl
  | true =>
    rcases hroom (t + 1) t (by omega) hwr with hlt | hpull
    · rw [decide_eq_false (by omega)]
      rfl
    · rw [hpull, Bool.not_true, Bool.and_false]

/-- Reads of words that are there and writes with room for a word: nothing is lost. -/
theorem roomy_of_lt (hread : ∀ t, rd t = true → count rd t < count wr (t - 1))
    (hroom : ∀ t, wr t = true → count wr t < count rd t + 2 ^ bits) (t : Nat) :
    Roomy bits wr rd t := by
  intro u _ hwr
  obtain ⟨m, hline⟩ := inLine_of_lt hread u
  have := hline.length_rest_le
  have := hroom u hwr
  exact .inl (by omega)

/-- The word at the output is not in the ring, so that one more word has room. -/
theorem roomy_of_onDemand (hbits : 0 < bits) (hdemand : OnDemand wr rd)
    (hroom : ∀ t, wr t = true → count wr t ≤ count rd t + 2 ^ bits) (t : Nat) :
    Roomy bits wr rd t := by
  intro u _ hwr
  have hpow : 2 ≤ 2 ^ bits := Nat.le_self_pow (by omega) 2
  have hroom := hroom u hwr
  have hlast := count_le_add_sub wr (Nat.sub_le u 1)
  refine .inl ?_
  rw [length_rest_stamps hdemand]
  omega

/-- Nothing is lost up to cycle `t` either, if the reader waits for the FIFO. -/
theorem roomy_of_demand (hf : ∀ t, f (t + 1) = (f t).step false (w t) (wr t) (rd t))
    (hstart : (f 0).Vacant) (hdemand : ∀ t, rd t = true → (f t).empty = false) {t : Nat}
    (hroom : ∀ u, u < t → wr u = true → count wr u < count rd u + 2 ^ bits) :
    Roomy bits wr rd t ∧ ∃ m, InLine wr (count rd t) m t (stamps wr rd t) := by
  induction t with
  | zero => exact ⟨fun u hu => by omega, 0, inLine_init wr⟩
  | succ t ih =>
    obtain ⟨hroomy, m, hline⟩ := ih fun u hu => hroom u (by omega)
    have hshown : rd t = true → (stamps wr rd t).empty = false := by
      intro hrd
      rw [← hdemand t hrd, (shows_stamps hf hstart hroomy).empty]
      rfl
    refine ⟨fun u hu hwr => ?_, ?_⟩
    · by_cases hut : u < t
      · exact hroomy u hut hwr
      obtain rfl : u = t := by omega
      have := hline.length_rest_le
      have := hroom u (by omega) hwr
      exact .inl (by omega)
    · rw [count_succ]
      exact hline.step hshown

/-- With room for a word the ring is not full. -/
theorem not_full_of_lt (hf : ∀ t, f (t + 1) = (f t).step false (w t) (wr t) (rd t))
    (hstart : (f 0).Vacant) (hread : ∀ t, rd t = true → count rd t < count wr (t - 1)) {t : Nat}
    (hroomy : Roomy bits wr rd t) (hlt : count wr t < count rd t + 2 ^ bits) :
    (f t).full = false := by
  obtain ⟨m, hline⟩ := inLine_of_lt hread t
  have := hline.length_rest_le
  rw [full, (shows_stamps hf hstart hroomy).rest.full, Queue.length_rest_map]
  exact decide_eq_false (by omega)

/-- As many words as the ring has slots always have room. -/
theorem roomy_of_count (h : ∀ t, count wr t ≤ 2 ^ bits) (t : Nat) : Roomy bits wr rd t := by
  intro u hu hwr
  have hlen := length_rest_stamps_le wr rd u
  have hcount := h (u + 1)
  rw [count_succ, hwr, if_pos rfl] at hcount
  exact .inl (by omega)

/-- The word at the output when it is read, when the reader waits for words. -/
theorem dout_of_demand (hf : ∀ t, f (t + 1) = (f t).step false (w t) (wr t) (rd t))
    (hstart : (f 0).Vacant) {t F : Nat} (hroom : Roomy bits wr rd t) (hdemand : OnDemand wr rd)
    (ht : rd t = true) (hF : IsNth wr (count rd t) F) : (f t).dout = w F := by
  have hwritten := onDemand_iff.mp hdemand t ht
  exact dout_of_shown hf hstart hroom (shown_stamps hdemand hF (by omega))

/-- The word at the output in the cycle after a read, when the reader waits for words. -/
theorem dout_after_demand (hf : ∀ t, f (t + 1) = (f t).step false (w t) (wr t) (rd t))
    (hstart : (f 0).Vacant) (hroom : ∀ t, Roomy bits wr rd t) (hdemand : OnDemand wr rd) {t F : Nat}
    (ht : rd t = true) (hF : IsNth wr (count rd t) F) :
    ∃ u, (f (t + 1)).dout = w u ∧
      ((u = F ∧ ∀ G, IsNth wr (count rd t + 1) G → t ≤ G) ∨
        (IsNth wr (count rd t + 1) u ∧ u < t)) := by
  obtain ⟨u, hshown, hu⟩ := shown_after_demand hdemand ht hF
  exact ⟨u, dout_of_shown hf hstart (hroom (t + 1)) hshown, hu⟩

/-- The word at the output in the cycle after the read of the word of cycle `T`, when every word
is read `L` cycles after it was written: that word or the one written next before the read. -/
theorem dout_after_read {d L : Nat} (hd : 2 ≤ d) (hL : 2 ≤ L) (hLd : L < 2 * d) (hbits : 0 < bits)
    (hwr : Spaced d wr)
    (hf : ∀ t, f (t + 1) = (f t).step false (w t) (wr t) (ago L wr t))
    (hstart : (f 0).Vacant) {T : Nat} (hT : wr T = true) :
    ∃ u, (f (T + L + 1)).dout = w u ∧ wr u = true ∧ T ≤ u ∧ u < T + L ∧
      ∀ v, T < v → v < T + L → wr v = true → v = u := by
  obtain ⟨u, hshown, hu⟩ := shown_after_read hd hL hLd hwr hT
  refine ⟨u, dout_of_shown hf hstart (fun v _ _ => .inl ?_) hshown, hu⟩
  have hlen := (phase_stamps hd hL hLd hwr v).length_rest_le
  have hpow : 2 ≤ 2 ^ bits := Nat.le_self_pow (by omega) 2
  omega

end Trajectory

end FallthroughSmallFifo
end Sdpa.Hardware
