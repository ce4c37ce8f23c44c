import Sdpa.Hardware.InputArbiter

/-!
# What the input arbiter lets through

Every packet comes out if the next stage is ready again and again and no sender stops in
the middle of a packet: a turn ends, and the pointer comes round to every queue that has
a word waiting. On its way it stops at most once at each of the other queues.
-/
namespace Sdpa.Hardware.InputArbiter

open Lib.Clocked Lib.Streams Lib.Frames

variable {i : ArbiterIn} {s : InputArbiter}

/-! ## The state machine -/

theorem curQueuePlus1_eq : s.curQueuePlus1 = s.curQueue + 1 := by
  rw [curQueuePlus1]
  generalize s.curQueue = q
  revert q
  decide

theorem rdCur_eq (hrdy : i.outRdy = true) (heop : eop i s = false) : rdCur i s = !s.empty := by
  rw [rdCur, hrdy, heop, Bool.true_and, Bool.not_false, Bool.and_true]

theorem eop_of_idle (h : s.state = .idle) : eop i s = false := by
  rw [eop, h]
  rfl

theorem process_of_eop (h : eop i s = true) :
    (process i s).state = .idle ∧ (process i s).curQueue = s.curQueue + 1 := by
  cases hstate : s.state with
  | idle =>
    rw [eop_of_idle hstate] at h
    cases h
  | wrPkt =>
    rw [process, hstate]
    simp only [h, if_true]
    exact ⟨trivial, curQueuePlus1_eq⟩

theorem process_of_rdCur (h : rdCur i s = true) :
    (process i s).state = .wrPkt ∧ (process i s).curQueue = s.curQueue := by
  have hfacts := h
  rw [rdCur, Bool.and_eq_true, Bool.and_eq_true, Bool.not_eq_true', Bool.not_eq_true'] at hfacts
  cases hstate : s.state with
  | idle =>
    rw [process, hstate]
    simp [h, hfacts.1.2]
  | wrPkt =>
    rw [process, hstate]
    simp [hfacts.2]

theorem process_of_wrPkt (hstate : s.state = .wrPkt) (heop : eop i s = false) :
    (process i s).state = .wrPkt ∧ (process i s).curQueue = s.curQueue := by
  rw [process, hstate]
  simp [heop]

theorem process_of_empty (hstate : s.state = .idle) (hrdy : i.outRdy = true)
    (hempty : s.empty = true) :
    (process i s).state = .idle ∧ (process i s).curQueue = s.curQueue + 1 := by
  have hrd : rdCur i s = false := by
    rw [rdCur, hempty, Bool.not_true, Bool.and_false, Bool.false_and]
  rw [process, hstate]
  simp [hrd, hrdy, hempty, curQueuePlus1_eq]

theorem process_of_not_rdy (hstate : s.state = .idle) (hrdy : i.outRdy = false) :
    (process i s).state = .idle ∧ (process i s).curQueue = s.curQueue := by
  have hrd : rdCur i s = false := by rw [rdCur, hrdy, Bool.false_and, Bool.false_and]
  rw [process, hstate]
  simp [hrd, hrdy]

/-! ## Senders -/

/-- In the middle of a packet a sender writes again, unless the arbiter is not ready for it. -/
def Diligent (pkts : Fin 8 → Nat → Packet) (i : Nat → ArbiterIn) (s : Nat → InputArbiter) : Prop :=
  ∀ q t k j, IsAt (lengths (pkts q)) (count (fun u => (i u).inWr q) t) k j → 0 < j →
    ∃ u, t ≤ u ∧ ((i u).inWr q = true ∨ (s u).inRdy q = false)

/-- The arbiter with a sender in front of each queue that writes whenever it may: which of them write,
and how many words each has written before. -/
def driveAll (pkts : Fin 8 → Nat → Packet) : Nat → InputArbiter × (Fin 8 → Bool) × (Fin 8 → Nat)
  | 0 => (init, fun _ => false, fun _ => 0)
  | t + 1 =>
    let (s, wr, n) := driveAll pkts t
    (step ⟨fun q => streamWord (pkts q) (n q), wr, true, false⟩ s, s.inRdy,
      fun q => if wr q then n q + 1 else n q)

def driveAllIn (pkts : Fin 8 → Nat → Packet) (t : Nat) : ArbiterIn :=
  let (_, wr, n) := driveAll pkts t
  ⟨fun q => streamWord (pkts q) (n q), wr, true, false⟩

theorem fed_driveAll (pkts : Fin 8 → Nat → Packet) :
    Fed pkts (driveAllIn pkts) fun t => (driveAll pkts t).1 where
  follows _ := rfl
  reset _ := rfl
  initial := rfl
  heeds _ := ⟨rfl, fun _ ht => ht⟩
  carries q := by
    have hcount : ∀ u, (driveAll pkts u).2.2 q = count (fun u => (driveAllIn pkts u).inWr q) u := by
      intro u
      induction u with
      | zero => rfl
      | succ u ih =>
        rw [count_succ, ← ih]
        show (if (driveAll pkts u).2.1 q then _ else _) = _
        split <;> simp_all [driveAllIn]
    exact carries_streamWord (pkts q) _ fun t => congrArg (streamWord (pkts q)) (hcount t)

theorem diligent_driveAll (pkts : Fin 8 → Nat → Packet) :
    Diligent pkts (driveAllIn pkts) fun t => (driveAll pkts t).1 := by
  intro q t _ _ _ _
  cases hrdy : (driveAll pkts t).1.inRdy q with
  | false => exact ⟨t, Nat.le_refl t, .inr hrdy⟩
  | true => exact ⟨t + 1, Nat.le_succ t, .inl hrdy⟩

/-! ## Turns -/

namespace Fed

variable {pkts : Fin 8 → Nat → Packet} {i : Nat → ArbiterIn} {s : Nat → InputArbiter}
  (h : Fed pkts i s)

include h

theorem state_succ (t : Nat) : (s (t + 1)).state = (process (i t) (s t)).state := by
  rw [h.step_eq t]

theorem curQueue_succ (t : Nat) : (s (t + 1)).curQueue = (process (i t) (s t)).curQueue := by
  rw [h.step_eq t]

/-- A word of the queue was written and not yet read. -/
theorem empty_iff {q : Fin 8} {t : Nat} (hq : (s t).curQueue = q) :
    (s t).empty = decide (count (fun u => (i u).inWr q) t ≤ readOf i s t q) := by
  rw [empty, hq]
  exact (h.link q).isEmpty t

/-- A turn in the middle: so many words of the packet were read, and the last one ends the turn. -/
theorem within {t : Nat} (hstate : (s t).state = .wrPkt) :
    ∃ j, readOf i s t (s t).curQueue =
        start (lengths (pkts (s t).curQueue)) ((turns i s t).count (s t).curQueue) + j + 1 ∧
      j < (pkts (s t).curQueue ((turns i s t).count (s t).curQueue)).words.length ∧
      (j + 1 = (pkts (s t).curQueue ((turns i s t).count (s t).curQueue)).words.length →
        (i t).outRdy = true → eop (i t) (s t) = true) := by
  have hserving := h.serving t
  generalize sent (fun u => (s u).outWr) (fun u => (s u).out) (t + 1) = done at hserving
  cases hserving with
  | between state read =>
    rw [hstate] at state
    cases state
  | within state others read word prev =>
    refine ⟨_, read, lt_of_getElem? word, fun hlast hrdy => ?_⟩
    obtain ⟨hctrl, hzero⟩ := (last_iff word prev).mpr hlast
    rw [eop, hstate, hrdy, hzero, decide_eq_true hctrl]
    rfl

/-- The queues whose turn it is not were read to the end of a packet. -/
theorem beside {t : Nat} {q : Fin 8} (hq : (s t).state = .idle ∨ q ≠ (s t).curQueue) :
    readOf i s t q = start (lengths (pkts q)) ((turns i s t).count q) := by
  have hserving := h.serving t
  generalize sent (fun u => (s u).outWr) (fun u => (s u).out) (t + 1) = done at hserving
  cases hserving with
  | between state read => exact read q
  | within state others read word prev =>
    rcases hq with hidle | hne
    · rw [state] at hidle
      cases hidle
    · exact others q hne

variable (hrdy : Recurs fun t => (i t).outRdy)

include hrdy

/-- In a turn that goes on for ever, words are read again and again. -/
theorem reads_on (hdil : Diligent pkts i s) {T : Nat} {q : Fin 8} {qs : List (Fin 8)}
    (hstay : ∀ t, T ≤ t → (s t).state = .wrPkt ∧ (s t).curQueue = q ∧ turns i s t = qs)
    (heop : ∀ t, T ≤ t → eop (i t) (s t) = false) {t : Nat} (ht : T ≤ t) :
    ∃ u, t ≤ u ∧ rdEn (i u) (s u) q = true := by
  by_contra hno
  have hlow : ∀ u, t ≤ u → rdEn (i u) (s u) q = false := fun u hu =>
    Bool.eq_false_iff.mpr fun hrd => hno ⟨u, hu, hrd⟩
  have hsame : ∀ u, t ≤ u → readOf i s u q = readOf i s t q := fun u hu =>
    count_eq_of_low hu fun v htv _ => hlow v htv
  -- Without a read the FIFO is empty whenever the next stage is ready, and so it always is.
  have hnone : ∀ u, t ≤ u → count (fun v => (i v).inWr q) u ≤ readOf i s t q := by
    intro u hu
    obtain ⟨v, huv, hout⟩ := hrdy u
    have hv := Nat.le_trans hu huv
    have hcur := (hstay v (Nat.le_trans ht hv)).2.1
    have hrd : rdCur (i v) (s v) = false := by
      have hrdq := hlow v hv
      rwa [rdEn, hcur, decide_eq_true rfl, Bool.and_true] at hrdq
    rw [rdCur_eq hout (heop v (Nat.le_trans ht hv)), Bool.not_eq_false', h.empty_iff hcur,
      decide_eq_true_eq, hsame v hv] at hrd
    exact Nat.le_trans (count_mono _ huv) hrd
  have hall : count (fun v => (i v).inWr q) t = readOf i s t q :=
    Nat.le_antisymm (hnone t (Nat.le_refl t)) ((h.link q).holds t).1
  obtain ⟨u, htu, hout⟩ := hrdy t
  obtain ⟨hstate, hcur, hturns⟩ := hstay u (Nat.le_trans ht htu)
  obtain ⟨j, hread, hj, hends⟩ := h.within hstate
  rw [hcur, hturns] at hread hj hends
  by_cases hlast : j + 1 = (pkts q (qs.count q)).words.length
  · have hend := hends hlast hout
    rw [heop u (Nat.le_trans ht htu)] at hend
    cases hend
  · have hat : IsAt (lengths (pkts q)) (count (fun v => (i v).inWr q) t) (qs.count q) (j + 1) :=
      ⟨by rw [hall, ← hsame u htu, hread]; rfl, by rw [lengths]; omega⟩
    obtain ⟨v, htv, hnext⟩ := hdil q t _ _ hat (Nat.succ_pos j)
    rcases hnext with hwr | hfull
    · have hgrown := hnone (v + 1) (by omega)
      rw [count_succ, if_pos hwr] at hgrown
      have := count_mono (fun v => (i v).inWr q) htv
      omega
    · rw [inRdy, Bool.not_eq_false'] at hfull
      have hlt := (h.link q).lt_of_nearlyFull (by decide) hfull
      have hle := hnone v htv
      have heq := hsame v htv
      rw [readOf] at heq
      omega

/-- A turn ends. -/
theorem turn_ends (hdil : Diligent pkts i s) {T : Nat} (hT : (s T).state = .wrPkt) :
    ∃ t, T ≤ t ∧ eop (i t) (s t) = true ∧ (s t).curQueue = (s T).curQueue := by
  by_contra hno
  have hstay : ∀ t, T ≤ t → (s t).state = .wrPkt ∧ (s t).curQueue = (s T).curQueue ∧
      turns i s t = turns i s T := by
    intro t ht
    induction t, ht using Nat.le_induction with
    | base => exact ⟨hT, rfl, rfl⟩
    | succ t ht ih =>
      obtain ⟨hstate, hcur, hturns⟩ := ih
      have heop : eop (i t) (s t) = false := Bool.eq_false_iff.mpr fun he => hno ⟨t, ht, he, hcur⟩
      obtain ⟨hstate', hcur'⟩ := process_of_wrPkt hstate heop
      refine ⟨(h.state_succ t).trans hstate', ((h.curQueue_succ t).trans hcur').trans hcur, ?_⟩
      rw [turns_succ, heop]
      exact hturns
  have heop : ∀ t, T ≤ t → eop (i t) (s t) = false := fun t ht =>
    Bool.eq_false_iff.mpr fun he => hno ⟨t, ht, he, (hstay t ht).2.1⟩
  have hrecurs : Recurs fun u => rdEn (i u) (s u) (s T).curQueue := by
    intro t
    obtain ⟨u, hu, hrd⟩ := h.reads_on hrdy hdil hstay heop (Nat.le_max_right t T)
    exact ⟨u, Nat.le_trans (Nat.le_max_left t T) hu, hrd⟩
  -- More words would be read than the packet has.
  obtain ⟨t, hle⟩ := hrecurs.count_ge
    (start (lengths (pkts (s T).curQueue)) ((turns i s T).count (s T).curQueue) +
      (pkts (s T).curQueue ((turns i s T).count (s T).curQueue)).words.length + 1)
  obtain ⟨hstate, hcur, hturns⟩ := hstay (max t T) (Nat.le_max_right t T)
  obtain ⟨j, hread, hj, -⟩ := h.within hstate
  rw [hcur, hturns] at hread hj
  have hmono : count (fun u => rdEn (i u) (s u) (s T).curQueue) t ≤
      readOf i s (max t T) (s T).curQueue := count_mono _ (Nat.le_max_left t T)
  omega

omit hrdy in
/-- A queue that is read has its turn. -/
theorem turn_of_rdEn {t : Nat} {q : Fin 8} (hrd : rdEn (i t) (s t) q = true) :
    (s (t + 1)).state = .wrPkt ∧ (s (t + 1)).curQueue = q := by
  rw [rdEn, Bool.and_eq_true, decide_eq_true_eq] at hrd
  obtain ⟨hstate, hcur⟩ := process_of_rdCur hrd.1
  exact ⟨(h.state_succ t).trans hstate, ((h.curQueue_succ t).trans hcur).trans hrd.2.symm⟩

/-- The pointer stays until the next stage is ready. -/
theorem idle_until {t : Nat} (ht : (s t).state = .idle) :
    ∃ u, t ≤ u ∧ (i u).outRdy = true ∧ (s u).state = .idle ∧ (s u).curQueue = (s t).curQueue := by
  obtain ⟨u, htu, hout, hlow⟩ := hrdy.first t
  refine ⟨u, htu, hout, ?_⟩
  clear hout
  induction u, htu using Nat.le_induction with
  | base => exact ⟨ht, rfl⟩
  | succ u htu ih =>
    obtain ⟨hstate, hcur⟩ := ih fun v htv hvu => hlow v htv (Nat.lt_succ_of_lt hvu)
    obtain ⟨hstate', hcur'⟩ := process_of_not_rdy hstate (hlow u htu (Nat.lt_succ_self u))
    exact ⟨(h.state_succ u).trans hstate', ((h.curQueue_succ u).trans hcur').trans hcur⟩

end Fed

/-- The number of queues from the pointer to `q`. -/
def ahead (s : InputArbiter) (q : Fin 8) : Nat := (q - s.curQueue).val

theorem sub_succ_lt : ∀ q p : Fin 8, p ≠ q → (q - (p + 1)).val + 1 = (q - p).val := by decide

namespace Fed

variable {pkts : Fin 8 → Nat → Packet} {i : Nat → ArbiterIn} {s : Nat → InputArbiter}
  (h : Fed pkts i s) (hrdy : Recurs fun t => (i t).outRdy)

include h hrdy

/-- The pointer comes to a queue that has a word waiting. -/
theorem comes_round (hdil : Diligent pkts i s) {T : Nat} {q : Fin 8}
    (hwaits : readOf i s T q < count (fun u => (i u).inWr q) T) :
    ∃ t, T ≤ t ∧ rdEn (i t) (s t) q = true := by
  by_contra hno
  have hlow : ∀ t, T ≤ t → rdEn (i t) (s t) q = false := fun t ht =>
    Bool.eq_false_iff.mpr fun hrd => hno ⟨t, ht, hrd⟩
  have hwait : ∀ t, T ≤ t → readOf i s t q < count (fun u => (i u).inWr q) t := by
    intro t ht
    have hsame : readOf i s t q = readOf i s T q := count_eq_of_low ht fun v hv _ => hlow v hv
    have := count_mono (fun u => (i u).inWr q) ht
    omega
  have hnext : ∀ t, T ≤ t → (s t).state = .idle →
      ∃ u, T ≤ u ∧ (s u).state = .idle ∧ (s u).ahead q + 1 = (s t).ahead q := by
    intro t ht hidle
    obtain ⟨u, htu, hout, hstate, hcur⟩ := h.idle_until hrdy hidle
    have hu := Nat.le_trans ht htu
    cases hempty : (s u).empty with
    | true =>
      have hne : (s u).curQueue ≠ q := by
        intro heq
        rw [h.empty_iff heq, decide_eq_true_eq] at hempty
        exact absurd hempty (Nat.not_le.mpr (hwait u hu))
      obtain ⟨hstate', hcur'⟩ := process_of_empty hstate hout hempty
      refine ⟨u + 1, by omega, (h.state_succ u).trans hstate', ?_⟩
      rw [ahead, ahead, h.curQueue_succ, hcur', ← hcur]
      exact sub_succ_lt q _ hne
    | false =>
      have hrd : rdCur (i u) (s u) = true := by
        rw [rdCur_eq hout (eop_of_idle hstate), hempty]
        rfl
      have hne : (s u).curQueue ≠ q := by
        intro heq
        have hrdq := hlow u hu
        rw [rdEn, hrd, heq, decide_eq_true rfl] at hrdq
        cases hrdq
      obtain ⟨hstate', hcur'⟩ := process_of_rdCur hrd
      obtain ⟨v, huv, heop, hcurv⟩ :=
        h.turn_ends hrdy hdil ((h.state_succ u).trans hstate')
      obtain ⟨hstatev, hcurv'⟩ := process_of_eop heop
      refine ⟨v + 1, by omega, (h.state_succ v).trans hstatev, ?_⟩
      rw [ahead, ahead, h.curQueue_succ, hcurv', hcurv, h.curQueue_succ, hcur', ← hcur]
      exact sub_succ_lt q _ hne
  -- The queues between the pointer and the queue get fewer and fewer.
  have hnever : ∀ d t, T ≤ t → (s t).state = .idle → (s t).ahead q ≠ d := by
    intro d
    induction d with
    | zero =>
      intro t ht hidle hzero
      obtain ⟨u, -, -, hahead⟩ := hnext t ht hidle
      omega
    | succ d ih =>
      intro t ht hidle hd
      obtain ⟨u, hu, hidle', hahead⟩ := hnext t ht hidle
      exact ih u hu hidle' (by omega)
  cases hstate : (s T).state with
  | idle => exact hnever _ T (Nat.le_refl T) hstate rfl
  | wrPkt =>
    obtain ⟨t, hTt, heop, -⟩ := h.turn_ends hrdy hdil hstate
    exact hnever _ (t + 1) (by omega) ((h.state_succ t).trans (process_of_eop heop).1) rfl

/-- A queue that was written further than the packets that had their turn gets one more. -/
theorem one_more (hdil : Diligent pkts i s) {T n : Nat} {q : Fin 8}
    (hn : (turns i s T).count q = n)
    (hwritten : start (lengths (pkts q)) n < count (fun u => (i u).inWr q) T) :
    ∃ t, n + 1 ≤ (turns i s t).count q := by
  have hturn : ∃ u, T ≤ u ∧ (s u).state = .wrPkt ∧ (s u).curQueue = q := by
    by_cases hcur : (s T).state = .wrPkt ∧ (s T).curQueue = q
    · exact ⟨T, Nat.le_refl T, hcur⟩
    · have hbeside : (s T).state = .idle ∨ q ≠ (s T).curQueue := by
        cases hstate : (s T).state with
        | idle => exact .inl rfl
        | wrPkt => exact .inr fun heq => hcur ⟨hstate, heq.symm⟩
      have hread := h.beside hbeside
      rw [hn] at hread
      obtain ⟨u, hu, hrd⟩ := h.comes_round hrdy hdil (T := T) (q := q) (by omega)
      exact ⟨u + 1, by omega, h.turn_of_rdEn hrd⟩
  obtain ⟨u, hTu, hstate, hcur⟩ := hturn
  obtain ⟨t, hut, heop, hcurt⟩ := h.turn_ends hrdy hdil hstate
  have hmono : turns i s T <+: turns i s t := sent_mono _ _ (Nat.le_trans hTu hut)
  have hle := hmono.sublist.count_le q
  refine ⟨t + 1, ?_⟩
  rw [turns_succ, heop, if_pos rfl, hcurt, hcur, List.count_append, List.count_singleton_self]
  omega

/-- The packets that were written have their turn. -/
theorem all_served (hdil : Diligent pkts i s) {n T : Nat} {q : Fin 8}
    (hT : start (lengths (pkts q)) n ≤ count (fun u => (i u).inWr q) T) :
    ∃ t, n ≤ (turns i s t).count q := by
  induction n with
  | zero => exact ⟨0, Nat.zero_le _⟩
  | succ n ih =>
    rw [start_succ] at hT
    have hpos : 0 < lengths (pkts q) n := (pkts q n).length_pos
    obtain ⟨t, ht⟩ := ih (by omega)
    have hmono : turns i s t <+: turns i s (max t T) := sent_mono _ _ (Nat.le_max_left t T)
    have hle := hmono.sublist.count_le q
    by_cases hmore : n + 1 ≤ (turns i s (max t T)).count q
    · exact ⟨_, hmore⟩
    · have hwritten := count_mono (fun u => (i u).inWr q) (Nat.le_max_right t T)
      exact h.one_more hrdy hdil (T := max t T) (by omega) (by omega)

end Fed

/-- It is the turn of the queue, or a word of it is waiting. -/
def Wants (i : Nat → ArbiterIn) (s : Nat → InputArbiter) (q : Fin 8) (t : Nat) : Prop :=
  (s t).state = .wrPkt ∧ (s t).curQueue = q ∨
    readOf i s t q < count (fun u => (i u).inWr q) t

namespace Fed

variable {pkts : Fin 8 → Nat → Packet} {i : Nat → ArbiterIn} {s : Nat → InputArbiter}
  (h : Fed pkts i s)

include h

theorem wants_succ {q : Fin 8} {t : Nat} (hwants : Wants i s q t)
    (hnot : eop (i t) (s t) = true → (s t).curQueue ≠ q) : Wants i s q (t + 1) := by
  cases hrd : rdEn (i t) (s t) q with
  | true => exact .inl (h.turn_of_rdEn hrd)
  | false =>
    rcases hwants with ⟨hstate, hcur⟩ | hwaits
    · have heop : eop (i t) (s t) = false := Bool.eq_false_iff.mpr fun he => hnot he hcur
      obtain ⟨hstate', hcur'⟩ := process_of_wrPkt hstate heop
      exact .inl ⟨(h.state_succ t).trans hstate', ((h.curQueue_succ t).trans hcur').trans hcur⟩
    · right
      rw [readOf, count_succ, hrd]
      exact Nat.lt_of_lt_of_le hwaits (count_mono _ (Nat.le_succ t))

/-- The pointer does not go past a queue that wants a turn. -/
theorem ahead_succ_le {q : Fin 8} {t : Nat} (hwants : Wants i s q t)
    (heop : eop (i t) (s t) = false) : (s (t + 1)).ahead q ≤ (s t).ahead q := by
  have hsame : (process (i t) (s t)).curQueue = (s t).curQueue →
      (s (t + 1)).ahead q ≤ (s t).ahead q := by
    intro hcur
    rw [ahead, h.curQueue_succ, hcur]
    exact Nat.le_refl _
  cases hstate : (s t).state with
  | wrPkt => exact hsame (process_of_wrPkt hstate heop).2
  | idle =>
    cases hrdy : (i t).outRdy with
    | false => exact hsame (process_of_not_rdy hstate hrdy).2
    | true =>
      cases hempty : (s t).empty with
      | false =>
        refine hsame (process_of_rdCur ?_).2
        rw [rdCur_eq hrdy heop, hempty]
        rfl
      | true =>
        have hne : (s t).curQueue ≠ q := by
          intro heq
          rw [h.empty_iff heq, decide_eq_true_eq] at hempty
          rcases hwants with ⟨hturn, -⟩ | hwaits
          · rw [hstate] at hturn
            cases hturn
          · omega
        rw [ahead, ahead, h.curQueue_succ, (process_of_empty hstate hrdy hempty).2]
        have := sub_succ_lt q _ hne
        omega

/-- While a queue that has a word waiting does not get its turn, no other queue gets two. -/
theorem fair {q : Fin 8} {T t : Nat} (hT : T ≤ t) (hwaits : ((s T).fifos q).isEmpty = false) :
    ∃ qs, turns i s t = turns i s T ++ qs ∧ (q ∉ qs → qs.Nodup) := by
  -- The queues that had a turn lie behind the pointer, seen from the queue that wants one.
  have hinv : ∃ qs, turns i s t = turns i s T ++ qs ∧
      (q ∉ qs → Wants i s q t ∧ qs.Nodup ∧ ∀ p ∈ qs, (s t).ahead q < (q - p).val) := by
    induction t, hT using Nat.le_induction with
    | base =>
      refine ⟨[], (List.append_nil _).symm, fun _ => ⟨.inr ?_, List.nodup_nil, by simp⟩⟩
      exact Nat.not_le.mp (of_decide_eq_false (((h.link q).isEmpty T).symm.trans hwaits))
    | succ t hT ih =>
      obtain ⟨qs, hturns, hqs⟩ := ih
      cases heop : eop (i t) (s t) with
      | false =>
        refine ⟨qs, by rw [turns_succ, heop]; exact hturns, fun hq => ?_⟩
        obtain ⟨hwants, hnodup, hbehind⟩ := hqs hq
        have hahead := h.ahead_succ_le hwants heop
        have hwants' := h.wants_succ hwants fun he => by rw [heop] at he; cases he
        exact ⟨hwants', hnodup, fun p hp => Nat.lt_of_le_of_lt hahead (hbehind p hp)⟩
      | true =>
        refine ⟨qs ++ [(s t).curQueue],
          by rw [turns_succ, heop, if_pos rfl, hturns, List.append_assoc], fun hq => ?_⟩
        rw [List.mem_append, List.mem_singleton, not_or] at hq
        obtain ⟨hwants, hnodup, hbehind⟩ := hqs hq.1
        have hstep : (s (t + 1)).ahead q + 1 = (q - (s t).curQueue).val := by
          rw [ahead, h.curQueue_succ, (process_of_eop heop).2]
          exact sub_succ_lt q _ (Ne.symm hq.2)
        have hnew : (s t).curQueue ∉ qs := fun hmem => Nat.lt_irrefl _ (hbehind _ hmem)
        refine ⟨h.wants_succ hwants fun _ => Ne.symm hq.2,
          List.nodup_append.mpr ⟨hnodup, List.nodup_singleton _, ?_⟩, fun p hp => ?_⟩
        · rintro p hp r hr rfl
          exact hnew (List.mem_singleton.mp hr ▸ hp)
        · rcases List.mem_append.mp hp with hp | hp
          · have hlt := hbehind p hp
            rw [ahead] at hlt
            omega
          · rw [List.mem_singleton.mp hp]
            omega
  obtain ⟨qs, hturns, hqs⟩ := hinv
  exact ⟨qs, hturns, fun hq => (hqs hq).2.1⟩

end Fed

theorem fair_driveAll :
    let pkts := fun (_ : Fin 8) (_ : Nat) => frame 0 0
    let s := fun t => (driveAll pkts t).1
    Fed pkts (driveAllIn pkts) s ∧ ((s 2).fifos 3).isEmpty = false ∧
      ∀ t, 2 ≤ t → ∃ qs, turns (driveAllIn pkts) s t = turns (driveAllIn pkts) s 2 ++ qs ∧
        (3 ∉ qs → qs.Nodup) := by
  intro pkts s
  have hfed : Fed pkts (driveAllIn pkts) s := fed_driveAll pkts
  have hwaits : ((s 2).fifos 3).isEmpty = false := by decide +kernel
  exact ⟨hfed, hwaits, fun t ht => hfed.fair ht hwaits⟩

end Sdpa.Hardware.InputArbiter
