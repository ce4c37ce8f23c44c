import Sdpa.Hardware.Links
import Sdpa.Hardware.PacketStreams

/-!
# The input arbiter

`input_arbiter` has a FIFO for each of the eight input queues. It goes round the queues
until it finds a word, and then stays with that queue to the end of the packet, which it
knows by a control behind a data word. So the packets of all queues come out one after
the other, each in one piece, and those of a queue in the order in which they came in.
-/
namespace Sdpa.Hardware

open Lib.Clocked Lib.Streams Lib.Frames

/-- The wires into `input_arbiter`, with one word and one write signal for each queue. -/
structure ArbiterIn where
  word : Fin 8 → Word
  inWr : Fin 8 → Bool
  outRdy : Bool
  reset : Bool

inductive ArbiterState where
  | idle | wrPkt
deriving DecidableEq, Repr

/-- The registers of `input_arbiter`. -/
structure InputArbiter where
  fifos : Fin 8 → SmallFifo Word 2
  state : ArbiterState
  curQueue : Fin 8
  fifoOutCtrlPrev : BitVec 8
  outWr : Bool
  out : Word

namespace InputArbiter

def stageNumber : BitVec 8 := 2

def init : InputArbiter where
  fifos _ := ⟨fun _ => ⟨0, 0⟩, 0, 0, 0, ⟨0, 0⟩⟩
  state := .idle
  curQueue := 0
  fifoOutCtrlPrev := 1
  outWr := false
  out := ⟨1, 0⟩

variable (i : ArbiterIn) (s : InputArbiter)

def inRdy (q : Fin 8) : Bool := !(s.fifos q).nearlyFull

def curQueuePlus1 : Fin 8 := if s.curQueue = 7 then 0 else s.curQueue + 1

/-- `{fifo_out_ctrl_sel, fifo_out_data_sel}`. -/
def fifoOutSel : Word := (s.fifos s.curQueue).dout

def empty : Bool := (s.fifos s.curQueue).isEmpty

/-- The word at the output of the FIFO is the last one of its packet, and it is written. -/
def eop : Bool :=
  s.state = .wrPkt && i.outRdy && s.fifoOutSel.ctrl ≠ 0 && s.fifoOutCtrlPrev = 0

/-- The current queue is read. -/
def rdCur : Bool := i.outRdy && !s.empty && !eop i s

def rdEn (q : Fin 8) : Bool := rdCur i s && q = s.curQueue

/-- The registers after a cycle, apart from the FIFOs. -/
def process : InputArbiter :=
  match s.state with
  | .idle =>
    { s with
      outWr := false
      out := s.fifoOutSel
      state := if rdCur i s then .wrPkt else .idle
      fifoOutCtrlPrev := if rdCur i s then stageNumber else s.fifoOutCtrlPrev
      curQueue := if i.outRdy && s.empty then s.curQueuePlus1 else s.curQueue }
  | .wrPkt =>
    if eop i s then
      { s with
        outWr := true
        out := s.fifoOutSel
        state := .idle
        curQueue := s.curQueuePlus1 }
    else
      { s with
        outWr := rdCur i s
        out := s.fifoOutSel
        fifoOutCtrlPrev := if rdCur i s then s.fifoOutSel.ctrl else s.fifoOutCtrlPrev }

def step : InputArbiter :=
  { (if i.reset then init else process i s) with
    fifos := fun q => (s.fifos q).step i.reset (i.word q) (i.inWr q) (rdEn i s q) }

/-- The word written in a cycle. -/
def gives : List Word := if s.outWr then [s.out] else []

/-! ## One cycle -/

/-- The words of the packets when the queues had their turns in the order `qs`. -/
def merged (pkts : Fin 8 → Nat → Packet) (qs : List (Fin 8)) : List Word :=
  merge (fun q k => (pkts q k).words) qs

theorem merged_concat (pkts : Fin 8 → Nat → Packet) (qs : List (Fin 8)) (q : Fin 8) :
    merged pkts (qs ++ [q]) = merged pkts qs ++ (pkts q (qs.count q)).words := merge_concat _ _ _

/-- The queues had the turns `qs`, and `r q` words of queue `q` were read. In a turn, the word at
the output of the FIFO was read and is not yet written. -/
inductive Serving (pkts : Fin 8 → Nat → Packet) (s : InputArbiter) (r : Fin 8 → Nat)
    (qs : List (Fin 8)) : List Word → Prop
  | between (state : s.state = .idle)
      (read : ∀ q, r q = start (lengths (pkts q)) (qs.count q)) :
    Serving pkts s r qs (merged pkts qs)
  | within {j : Nat} (state : s.state = .wrPkt)
      (others : ∀ q, q ≠ s.curQueue → r q = start (lengths (pkts q)) (qs.count q))
      (read : r s.curQueue =
        start (lengths (pkts s.curQueue)) (qs.count s.curQueue) + j + 1)
      (word : (pkts s.curQueue (qs.count s.curQueue)).words[j]? = some s.fifoOutSel)
      (prev : j = 0 ∧ s.fifoOutCtrlPrev ≠ 0 ∨ ∃ m v, j = m + 1 ∧
        (pkts s.curQueue (qs.count s.curQueue)).words[m]? = some v ∧
          s.fifoOutCtrlPrev = v.ctrl) :
    Serving pkts s r qs
      (merged pkts qs ++ (pkts s.curQueue (qs.count s.curQueue)).words.take j)

variable {i s} {pkts : Fin 8 → Nat → Packet} {r : Fin 8 → Nat} {qs : List (Fin 8)}
  {done : List Word}

theorem lt_of_getElem? {l : List Word} {j : Nat} {w : Word} (h : l[j]? = some w) : j < l.length :=
  (List.getElem?_eq_some_iff.mp h).1

/-- The end of a packet is a control behind a data word. -/
theorem last_iff {P : Packet} {j : Nat} {w : Word} {c : BitVec 8} (hw : P.words[j]? = some w)
    (hprev : j = 0 ∧ c ≠ 0 ∨ ∃ m v, j = m + 1 ∧ P.words[m]? = some v ∧ c = v.ctrl) :
    (w.ctrl ≠ 0 ∧ c = 0) ↔ j + 1 = P.words.length := by
  have hlen := P.length_data_ge
  have hwords := P.length_words
  have hj := lt_of_getElem? hw
  constructor
  · rintro ⟨hctrl, hzero⟩
    rcases hprev with ⟨-, hne⟩ | ⟨m, v, rfl, hv, rfl⟩
    · exact absurd hzero hne
    · -- The word before is a data word, so this one is too.
      have hm : P.hdrs.length ≤ m := by
        by_contra hlt
        exact Packet.ctrl_of_hdr (by omega) hv hzero
      by_contra hnot
      exact hctrl ((Packet.ctrl_eq_zero_iff (by omega) hw).mpr (by omega))
  · intro hlast
    refine ⟨fun hzero => ?_, ?_⟩
    · have := (Packet.ctrl_eq_zero_iff (by omega) hw).mp hzero
      omega
    · rcases hprev with ⟨rfl, -⟩ | ⟨m, v, rfl, hv, rfl⟩
      · omega
      · exact (Packet.ctrl_eq_zero_iff (by omega) hv).mpr (by omega)

/-- What a cycle without reset leaves of the FIFO of the current queue. -/
structure Reads (pkts : Fin 8 → Nat → Packet) (i : ArbiterIn) (s s' : InputArbiter)
    (r : Fin 8 → Nat) : Prop where
  step : s' = { process i s with fifos := s'.fifos }
  keeps : rdCur i s = false → (s'.fifos s.curQueue).dout = s.fifoOutSel
  next : ∀ k j, rdCur i s = true → IsAt (lengths (pkts s.curQueue)) (r s.curQueue) k j →
    (pkts s.curQueue k).words[j]? = some (s'.fifos s.curQueue).dout

/-- The words read after a cycle. -/
def readAfter (i : ArbiterIn) (s : InputArbiter) (r : Fin 8 → Nat) (q : Fin 8) : Nat :=
  r q + if rdEn i s q then 1 else 0

theorem readAfter_of_not (h : rdCur i s = false) (q : Fin 8) : readAfter i s r q = r q := by
  rw [readAfter, rdEn, h]
  rfl

theorem readAfter_cur (h : rdCur i s = true) : readAfter i s r s.curQueue = r s.curQueue + 1 := by
  rw [readAfter, rdEn, h]
  simp

theorem readAfter_other {q : Fin 8} (h : q ≠ s.curQueue) : readAfter i s r q = r q := by
  rw [readAfter, rdEn, decide_eq_false h, Bool.and_false]
  rfl

namespace Reads

variable {s' : InputArbiter} (hr : Reads pkts i s s' r)

include hr

theorem between (hstate : s.state = .idle)
    (hread : ∀ q, r q = start (lengths (pkts q)) (qs.count q)) :
    Serving pkts s' (readAfter i s r) qs (merged pkts qs ++ s'.gives) := by
  have hout : s'.gives = [] := by
    rw [gives, hr.step]
    simp [process, hstate]
  rw [hout, List.append_nil]
  cases hrd : rdCur i s with
  | false =>
    refine .between ?_ fun q => ?_
    · rw [hr.step]
      simp [process, hstate, hrd]
    · rw [readAfter_of_not hrd, hread]
  | true =>
    have hempty : s.empty = false := by
      rw [rdCur, Bool.and_eq_true, Bool.and_eq_true, Bool.not_eq_true'] at hrd
      exact hrd.1.2
    have hcur : s'.curQueue = s.curQueue := by
      rw [hr.step]
      simp [process, hstate, hempty]
    have hword := hr.next (qs.count s.curQueue) 0 hrd
      ⟨hread s.curQueue, (pkts s.curQueue _).length_pos⟩
    have hdoing : Serving pkts s' (readAfter i s r) qs
        (merged pkts qs ++ (pkts s'.curQueue (qs.count s'.curQueue)).words.take 0) := .within
      (by rw [hr.step]; simp [process, hstate, hrd])
      (fun q hq => by rw [readAfter_other (by rwa [← hcur]), hread])
      (by rw [hcur, readAfter_cur hrd, hread])
      (by rw [fifoOutSel, hcur]; exact hword)
      (.inl ⟨rfl, by rw [hr.step]; simp [process, hstate, hrd, stageNumber]⟩)
    rwa [List.take_zero, List.append_nil] at hdoing

section Within

variable {j : Nat} (hstate : s.state = .wrPkt)
  (hothers : ∀ q, q ≠ s.curQueue → r q = start (lengths (pkts q)) (qs.count q))
  (hread : r s.curQueue = start (lengths (pkts s.curQueue)) (qs.count s.curQueue) + j + 1)
  (hword : (pkts s.curQueue (qs.count s.curQueue)).words[j]? = some s.fifoOutSel)

include hstate hothers hread hword

theorem finish (heop : eop i s = true)
    (hlast : j + 1 = (pkts s.curQueue (qs.count s.curQueue)).words.length) :
    Serving pkts s' (readAfter i s r) (qs ++ [s.curQueue])
      (merged pkts qs ++ (pkts s.curQueue (qs.count s.curQueue)).words.take j ++ s'.gives) := by
  have hrd : rdCur i s = false := by rw [rdCur, heop, Bool.not_true, Bool.and_false]
  have hout : s'.gives = [s.fifoOutSel] := by
    rw [gives, hr.step]
    simp [process, hstate, heop]
  have hall : merged pkts qs ++ (pkts s.curQueue (qs.count s.curQueue)).words.take j ++ s'.gives =
      merged pkts (qs ++ [s.curQueue]) := by
    rw [hout, merged_concat, List.append_assoc, ← take_succ_of_getElem? hword, hlast,
      List.take_length]
  rw [hall]
  refine .between ?_ fun q => ?_
  · rw [hr.step]
    simp [process, hstate, heop]
  · rw [readAfter_of_not hrd, List.count_append, List.count_singleton]
    by_cases hq : q = s.curQueue
    · subst hq
      rw [hread, beq_self_eq_true, if_pos rfl, start_succ, lengths, ← hlast, Nat.add_assoc]
    · rw [beq_eq_false_iff_ne.mpr (Ne.symm hq), hothers q hq]
      rfl

theorem go_on (heop : eop i s = false)
    (hprev : j = 0 ∧ s.fifoOutCtrlPrev ≠ 0 ∨ ∃ m v, j = m + 1 ∧
      (pkts s.curQueue (qs.count s.curQueue)).words[m]? = some v ∧ s.fifoOutCtrlPrev = v.ctrl) :
    Serving pkts s' (readAfter i s r) qs
      (merged pkts qs ++ (pkts s.curQueue (qs.count s.curQueue)).words.take j ++ s'.gives) := by
  have hcur : s'.curQueue = s.curQueue := by
    rw [hr.step]
    simp [process, hstate, heop]
  have hstate' : s'.state = .wrPkt := by
    rw [hr.step]
    simp [process, hstate, heop]
  cases hrd : rdCur i s with
  | false =>
    have hout : s'.gives = [] := by
      rw [gives, hr.step]
      simp [process, hstate, heop, hrd]
    have hdoing : Serving pkts s' (readAfter i s r) qs
        (merged pkts qs ++ (pkts s'.curQueue (qs.count s'.curQueue)).words.take j) := .within
      hstate' (fun q hq => by rw [readAfter_of_not hrd, hothers q (by rwa [← hcur])])
      (by rw [hcur, readAfter_of_not hrd, hread])
      (by rw [fifoOutSel, hcur, hr.keeps hrd, hword])
      (by
        have hsame : s'.fifoOutCtrlPrev = s.fifoOutCtrlPrev := by
          rw [hr.step]
          simp [process, hstate, heop, hrd]
        rw [hsame, hcur]
        exact hprev)
    rw [hout, List.append_nil]
    rwa [hcur] at hdoing
  | true =>
    have hout : s'.gives = [s.fifoOutSel] := by
      rw [gives, hr.step]
      simp [process, hstate, heop, hrd]
    have hlt := lt_of_getElem? hword
    -- At the end of the packet the queue is not read.
    have hnext : j + 1 < (pkts s.curQueue (qs.count s.curQueue)).words.length := by
      by_contra hnot
      obtain ⟨hctrl, hzero⟩ := (last_iff hword hprev).mpr (by omega)
      rw [rdCur, Bool.and_eq_true, Bool.and_eq_true] at hrd
      rw [eop, hstate, hrd.1.1, hzero, decide_eq_true hctrl] at heop
      simp at heop
    have hword' := hr.next (qs.count s.curQueue) (j + 1) hrd ⟨hread, hnext⟩
    have hdoing : Serving pkts s' (readAfter i s r) qs
        (merged pkts qs ++ (pkts s'.curQueue (qs.count s'.curQueue)).words.take (j + 1)) := .within
      hstate'
      (fun q hq => by rw [readAfter_other (by rwa [← hcur]), hothers q (by rwa [← hcur])])
      (by rw [hcur, readAfter_cur hrd, hread]; omega)
      (by rw [fifoOutSel, hcur]; exact hword')
      (.inr ⟨j, s.fifoOutSel, rfl, by rw [hcur]; exact hword, by
        rw [hr.step]
        simp [process, hstate, heop, hrd]⟩)
    rw [hout, List.append_assoc, ← take_succ_of_getElem? hword]
    rwa [hcur] at hdoing

end Within

/-- One cycle: a turn goes on, ends, or a queue is looked at. -/
theorem serving (h : Serving pkts s r qs done) :
    Serving pkts s' (readAfter i s r) (if eop i s then qs ++ [s.curQueue] else qs)
      (done ++ s'.gives) := by
  cases h with
  | between state read =>
    have heop : eop i s = false := by rw [eop, state]; rfl
    rw [heop]
    exact hr.between state read
  | within state others read word prev =>
    cases heop : eop i s with
    | false => exact hr.go_on state others read word heop prev
    | true =>
      have hlast := heop
      rw [eop, Bool.and_eq_true, Bool.and_eq_true] at hlast
      exact hr.finish state others read word heop
        ((last_iff word prev).mp ⟨of_decide_eq_true hlast.1.2, of_decide_eq_true hlast.2⟩)

end Reads

/-! ## The run -/

/-- The run of an arbiter whose queues are fed with packets by senders that heed `in_rdy`. -/
structure Fed (pkts : Fin 8 → Nat → Packet) (i : Nat → ArbiterIn) (s : Nat → InputArbiter) :
    Prop where
  follows : Follows InputArbiter.step i s
  reset : ∀ t, (i t).reset = false
  initial : s 0 = init
  heeds : ∀ q, Heeds (fun t => (s t).inRdy q) fun t => (i t).inWr q
  carries : ∀ q, Carries (pkts q) (fun t => (i t).inWr q) fun t => (i t).word q

/-- The queues that had a turn, one after the other. -/
def turns (i : Nat → ArbiterIn) (s : Nat → InputArbiter) (t : Nat) : List (Fin 8) :=
  sent (fun u => eop (i u) (s u)) (fun u => (s u).curQueue) t

theorem turns_succ (i : Nat → ArbiterIn) (s : Nat → InputArbiter) (t : Nat) :
    turns i s (t + 1) =
      if eop (i t) (s t) then turns i s t ++ [(s t).curQueue] else turns i s t := by
  rw [turns, sent_succ]
  cases eop (i t) (s t) with
  | false => exact List.append_nil _
  | true => rfl

/-- How many words of a queue were read. -/
def readOf (i : Nat → ArbiterIn) (s : Nat → InputArbiter) (t : Nat) (q : Fin 8) : Nat :=
  count (fun u => rdEn (i u) (s u) q) t

theorem readOf_succ (i : Nat → ArbiterIn) (s : Nat → InputArbiter) (t : Nat) :
    readOf i s (t + 1) = readAfter (i t) (s t) (readOf i s t) := funext fun _ => count_succ _ t

namespace Fed

variable {i : Nat → ArbiterIn} {s : Nat → InputArbiter} (h : Fed pkts i s)

include h

theorem step_eq (t : Nat) :
    s (t + 1) = { process (i t) (s t) with
      fifos := fun q =>
        ((s t).fifos q).step false ((i t).word q) ((i t).inWr q) (rdEn (i t) (s t) q) } := by
  rw [h.follows t, step, h.reset t]
  rfl

theorem link (q : Fin 8) :
    SmallFifo.Link (fun t => (s t).fifos q) (fun t => (i t).word q) (fun t => (i t).inWr q)
      fun t => rdEn (i t) (s t) q where
  step t := by rw [h.step_eq t]
  depth := by
    rw [h.initial]
    rfl
  ptr := by
    rw [h.initial]
    rfl
  heeds := h.heeds q
  demand t ht := by
    rw [rdEn, rdCur, Bool.and_eq_true, Bool.and_eq_true, Bool.and_eq_true, Bool.not_eq_true',
      decide_eq_true_eq] at ht
    rw [ht.2]
    exact ht.1.1.2

theorem reads (t : Nat) : Reads pkts (i t) (s t) (s (t + 1)) (readOf i s t) where
  step := by
    rw [h.step_eq t]
  keeps hrd := (h.link (s t).curQueue).dout_of_not (t := t) (by rw [rdEn, hrd]; rfl)
  next k j hrd hat :=
    (h.carries (s t).curQueue).getElem? hat
      ((h.link (s t).curQueue).dout (t := t) (by rw [rdEn, hrd]; simp))

theorem serving (t : Nat) :
    Serving pkts (s t) (readOf i s t) (turns i s t)
      (sent (fun u => (s u).outWr) (fun u => (s u).out) (t + 1)) := by
  induction t with
  | zero =>
    have hnone : sent (fun u => (s u).outWr) (fun u => (s u).out) (0 + 1) = merged pkts [] := by
      rw [sent_succ, h.initial]
      rfl
    rw [hnone]
    exact .between (by rw [h.initial]; rfl) fun _ => rfl
  | succ t ih =>
    rw [sent_succ, readOf_succ, turns_succ]
    exact (h.reads t).serving ih

theorem sent_le_merged (t : Nat) :
    ∃ qs, sent (fun u => (s u).outWr) (fun u => (s u).out) t <+: merged pkts qs := by
  have hserving := h.serving t
  rw [sent_succ] at hserving
  have hle := List.prefix_append (sent (fun u => (s u).outWr) (fun u => (s u).out) t)
    (if (s t).outWr then [(s t).out] else [])
  generalize sent (fun u => (s u).outWr) (fun u => (s u).out) t ++ _ = done at hserving hle
  cases hserving with
  | between state read => exact ⟨_, hle⟩
  | within state others read word prev =>
    refine ⟨turns i s t ++ [(s t).curQueue], hle.trans ?_⟩
    rw [merged_concat, List.prefix_append_right_inj]
    exact List.take_prefix _ _

/-- The packets whose turn is over are out. -/
theorem merged_le_sent (t : Nat) :
    merged pkts (turns i s t) <+: sent (fun u => (s u).outWr) (fun u => (s u).out) (t + 1) := by
  have hserving := h.serving t
  generalize sent (fun u => (s u).outWr) (fun u => (s u).out) (t + 1) = done at hserving
  cases hserving with
  | between state read => exact List.prefix_refl _
  | within state others read word prev => exact List.prefix_append _ _

end Fed

end InputArbiter

end Sdpa.Hardware
