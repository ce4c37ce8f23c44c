import Sdpa.Hardware.FlowEntries
import Sdpa.Hardware.OplProcessor

/-!
# One packet for each result

The processor takes a result when it is done with the packet before, and then
reads the words of one packet: it finds the end by the control of the last data
word. So the words read never go beyond the packets whose results were taken.
-/
namespace Sdpa.Hardware

open Lib.Clocked Lib.Frames

/-- The processor when the next word to read is word `j` of the packet. The second number is one
if the result of the packet was taken. -/
inductive Reading (pk : Packet) (s : OplProcessor) : Nat → Nat → Prop
  | between (state : s.state = .waitForInput ∨ s.state = .writeLastWord)
      (ctrl : s.inFifoCtrlD1 ≠ 0) : Reading pk s 0 0
  | granted (state : s.state = .writeReplacements) (ctrl : s.inFifoCtrlD1 ≠ 0) : Reading pk s 0 1
  /-- The header of the input queue is still to come. -/
  | seeking {j : Nat} (state : s.state = .writeOutputDestination) (ctrl : s.inFifoCtrlD1 ≠ 0)
      (unseen : ∀ n w, n < j → pk.words[n]? = some w → w.ctrl ≠ ioQueueStageNum) : Reading pk s j 1
  | hdrs {j : Nat} (state : s.state = .writeIoHdr ∨ s.state = .hdr1st) (ctrl : s.inFifoCtrlD1 ≠ 0)
      (hj : j ≤ pk.hdrs.length) : Reading pk s j 1
  | data {j : Nat} (state : s.state = .hdrCont ∨ s.state = .writePacket) (ctrl : s.inFifoCtrlD1 = 0)
      (hj : pk.hdrs.length < j) : Reading pk s j 1
  | drop {j : Nat} (state : s.state = .dropPkt) (ctrl : s.inFifoCtrlD1 = 0 ↔ pk.hdrs.length < j) :
      Reading pk s j 1

/-- One cycle, in which the processor may read a word and may take a result: the processor stays in
the packet or goes on to the next one. -/
structure Reads (pk : Packet) (i : OplIn) (s s' : OplProcessor) (j n : Nat) : Prop where
  within : j + (if s.inFifoRdEn i then 1 else 0) < pk.words.length →
    Reading pk s' (j + if s.inFifoRdEn i then 1 else 0) (n + if s.resultFifoRdEn i then 1 else 0)
  done : j + (if s.inFifoRdEn i then 1 else 0) = pk.words.length → n = 1 ∧
    ∀ pk', Reading pk' s' 0 (if s.resultFifoRdEn i then 1 else 0)

namespace Reading

variable {pk : Packet} {i : OplIn} {s : OplProcessor} {j n : Nat}

/-- A cycle without a read, in which no result is taken. -/
theorem reads_of_not {s' : OplProcessor} (hj : j < pk.words.length) (hrd : s.inFifoRdEn i = false)
    (hresult : s.resultFifoRdEn i = false) (h : Reading pk s' j n) : Reads pk i s s' j n := by
  refine ⟨fun _ => ?_, fun hlast => ?_⟩
  · rw [hrd, hresult]
    exact h
  · rw [hrd] at hlast
    exact absurd hlast (Nat.ne_of_lt hj)

/-- A word that is not the last one is read. -/
theorem reads_of_word {s' : OplProcessor} (hj : j + 1 < pk.words.length)
    (hrd : s.inFifoRdEn i = true) (hresult : s.resultFifoRdEn i = false)
    (h : Reading pk s' (j + 1) n) : Reads pk i s s' j n := by
  refine ⟨fun _ => ?_, fun hlast => ?_⟩
  · rw [hrd, hresult]
    exact h
  · rw [hrd] at hlast
    exact absurd hlast (Nat.ne_of_lt hj)

/-- The last word is read. -/
theorem reads_of_last {s' : OplProcessor} (hj : j + 1 = pk.words.length)
    (hrd : s.inFifoRdEn i = true)
    (h : ∀ pk', Reading pk' s' 0 (if s.resultFifoRdEn i then 1 else 0)) :
    Reads pk i s s' j 1 := by
  refine ⟨fun hlt => ?_, fun _ => ⟨rfl, h⟩⟩
  rw [hrd] at hlt
  exact absurd hj (Nat.ne_of_lt hlt)

/-- The state after a data word. -/
structure InData (i : OplIn) (eop : Bool) (f : OplProcessor) : Prop where
  ctrl : f.inFifoCtrlD1 = i.inFifo.ctrl
  last : eop = true → f.state = .writeLastWord
  more : eop = false → f.state = .hdrCont ∨ f.state = .writePacket

theorem inData_stepOptions {next : OplProcessor} (h : InData i (s.isEop i) next) (short : Bool) :
    InData i (s.isEop i) (OplProcessor.stepOptions i s short next) := by
  rw [OplProcessor.stepOptions]
  cases short with
  | false => exact ⟨h.ctrl, h.last, h.more⟩
  | true =>
    cases heop : s.isEop i with
    | true =>
      rw [heop] at h
      exact h
    | false => exact ⟨h.ctrl, fun hlast => (by cases hlast), fun _ => .inr rfl⟩

theorem inData_stepHdrCont : InData i (s.isEop i) (s.stepHdrCont i) := by
  have hnext : InData i (s.isEop i) { s.push i.inFifo.ctrl i.inFifo.data with
      state := if s.isEop i then .writeLastWord else .hdrCont } := by
    cases heop : s.isEop i with
    | true => exact ⟨rfl, fun _ => rfl, fun hmore => by cases hmore⟩
    | false => exact ⟨rfl, fun hlast => (by cases hlast), fun _ => .inl rfl⟩
  rw [OplProcessor.stepHdrCont]
  cases s.hdrReplaceCntr with
  | hdr2nd => exact ⟨hnext.ctrl, hnext.last, hnext.more⟩
  | hdr3rd => exact ⟨hnext.ctrl, hnext.last, hnext.more⟩
  | hdr4th => exact ⟨hnext.ctrl, hnext.last, hnext.more⟩
  | hdr5th => exact inData_stepOptions hnext _
  | hdr6th => exact inData_stepOptions hnext _

theorem inData_stepWritePacket : InData i (s.isEop i) (s.stepWritePacket i) := by
  rw [OplProcessor.stepWritePacket]
  cases heop : s.isEop i with
  | true => exact ⟨rfl, fun _ => rfl, fun hmore => by cases hmore⟩
  | false => exact ⟨rfl, fun hlast => (by cases hlast), fun _ => .inr rfl⟩

theorem hold (h : Reading pk s j n) : Reading pk s.hold j n := by
  cases h with
  | between state ctrl => exact .between state ctrl
  | granted state ctrl => exact .granted state ctrl
  | seeking state ctrl unseen => exact .seeking state ctrl unseen
  | hdrs state ctrl hj => exact .hdrs state ctrl hj
  | data state ctrl hj => exact .data state ctrl hj
  | drop state ctrl => exact .drop state ctrl

/-- Between two packets, when the next result is taken or waited for. -/
theorem afterPacket {s' : OplProcessor} (hstate : s'.state = OplProcessor.afterPacket i)
    (hctrl : s'.inFifoCtrlD1 ≠ 0) (pk : Packet) :
    Reading pk s' 0 (if !i.resultFifoEmpty then 1 else 0) := by
  rw [OplProcessor.afterPacket] at hstate
  cases hempty : i.resultFifoEmpty with
  | true =>
    rw [hempty] at hstate
    exact .between (.inl hstate) hctrl
  | false =>
    rw [hempty] at hstate
    exact .granted hstate hctrl

theorem reads_of_grant {s' : OplProcessor} (hrd : s.inFifoRdEn i = false)
    (hresult : s.resultFifoRdEn i = !i.resultFifoEmpty)
    (hstate : s'.state = OplProcessor.afterPacket i) (hctrl : s'.inFifoCtrlD1 ≠ 0) :
    Reads pk i s s' 0 0 := by
  refine ⟨fun _ => ?_, fun hlast => ?_⟩
  · rw [hrd, hresult, Nat.zero_add, Nat.zero_add]
    exact afterPacket hstate hctrl pk
  · rw [hrd] at hlast
    exact absurd hlast (Nat.ne_of_lt pk.length_pos)

/-- A state in which no result is taken and a word may be read. -/
theorem reads_cases {f : OplProcessor} (h : Reading pk s j 1) (hj : j < pk.words.length)
    (hfinished : s.finished i = false) (hstep : s.step i = if s.inFifoRdEn i then f else s.hold)
    (hread : s.inFifoRdEn i = true → (j + 1 < pk.words.length → Reading pk f (j + 1) 1) ∧
      (j + 1 = pk.words.length → ∀ pk', Reading pk' f 0 0)) : Reads pk i s (s.step i) j 1 := by
  have hresult := OplProcessor.resultFifoRdEn_of_not_finished _ _ hfinished
  rw [hstep]
  cases hrd : s.inFifoRdEn i with
  | false => exact reads_of_not hj hrd hresult h.hold
  | true =>
    obtain ⟨hwithin, hdone⟩ := hread hrd
    by_cases hlt : j + 1 < pk.words.length
    · exact reads_of_word hlt hrd hresult (hwithin hlt)
    · have hlast : j + 1 = pk.words.length := by omega
      refine reads_of_last hlast hrd ?_
      rw [hresult]
      exact hdone hlast

variable (hreset : i.reset = false)

include hreset

theorem step_waitForInput (hstate : s.state = .waitForInput) (hctrl : s.inFifoCtrlD1 ≠ 0) :
    Reads pk i s (s.step i) 0 0 := by
  have hrd : s.inFifoRdEn i = false := by rw [OplProcessor.inFifoRdEn, hstate]
  have hresult : s.resultFifoRdEn i = !i.resultFifoEmpty := by
    rw [OplProcessor.resultFifoRdEn, OplProcessor.finished, hstate, Bool.true_and]
  rw [OplProcessor.step_waitForInput hreset hstate]
  exact reads_of_grant hrd hresult rfl hctrl

theorem step_writeLastWord (hstate : s.state = .writeLastWord) (hctrl : s.inFifoCtrlD1 ≠ 0) :
    Reads pk i s (s.step i) 0 0 := by
  have hrd : s.inFifoRdEn i = false := by rw [OplProcessor.inFifoRdEn, hstate]
  have hresult : s.resultFifoRdEn i =
      (i.outRdy && !decide (s.lastWordCnt < 2) && !i.resultFifoEmpty) := by
    rw [OplProcessor.resultFifoRdEn, OplProcessor.finished, hstate]
  have hstep := OplProcessor.step_writeLastWord hreset hstate
  cases hrdy : i.outRdy with
  | false =>
    rw [hrdy] at hresult hstep
    rw [hstep]
    exact reads_of_not pk.length_pos hrd (by rw [hresult]; rfl) (hold (.between (.inr hstate) hctrl))
  | true =>
    rw [hrdy, if_pos rfl] at hstep
    rw [hstep]
    by_cases hcnt : s.lastWordCnt < 2
    · have hstate' : (s.stepWriteLastWord i).state = .writeLastWord := if_pos hcnt
      rw [decide_eq_true hcnt, Bool.not_true, Bool.and_false, Bool.false_and] at hresult
      exact reads_of_not pk.length_pos hrd hresult (.between (.inr hstate') hctrl)
    · have hstate' : (s.stepWriteLastWord i).state = OplProcessor.afterPacket i := if_neg hcnt
      rw [hrdy, decide_eq_false hcnt, Bool.not_false, Bool.true_and, Bool.true_and] at hresult
      exact reads_of_grant hrd hresult hstate' hctrl

theorem step_writeReplacements (hstate : s.state = .writeReplacements)
    (hctrl : s.inFifoCtrlD1 ≠ 0) : Reads pk i s (s.step i) 0 1 := by
  have hrd : s.inFifoRdEn i = false := by rw [OplProcessor.inFifoRdEn, hstate]
  have hresult : s.resultFifoRdEn i = false :=
    OplProcessor.resultFifoRdEn_of_not_finished _ _ (by rw [OplProcessor.finished, hstate])
  refine reads_of_not pk.length_pos hrd hresult ?_
  rw [OplProcessor.step_writeReplacements hreset hstate]
  by_cases hmask : i.forwardBitmask = 0
  · have hstate' : (s.stepWriteReplacements i).state = .dropPkt := if_pos hmask
    exact .drop hstate' ⟨fun hzero => absurd hzero hctrl, fun hlt => absurd hlt (Nat.not_lt_zero _)⟩
  · have hstate' : (s.stepWriteReplacements i).state =
        if i.outRdy then .writeOutputDestination else .writeReplacements := if_neg hmask
    cases hrdy : i.outRdy with
    | false =>
      rw [hrdy] at hstate'
      exact .granted hstate' hctrl
    | true =>
      rw [hrdy] at hstate'
      exact .seeking hstate' hctrl fun n w hn => absurd hn (Nat.not_lt_zero n)

variable (hj : j < pk.words.length) (hword : s.inFifoRdEn i = true → pk.words[j]? = some i.inFifo)

include hj hword

theorem step_writeOutputDestination (hstate : s.state = .writeOutputDestination)
    (hctrl : s.inFifoCtrlD1 ≠ 0)
    (hunseen : ∀ n w, n < j → pk.words[n]? = some w → w.ctrl ≠ ioQueueStageNum) :
    Reads pk i s (s.step i) j 1 := by
  have hstep := OplProcessor.step_writeOutputDestination hreset hstate
  have hfinished : s.finished i = false := by rw [OplProcessor.finished, hstate]
  refine reads_cases (.seeking hstate hctrl hunseen) hj hfinished hstep fun hrd => ?_
  have hw := hword hrd
  have hlen := pk.length_words
  have hdata := pk.length_data_ge
  -- The header of the input queue is among those to come.
  have hhdr : j < pk.hdrs.length := by
    obtain ⟨w, hmem, hioq⟩ := pk.ioq
    obtain ⟨n, hn, rfl⟩ := List.getElem_of_mem hmem
    by_contra hge
    refine hunseen n pk.hdrs[n] (by omega) ?_ hioq
    rw [Packet.words, List.getElem?_append_left hn, List.getElem?_eq_getElem hn]
  have hne := Packet.ctrl_of_hdr hhdr hw
  refine ⟨fun _ => ?_, fun hlast => by omega⟩
  have hseek : ∀ f : OplProcessor, f.state = .writeOutputDestination → f.inFifoCtrlD1 ≠ 0 →
      i.inFifo.ctrl ≠ ioQueueStageNum → Reading pk f (j + 1) 1 := by
    intro f hf hfctrl hother
    refine .seeking hf hfctrl fun n w hn hnw => ?_
    by_cases hnj : n < j
    · exact hunseen n w hnj hnw
    · obtain rfl : n = j := by omega
      rw [hw] at hnw
      exact Option.some.inj hnw ▸ hother
  rw [OplProcessor.stepWriteOutputDestination]
  by_cases hvlan : i.inFifo.ctrl = vlanCtrlWord
  · have hother : i.inFifo.ctrl ≠ ioQueueStageNum := by
      rw [hvlan]
      decide
    rw [if_pos hvlan]
    refine hseek _ ?_ ?_ hother
    · split <;> exact hstate
    · split
      · exact (by decide : (0xef : BitVec 8) ≠ 0)
      · exact hne
  · rw [if_neg hvlan]
    by_cases hioq : i.inFifo.ctrl = ioQueueStageNum
    · rw [if_pos hioq]
      split
      · exact .hdrs (.inl rfl) (by decide : vlanCtrlWord ≠ 0) hhdr
      · exact .hdrs (.inr rfl) hne hhdr
    · rw [if_neg hioq]
      exact hseek _ hstate hne hioq

omit hword in
theorem step_writeIoHdr (hstate : s.state = .writeIoHdr) (hctrl : s.inFifoCtrlD1 ≠ 0)
    (hhdr : j ≤ pk.hdrs.length) : Reads pk i s (s.step i) j 1 := by
  have hrd : s.inFifoRdEn i = false := by rw [OplProcessor.inFifoRdEn, hstate]
  have hresult : s.resultFifoRdEn i = false :=
    OplProcessor.resultFifoRdEn_of_not_finished _ _ (by rw [OplProcessor.finished, hstate])
  refine reads_of_not hj hrd hresult ?_
  rw [OplProcessor.step_writeIoHdr hreset hstate]
  split
  · exact .hdrs (.inr rfl) (by decide : ioQueueStageNum ≠ 0) hhdr
  · exact hold (.hdrs (.inl hstate) hctrl hhdr)

theorem step_hdr1st (hstate : s.state = .hdr1st) (hctrl : s.inFifoCtrlD1 ≠ 0)
    (hhdr : j ≤ pk.hdrs.length) : Reads pk i s (s.step i) j 1 := by
  have hstep := OplProcessor.step_hdr1st hreset hstate
  have hfinished : s.finished i = false := by rw [OplProcessor.finished, hstate]
  refine reads_cases (.hdrs (.inr hstate) hctrl hhdr) hj hfinished hstep fun hrd => ?_
  have hw := hword hrd
  have hlen := pk.length_words
  have hdata := pk.length_data_ge
  refine ⟨fun _ => ?_, fun hlast => by omega⟩
  have heop : s.isEop i = false := by
    rw [OplProcessor.isEop, decide_eq_false hctrl, Bool.and_false]
  rw [OplProcessor.stepHdr1st]
  rcases Nat.lt_or_eq_of_le hhdr with hlt | rfl
  · have hne := Packet.ctrl_of_hdr hlt hw
    rw [if_neg hne, heop]
    exact .hdrs (.inr hstate) hne hlt
  · have hzero : i.inFifo.ctrl = 0 :=
      (Packet.ctrl_eq_zero_iff (Nat.le_refl _) hw).mpr (by omega)
    rw [if_pos hzero]
    exact .data (.inl rfl) hzero (Nat.lt_succ_self _)

omit hreset in
/-- A data word: with a control it is the last one. -/
theorem reads_data {f : OplProcessor} (hstate : s.state = .hdrCont ∨ s.state = .writePacket)
    (hctrl : s.inFifoCtrlD1 = 0) (hdata : pk.hdrs.length < j)
    (hstep : s.step i = if s.inFifoRdEn i then f else s.hold)
    (hf : InData i (s.isEop i) f) : Reads pk i s (s.step i) j 1 := by
  have hfinished : s.finished i = false := by
    rcases hstate with hstate | hstate <;> rw [OplProcessor.finished, hstate]
  refine reads_cases (.data hstate hctrl hdata) hj hfinished hstep fun hrd => ?_
  have hzero := Packet.ctrl_eq_zero_iff (Nat.le_of_lt hdata) (hword hrd)
  have heop : s.isEop i = decide (i.inFifo.ctrl ≠ 0) := by
    rw [OplProcessor.isEop, decide_eq_true hctrl, Bool.and_true]
  refine ⟨fun hlt => ?_, fun hlast pk' => ?_⟩
  · have hctrl' := hzero.mpr hlt
    refine .data (hf.more ?_) (hf.ctrl.trans hctrl') (by omega)
    rw [heop, hctrl']
    decide
  · have hne : i.inFifo.ctrl ≠ 0 := hzero.not.mpr (by omega)
    refine .between (.inr (hf.last ?_)) (hf.ctrl ▸ hne)
    rw [heop, decide_eq_true hne]

theorem step_hdrCont (hstate : s.state = .hdrCont) (hctrl : s.inFifoCtrlD1 = 0)
    (hdata : pk.hdrs.length < j) : Reads pk i s (s.step i) j 1 := by
  exact reads_data hj hword (.inl hstate) hctrl hdata (OplProcessor.step_hdrCont hreset hstate)
    inData_stepHdrCont

theorem step_writePacket (hstate : s.state = .writePacket) (hctrl : s.inFifoCtrlD1 = 0)
    (hdata : pk.hdrs.length < j) : Reads pk i s (s.step i) j 1 := by
  exact reads_data hj hword (.inr hstate) hctrl hdata
    (OplProcessor.step_writePacket hreset hstate) inData_stepWritePacket

theorem step_dropPkt (hstate : s.state = .dropPkt)
    (hctrl : s.inFifoCtrlD1 = 0 ↔ pk.hdrs.length < j) : Reads pk i s (s.step i) j 1 := by
  have hstep := OplProcessor.step_dropPkt hreset hstate
  have hrdEn : s.inFifoRdEn i = !i.inFifoEmpty := by rw [OplProcessor.inFifoRdEn, hstate]
  have hresult : s.resultFifoRdEn i =
      (s.inFifoRdEn i && s.isEop i && !i.resultFifoEmpty) := by
    rw [OplProcessor.resultFifoRdEn, OplProcessor.finished, hstate, hrdEn]
  have hlen := pk.length_words
  have hdata := pk.length_data_ge
  rw [hstep]
  cases hrd : s.inFifoRdEn i with
  | false =>
    exact reads_of_not hj hrd (by rw [hresult, hrd]; rfl) (hold (.drop hstate hctrl))
  | true =>
    have hw := hword hrd
    rw [if_pos rfl]
    by_cases hlast : j + 1 = pk.words.length
    · -- The last word has a control after one without.
      have hne : i.inFifo.ctrl ≠ 0 :=
        (Packet.ctrl_eq_zero_iff (by omega) hw).not.mpr (by omega)
      have heop : s.isEop i = true := by
        rw [OplProcessor.isEop, decide_eq_true hne, decide_eq_true (hctrl.mpr (by omega))]
        rfl
      have hstate' : (s.stepDropPkt i).state = OplProcessor.afterPacket i := if_pos heop
      refine reads_of_last hlast hrd fun pk' => ?_
      rw [hresult, hrd, heop]
      exact afterPacket hstate' hne pk'
    · have hctrl' : i.inFifo.ctrl = 0 ↔ pk.hdrs.length < j + 1 := by
        by_cases hhdr : j < pk.hdrs.length
        · exact ⟨fun hzero => absurd hzero (Packet.ctrl_of_hdr hhdr hw), fun hlt => by omega⟩
        · rw [Packet.ctrl_eq_zero_iff (by omega) hw]
          exact ⟨fun _ => by omega, fun _ => by omega⟩
      have heop : s.isEop i = false := by
        rw [OplProcessor.isEop, Bool.and_eq_false_iff, decide_eq_false_iff_not,
          decide_eq_false_iff_not, not_not]
        by_cases hhdr : pk.hdrs.length < j
        · exact .inl (hctrl'.mpr (by omega))
        · exact .inr (hctrl.not.mpr hhdr)
      have hstate' : (s.stepDropPkt i).state = .dropPkt := by
        rw [OplProcessor.stepDropPkt, heop]
        rfl
      exact reads_of_word (by omega) hrd (by rw [hresult, heop, Bool.and_false, Bool.false_and])
        (.drop hstate' hctrl')

/-- What one cycle does, whatever the state. -/
theorem step (h : Reading pk s j n) : Reads pk i s (s.step i) j n := by
  cases h with
  | between state ctrl =>
    rcases state with state | state
    · exact step_waitForInput hreset state ctrl
    · exact step_writeLastWord hreset state ctrl
  | granted state ctrl => exact step_writeReplacements hreset state ctrl
  | seeking state ctrl unseen =>
    exact step_writeOutputDestination hreset hj hword state ctrl unseen
  | hdrs state ctrl hhdr =>
    rcases state with state | state
    · exact step_writeIoHdr hreset hj state ctrl hhdr
    · exact step_hdr1st hreset hj hword state ctrl hhdr
  | data state ctrl hdata =>
    rcases state with state | state
    · exact step_hdrCont hreset hj hword state ctrl hdata
    · exact step_writePacket hreset hj hword state ctrl hdata
  | drop state ctrl => exact step_dropPkt hreset hj hword state ctrl

end Reading

section Stream

variable {pkts : Nat → Packet} {i : Nat → OplIn} {opl : Nat → OplProcessor}

/-- The cycles in which words are read. -/
def wordRd (i : Nat → OplIn) (opl : Nat → OplProcessor) (t : Nat) : Bool := (opl t).inFifoRdEn (i t)

/-- The cycles in which results are taken. -/
def resultRd (i : Nat → OplIn) (opl : Nat → OplProcessor) (t : Nat) : Bool :=
  (opl t).resultFifoRdEn (i t)

variable (hopl : Follows OplProcessor.step i opl) (hreset : ∀ t, (i t).reset = false)
  (hstate : (opl 0).state = .waitForInput) (hctrl : (opl 0).inFifoCtrlD1 ≠ 0)
  (hwords : ∀ t k j, wordRd i opl t = true → IsAt (lengths pkts) (count (wordRd i opl) t) k j →
    (pkts k).words[j]? = some (i t).inFifo)

include hopl hreset hstate hctrl hwords

/-- The processor is where the words are that it has read; it has taken the results of the packets
before, and perhaps that of the packet it is at. -/
theorem reading_of_words (t : Nat) :
    ∃ k j n, IsAt (lengths pkts) (count (wordRd i opl) t) k j ∧ Reading (pkts k) (opl t) j n ∧
      count (resultRd i opl) t = k + n := by
  induction t with
  | zero =>
    exact ⟨0, 0, 0, isAt_zero (pkts 0).length_pos, .between (.inl hstate) hctrl, count_zero _⟩
  | succ t ih =>
    obtain ⟨k, j, n, hat, hreading, hcount⟩ := ih
    have hlt : j < (pkts k).words.length := hat.lt
    have hreads := hreading.step (hreset t) hlt fun hrd => hwords t k j hrd hat
    rw [hopl t, count_succ, count_succ, hcount]
    by_cases hlast : j + (if wordRd i opl t then 1 else 0) = (pkts k).words.length
    · obtain ⟨rfl, hnext⟩ := hreads.done hlast
      have hrd : wordRd i opl t = true := by
        cases hrd : wordRd i opl t with
        | true => rfl
        | false =>
          rw [hrd] at hlast
          exact absurd hlast (Nat.ne_of_lt hlt)
      rw [hrd] at hlast ⊢
      refine ⟨k + 1, 0, _, hat.next hlast (pkts (k + 1)).length_pos, hnext _, ?_⟩
      rfl
    · refine ⟨k, j + if wordRd i opl t then 1 else 0, n + if resultRd i opl t then 1 else 0,
        ?_, hreads.within ?_, Nat.add_assoc _ _ _⟩
      · cases hrd : wordRd i opl t with
        | false => exact hat
        | true =>
          rw [hrd, if_pos rfl] at hlast
          exact hat.succ (by show j + 1 < (pkts k).words.length; omega)
      · show j + (if wordRd i opl t then 1 else 0) < (pkts k).words.length
        cases hrd : wordRd i opl t with
        | false => exact hlt
        | true =>
          rw [hrd, if_pos rfl] at hlast
          rw [if_pos rfl]
          omega

/-- No word is read of a packet whose result was not taken. -/
theorem count_wordRd_le (t : Nat) :
    count (wordRd i opl) t ≤ start (lengths pkts) (count (resultRd i opl) t) := by
  obtain ⟨k, j, n, hat, hreading, hcount⟩ :=
    reading_of_words hopl hreset hstate hctrl hwords t
  have heq := hat.eq
  have hlt := hat.lt
  have hnext : start (lengths pkts) (k + 1) = start (lengths pkts) k + lengths pkts k := rfl
  rw [hcount]
  cases hreading with
  | between =>
    rw [Nat.add_zero]
    omega
  | granted => omega
  | seeking => omega
  | hdrs => omega
  | data => omega
  | drop => omega

/-- When a result is taken, the packets before its own are read, and nothing else. -/
theorem count_wordRd_of_result {t : Nat} (ht : resultRd i opl t = true) :
    count (wordRd i opl) (t + 1) = start (lengths pkts) (count (resultRd i opl) t) := by
  obtain ⟨k, j, n, hat, hreading, hcount⟩ :=
    reading_of_words hopl hreset hstate hctrl hwords (t + 1)
  have hgranted : (opl (t + 1)).state = .writeReplacements := by
    rw [hopl t]
    exact OplProcessor.state_of_resultFifoRdEn (hreset t) ht
  rw [count_succ, ht, if_pos rfl] at hcount
  cases hreading with
  | granted =>
    rw [hat.eq, Nat.add_right_cancel hcount]
    rfl
  | between state =>
    rw [hgranted] at state
    rcases state with state | state <;> cases state
  | seeking state =>
    rw [hgranted] at state
    cases state
  | hdrs state =>
    rw [hgranted] at state
    rcases state with state | state <;> cases state
  | data state =>
    rw [hgranted] at state
    rcases state with state | state <;> cases state
  | drop state =>
    rw [hgranted] at state
    cases state

end Stream

end Sdpa.Hardware
