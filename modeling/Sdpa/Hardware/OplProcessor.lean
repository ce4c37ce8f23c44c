import Sdpa.Hardware.Packets
import Mathlib.Tactic.Basic

/-!
# The output port lookup processor

`opl_processor` takes a result, reads the packet it is for from the input FIFO and
sends it on with the output ports in its input queue header, or drops it. A second
state machine follows this one and replaces header fields in the words on their
way out; it drives `out_data` alone and is in `OplRewriter`, with that register.
-/
namespace Sdpa.Hardware

inductive OplState where
  | waitForInput | writeReplacements | writeOutputDestination | writeIoHdr | hdr1st | hdrCont
  | writePacket | dropPkt | writeLastWord
deriving DecidableEq, Repr

inductive HdrReplace where
  | hdr2nd | hdr3rd | hdr4th | hdr5th | hdr6th
deriving DecidableEq, Repr

structure OplIn where
  resultFifoDout : BitVec 8 × BitVec 320
  resultFifoEmpty : Bool
  inFifo : Word
  inFifoEmpty : Bool
  outRdy : Bool
  reset : Bool

/-- The registers of `opl_processor`. -/
structure OplProcessor where
  state : OplState
  outWrPrep1 : Bool
  outWrPrep2 : Bool
  outWrPrep3 : Bool
  outWr : Bool
  inFifoCtrlD1 : BitVec 8
  inFifoCtrlD2 : BitVec 8
  inFifoCtrlD3 : BitVec 8
  outCtrl : BitVec 8
  inFifoDataD1 : BitVec 64
  outDataIoq : BitVec 64
  inFifoDataD2 : BitVec 64
  inFifoDataD3 : BitVec 64
  pktsDropped : BitVec 8
  vlanProcDone : Bool
  hdrReplaceCntr : HdrReplace
  isIp : Bool
  isUdp : Bool
  isTcp : Bool
  ipHdrLen : BitVec 4
  lastWordCnt : BitVec 2
deriving DecidableEq, Repr

/-! ## The fields of an action that concern the headers -/

namespace OplAction

variable (a : BitVec 320)

def forwardBitmask : BitVec 16 := a.extractLsb' 0 16

def nf2ActionFlag : BitVec 16 := a.extractLsb' 16 16

def setVlanVid : BitVec 16 := a.extractLsb' 32 16

def setVlanPcp : BitVec 8 := a.extractLsb' 48 8

def hasFlag (flag : BitVec 16) : Bool := nf2ActionFlag a &&& flag ≠ 0

def ofpatSetVlanVid : BitVec 16 := 0x0002
def ofpatSetVlanPcp : BitVec 16 := 0x0004
def ofpatStripVlan : BitVec 16 := 0x0008

/-- The VLAN tag of a module header with the new values. -/
def setVlan (data : BitVec 64) : BitVec 64 :=
  let data := if hasFlag a ofpatSetVlanVid then putBits 0 ((setVlanVid a).extractLsb' 0 12) data
    else data
  if hasFlag a ofpatSetVlanPcp then putBits 13 ((setVlanPcp a).extractLsb' 0 3) data else data

end OplAction

namespace OplIn

variable (i : OplIn)

/-! The fields of the result. -/

def forwardBitmask : BitVec 16 := OplAction.forwardBitmask i.resultFifoDout.2

def nf2ActionFlag : BitVec 16 := OplAction.nf2ActionFlag i.resultFifoDout.2

/-- `src_port` has three bits; one bit of the eight of `pkts_dropped` is set. -/
def srcPortDecoded : BitVec 8 := 1 <<< (i.resultFifoDout.1.extractLsb' 0 3).toNat

def hasFlag (flag : BitVec 16) : Bool := OplAction.hasFlag i.resultFifoDout.2 flag

def setVlan (data : BitVec 64) : BitVec 64 := OplAction.setVlan i.resultFifoDout.2 data

/-- `IOQ_DST_PORT` is set. -/
def setDstPort (data : BitVec 64) : BitVec 64 := putBits 48 i.forwardBitmask data

end OplIn

namespace OplProcessor

def init : OplProcessor where
  state := .waitForInput
  outWrPrep1 := false
  outWrPrep2 := false
  outWrPrep3 := false
  outWr := false
  inFifoCtrlD1 := 1
  inFifoCtrlD2 := 1
  inFifoCtrlD3 := 1
  outCtrl := 1
  inFifoDataD1 := 0
  outDataIoq := 0
  inFifoDataD2 := 0
  inFifoDataD3 := 0
  pktsDropped := 0
  vlanProcDone := false
  hdrReplaceCntr := .hdr2nd
  isIp := false
  isUdp := false
  isTcp := false
  ipHdrLen := 0
  lastWordCnt := 0

variable (i : OplIn) (s : OplProcessor)

def isEop : Bool := i.inFifo.ctrl ≠ 0 && s.inFifoCtrlD1 = 0

/-- The processor is done with its packet in this cycle. -/
def finished : Bool :=
  match s.state with
  | .waitForInput => true
  | .dropPkt => !i.inFifoEmpty && isEop i s
  | .writeLastWord => i.outRdy && !(s.lastWordCnt < 2)
  | _ => false

def resultFifoRdEn : Bool := finished i s && !i.resultFifoEmpty

def inFifoRdEn : Bool :=
  match s.state with
  | .writeOutputDestination | .hdr1st | .hdrCont | .writePacket => i.outRdy && !i.inFifoEmpty
  | .dropPkt => !i.inFifoEmpty
  | _ => false

def wildcardWins : Bool := s.state = .writeReplacements && i.nf2ActionFlag ≠ 0

def wildcardLose : Bool := s.state = .writeReplacements && i.nf2ActionFlag = 0

/-- The words on their way out move on. -/
def push (ctrl : BitVec 8) (data : BitVec 64) : OplProcessor :=
  { s with
    outWrPrep1 := true
    outWrPrep2 := s.outWrPrep1
    outWrPrep3 := s.outWrPrep2
    outWr := s.outWrPrep3
    inFifoCtrlD1 := ctrl
    inFifoCtrlD2 := s.inFifoCtrlD1
    inFifoCtrlD3 := s.inFifoCtrlD2
    outCtrl := s.inFifoCtrlD3
    inFifoDataD1 := data
    inFifoDataD2 := s.inFifoDataD1
    inFifoDataD3 := s.inFifoDataD2
    pktsDropped := 0 }

/-- Nothing moves. -/
def hold : OplProcessor := { s with outWrPrep1 := false, outWr := false, pktsDropped := 0 }

/-- The next result is taken, or waited for. -/
def afterPacket : OplState := if i.resultFifoEmpty then .waitForInput else .writeReplacements

def stepWriteReplacements : OplProcessor :=
  { hold s with
    vlanProcDone := false
    hdrReplaceCntr := .hdr2nd
    isIp := false
    isUdp := false
    isTcp := false
    ipHdrLen := 0
    lastWordCnt := 0
    state :=
      if i.forwardBitmask = 0 then .dropPkt
      else if i.outRdy then .writeOutputDestination
      else .writeReplacements }

def stepWriteOutputDestination : OplProcessor :=
  let s := { s with outDataIoq := i.inFifo.data }
  if i.inFifo.ctrl = vlanCtrlWord then
    { (if i.hasFlag OplAction.ofpatStripVlan then push s 0xef i.inFifo.data
      else push s i.inFifo.ctrl (i.setVlan i.inFifo.data)) with vlanProcDone := true }
  else if i.inFifo.ctrl = ioQueueStageNum then
    if !s.vlanProcDone && (i.hasFlag OplAction.ofpatSetVlanVid || i.hasFlag OplAction.ofpatSetVlanPcp) then
      -- A VLAN header goes before this one, which is kept in `out_data_ioq`.
      { push s vlanCtrlWord (i.setVlan 0) with vlanProcDone := true, state := .writeIoHdr }
    else { push s i.inFifo.ctrl (i.setDstPort i.inFifo.data) with state := .hdr1st }
  else push s i.inFifo.ctrl i.inFifo.data

def stepWriteIoHdr : OplProcessor :=
  { push s ioQueueStageNum (i.setDstPort s.outDataIoq) with state := .hdr1st }

def stepHdr1st : OplProcessor :=
  let next := push s i.inFifo.ctrl i.inFifo.data
  if i.inFifo.ctrl = 0 then { next with hdrReplaceCntr := .hdr2nd, state := .hdrCont }
  else if isEop i s then { next with state := .writeLastWord }
  else next

/-- The IP header is passed, up to six words of it. -/
def stepOptions (short : Bool) (next : OplProcessor) : OplProcessor :=
  if short then if isEop i s then next else { next with state := .writePacket }
  else { next with ipHdrLen := s.ipHdrLen - 2, hdrReplaceCntr := .hdr6th }

def stepHdrCont : OplProcessor :=
  let word := i.inFifo.data
  let next := { push s i.inFifo.ctrl word with
    state := if isEop i s then .writeLastWord else .hdrCont }
  match s.hdrReplaceCntr with
  | .hdr2nd =>
    { next with
      isIp := s.isIp || word.extractLsb' 16 16 = 0x0800
      ipHdrLen := word.extractLsb' 8 4
      hdrReplaceCntr := .hdr3rd }
  | .hdr3rd =>
    { next with
      isUdp := s.isUdp || s.isIp && word.extractLsb' 0 8 = 0x11
      isTcp := s.isTcp || s.isIp && word.extractLsb' 0 8 = 0x06
      hdrReplaceCntr := .hdr4th }
  | .hdr4th => { next with hdrReplaceCntr := .hdr5th }
  | .hdr5th => stepOptions i s (!s.isIp || s.ipHdrLen < 7) next
  | .hdr6th => stepOptions i s (s.ipHdrLen < 7) next

def stepWritePacket : OplProcessor :=
  { push s i.inFifo.ctrl i.inFifo.data with
    state := if isEop i s then .writeLastWord else .writePacket }

def stepDropPkt : OplProcessor :=
  { hold s with
    inFifoCtrlD1 := i.inFifo.ctrl
    pktsDropped := if isEop i s then i.srcPortDecoded else 0
    state := if isEop i s then afterPacket i else .dropPkt }

def stepWriteLastWord : OplProcessor :=
  { s with
    outWrPrep1 := false
    outWrPrep2 := false
    outWrPrep3 := false
    outWr := true
    inFifoCtrlD2 := s.inFifoCtrlD1
    inFifoCtrlD3 := s.inFifoCtrlD2
    outCtrl := s.inFifoCtrlD3
    inFifoDataD2 := s.inFifoDataD1
    inFifoDataD3 := s.inFifoDataD2
    pktsDropped := 0
    lastWordCnt := if s.lastWordCnt < 2 then s.lastWordCnt + 1 else s.lastWordCnt
    state := if s.lastWordCnt < 2 then .writeLastWord else afterPacket i }

def step : OplProcessor :=
  if i.reset then init
  else
    match s.state with
    | .waitForInput => { hold s with state := afterPacket i }
    | .writeReplacements => stepWriteReplacements i s
    | .writeOutputDestination =>
      if inFifoRdEn i s then stepWriteOutputDestination i s else hold s
    | .writeIoHdr => if i.outRdy then stepWriteIoHdr i s else hold s
    | .hdr1st => if inFifoRdEn i s then stepHdr1st i s else hold s
    | .hdrCont => if inFifoRdEn i s then stepHdrCont i s else hold s
    | .writePacket => if inFifoRdEn i s then stepWritePacket i s else hold s
    | .dropPkt => if inFifoRdEn i s then stepDropPkt i s else hold s
    | .writeLastWord => if i.outRdy then stepWriteLastWord i s else hold s

/-! ## One cycle in each state -/

section Step

variable {i s} (hreset : i.reset = false)

include hreset

theorem step_waitForInput (hstate : s.state = .waitForInput) :
    step i s = { hold s with state := afterPacket i } := by
  rw [step, hreset, hstate]
  rfl

theorem step_writeReplacements (hstate : s.state = .writeReplacements) :
    step i s = stepWriteReplacements i s := by
  rw [step, hreset, hstate]
  rfl

theorem step_writeOutputDestination (hstate : s.state = .writeOutputDestination) :
    step i s = if inFifoRdEn i s then stepWriteOutputDestination i s else hold s := by
  rw [step, hreset, hstate]
  rfl

theorem step_writeIoHdr (hstate : s.state = .writeIoHdr) :
    step i s = if i.outRdy then stepWriteIoHdr i s else hold s := by
  rw [step, hreset, hstate]
  rfl

theorem step_hdr1st (hstate : s.state = .hdr1st) :
    step i s = if inFifoRdEn i s then stepHdr1st i s else hold s := by
  rw [step, hreset, hstate]
  rfl

theorem step_hdrCont (hstate : s.state = .hdrCont) :
    step i s = if inFifoRdEn i s then stepHdrCont i s else hold s := by
  rw [step, hreset, hstate]
  rfl

theorem step_writePacket (hstate : s.state = .writePacket) :
    step i s = if inFifoRdEn i s then stepWritePacket i s else hold s := by
  rw [step, hreset, hstate]
  rfl

theorem step_dropPkt (hstate : s.state = .dropPkt) :
    step i s = if inFifoRdEn i s then stepDropPkt i s else hold s := by
  rw [step, hreset, hstate]
  rfl

theorem step_writeLastWord (hstate : s.state = .writeLastWord) :
    step i s = if i.outRdy then stepWriteLastWord i s else hold s := by
  rw [step, hreset, hstate]
  rfl

/-- After a packet the next one is begun if its result is there. -/
theorem state_of_finished (hfinished : finished i s = true) :
    (s.step i).state = afterPacket i := by
  rw [finished] at hfinished
  rw [step, hreset, if_neg Bool.false_ne_true]
  cases hstate : s.state with
  | waitForInput => rfl
  | dropPkt =>
    simp only [hstate, Bool.and_eq_true] at hfinished
    have hrd : s.inFifoRdEn i = true := by
      rw [inFifoRdEn, hstate]
      exact hfinished.1
    simp only [hrd, if_true, stepDropPkt, hfinished.2]
  | writeLastWord =>
    simp only [hstate, Bool.and_eq_true, Bool.not_eq_true', decide_eq_false_iff_not] at hfinished
    simp only [hfinished.1, if_true, stepWriteLastWord, if_neg hfinished.2]
  | writeReplacements => simp [hstate] at hfinished
  | writeOutputDestination => simp [hstate] at hfinished
  | writeIoHdr => simp [hstate] at hfinished
  | hdr1st => simp [hstate] at hfinished
  | hdrCont => simp [hstate] at hfinished
  | writePacket => simp [hstate] at hfinished

/-- When a result was taken, its packet comes next. -/
theorem state_of_resultFifoRdEn (h : s.resultFifoRdEn i = true) :
    (s.step i).state = .writeReplacements := by
  rw [resultFifoRdEn, Bool.and_eq_true, Bool.not_eq_true'] at h
  rw [state_of_finished hreset h.1, afterPacket, h.2]
  rfl

/-- A packet that is to be sent out waits for `out_rdy`. -/
theorem state_of_waits (hstate : s.state = .writeReplacements) (hports : i.forwardBitmask ≠ 0)
    (hrdy : i.outRdy = false) : (s.step i).state = .writeReplacements := by
  rw [step_writeReplacements hreset hstate, stepWriteReplacements, if_neg hports, hrdy]
  rfl

/-- Within a packet none is begun, unless this one waits for `out_rdy`. -/
theorem state_of_not_finished (hfinished : finished i s = false)
    (hprompt : s.state = .writeReplacements → i.forwardBitmask ≠ 0 → i.outRdy = true) :
    (s.step i).state ≠ .writeReplacements := by
  rw [finished] at hfinished
  cases hstate : s.state with
  | waitForInput => simp [hstate] at hfinished
  | writeReplacements =>
    rw [step_writeReplacements hreset hstate, stepWriteReplacements]
    by_cases hports : i.forwardBitmask = 0
    · simp [hports]
    · rw [if_neg hports, hprompt hstate hports]
      simp
  | writeOutputDestination =>
    rw [step_writeOutputDestination hreset hstate, stepWriteOutputDestination]
    split_ifs <;> simp [push, hold, hstate]
  | writeIoHdr =>
    rw [step_writeIoHdr hreset hstate, stepWriteIoHdr]
    split_ifs <;> simp [hold, hstate]
  | hdr1st =>
    rw [step_hdr1st hreset hstate, stepHdr1st]
    split_ifs <;> simp [push, hold, hstate]
  | hdrCont =>
    rw [step_hdrCont hreset hstate, stepHdrCont]
    cases s.hdrReplaceCntr <;> simp only [stepOptions] <;> split_ifs <;> simp [hold, hstate]
  | writePacket =>
    rw [step_writePacket hreset hstate, stepWritePacket]
    split_ifs <;> simp [hold, hstate]
  | dropPkt =>
    simp only [hstate] at hfinished
    rw [step_dropPkt hreset hstate, stepDropPkt, inFifoRdEn, hstate]
    cases hempty : i.inFifoEmpty with
    | true => simp [hold, hstate]
    | false =>
      rw [hempty, Bool.not_false, Bool.true_and] at hfinished
      simp [hfinished]
  | writeLastWord =>
    simp only [hstate] at hfinished
    rw [step_writeLastWord hreset hstate, stepWriteLastWord]
    cases hrdy : i.outRdy with
    | false => simp [hold, hstate]
    | true =>
      rw [hrdy, Bool.true_and, Bool.not_eq_false', decide_eq_true_eq] at hfinished
      rw [if_pos rfl, if_pos hfinished]
      simp

/-- So a packet that does not wait is in `WRITE_REPLACEMENTS` for one cycle. -/
theorem state_eq_resultFifoRdEn
    (hprompt : s.state = .writeReplacements → i.forwardBitmask ≠ 0 → i.outRdy = true) :
    decide ((s.step i).state = .writeReplacements) = s.resultFifoRdEn i := by
  cases hrd : s.resultFifoRdEn i with
  | true => exact decide_eq_true (state_of_resultFifoRdEn hreset hrd)
  | false =>
    refine decide_eq_false ?_
    cases hfinished : finished i s with
    | false => exact state_of_not_finished hreset hfinished hprompt
    | true =>
      rw [resultFifoRdEn, hfinished, Bool.true_and, Bool.not_eq_false'] at hrd
      rw [state_of_finished hreset hfinished, afterPacket, hrd]
      decide

end Step

/-- One of the two is high in `WRITE_REPLACEMENTS`. -/
theorem wins_or_lose :
    (wildcardWins i s || wildcardLose i s) = decide (s.state = .writeReplacements) := by
  rw [wildcardWins, wildcardLose, ← Bool.and_or_distrib_left, decide_not, Bool.not_or_self,
    Bool.and_true]

theorem finished_of_state (hstate : s.state = .writeReplacements) : finished i s = false := by
  rw [finished, hstate]

/-- Within a packet no result is taken. -/
theorem resultFifoRdEn_of_not_finished (h : finished i s = false) :
    resultFifoRdEn i s = false := by rw [resultFifoRdEn, h, Bool.false_and]

end OplProcessor

end Sdpa.Hardware
