import Sdpa.Hardware.LookupTable
import Sdpa.Hardware.Packets

/-!
# The header parser

`header_parser` watches the words that go into the input FIFO and puts the flow
entry of a packet together. `flow_entry_vld` is raised with the word that
completes the entry: a TCP or UDP packet has it one word after its ports, and IP
options delay it by a word for each two of them.

The parameters are those of the instance in `output_port_lookup`. The
asynchronous resets are taken at the clock edge.
-/
namespace Sdpa.Hardware

open Lib.Clocked

inductive ParserState where
  | moduleHdrs | pktWords | waitEop | resetFlowEntry
deriving DecidableEq, Repr

/-- The registers of the state machine that parses the header. -/
structure ParserFsm where
  state : ParserState
  counter : BitVec 4
  flowEntryVld : Bool
  flowEntry : BitVec 248
  pktSize : BitVec 12
  isIp : Bool
  isTcpUdp : Bool
  isTcp : Bool
  isUdp : Bool
  isIcmp : Bool
  isVlan : Bool
  isArp : Bool
  ipHdrLen : BitVec 4
  queryId : BitVec 16
  isAck : Bool
  isRst : Bool
  isSyn : Bool
  isFin : Bool
deriving DecidableEq, Repr

def ethTypeIp : BitVec 16 := 0x0800
def ethTypeArp : BitVec 16 := 0x0806
def ipProtoTcp : BitVec 8 := 0x06
def ipProtoUdp : BitVec 8 := 0x11
def ipProtoIcmp : BitVec 8 := 0x01

namespace ParserFsm

variable (w : Word) (s : ParserFsm)

/-- `ADDITIONAL_WORD_DEFAULT` where the VLAN goes, zero elsewhere. -/
def flowEntryDefault : BitVec 248 := 0xffff#16 ++ 0#232

def init : ParserFsm :=
  ⟨.moduleHdrs, 0, false, flowEntryDefault, 0, false, false, false, false, false, false, false, 0,
    0, false, false, false, false⟩

/-- The VLAN tag, or the size and the source port of the packet. -/
def moduleHdr : ParserFsm :=
  if w.ctrl = vlanCtrlWord then
    { s with
      flowEntry := putBits 232 (w.data.extractLsb' 0 16 &&& 0xefff) s.flowEntry
      isVlan := true }
  else if w.ctrl = ioQueueStageNum then
    { s with
      flowEntry := putBits 216 (w.data.extractLsb' 16 8) s.flowEntry
      pktSize := if s.isVlan then w.data.extractLsb' 0 12 + 4 else w.data.extractLsb' 0 12
      isVlan := false }
  else s

/-- The addresses of the Ethernet header begin. -/
def firstWord : ParserFsm :=
  { s with
    flowEntry := putBits 200 (w.data.extractLsb' 0 16)
      (putBits 120 (w.data.extractLsb' 16 48) s.flowEntry)
    state := .pktWords }

/-- The entry is complete; `in_ctrl` tells whether the packet is too. -/
def announce : ParserFsm :=
  { s with
    flowEntryVld := true
    state := if w.ctrl ≠ 0 then .resetFlowEntry else .waitEop }

def macSrcLoEthertypeWord : ParserFsm :=
  let ethType := w.data.extractLsb' 16 16
  let entry := putBits 104 ethType (putBits 168 (w.data.extractLsb' 32 32) s.flowEntry)
  { s with
    counter := s.counter + 1
    flowEntry := if ethType = ethTypeIp then putBits 226 (w.data.extractLsb' 2 6) entry else entry
    isIp := ethType = ethTypeIp
    isArp := ethType = ethTypeArp
    ipHdrLen := w.data.extractLsb' 8 4 }

def ipProtWord : ParserFsm :=
  let proto := w.data.extractLsb' 0 8
  let next := { s with
    counter := s.counter + 1
    isTcpUdp := s.isIp && (proto = ipProtoTcp || proto = ipProtoUdp)
    isTcp := s.isIp && proto = ipProtoTcp
    isUdp := s.isIp && proto = ipProtoUdp
    isIcmp := s.isIp && proto = ipProtoIcmp }
  if s.isIp then
    -- The length of the header cannot be less than five words.
    if s.ipHdrLen < 5 then
      { next with flowEntry := flowEntryDefault, flowEntryVld := true, state := .waitEop }
    else { next with flowEntry := putBits 32 proto s.flowEntry }
  else if s.isArp then { next with flowEntry := putBits 32 (w.data.extractLsb' 16 8) s.flowEntry }
  else next

def ipSrcDstHiWord : ParserFsm :=
  if s.isIp then
    { s with
      counter := s.counter + 1
      flowEntry := putBits 56 (w.data.extractLsb' 0 16)
        (putBits 72 (w.data.extractLsb' 16 32) s.flowEntry) }
  else if s.isArp then
    -- An ARP packet jumps to `ARP_DST_HI_WORD`.
    { s with
      counter := s.counter + 2
      flowEntry := putBits 72 (w.data.extractLsb' 0 32) s.flowEntry }
  else { s with counter := s.counter + 1 }

/-- The transport ports, or the type and the code of an ICMP packet, when this word has them. -/
def transpPorts : ParserFsm :=
  if s.isTcpUdp then
    if s.ipHdrLen = 5 then
      { s with
        flowEntry := putBits 0 (w.data.extractLsb' 16 16)
          (putBits 16 (w.data.extractLsb' 32 16) s.flowEntry) }
    else if s.ipHdrLen = 6 then
      { s with flowEntry := putBits 16 (w.data.extractLsb' 0 16) s.flowEntry }
    else if s.ipHdrLen = 4 then
      { s with
        flowEntry := putBits 0 (w.data.extractLsb' 48 16) s.flowEntry
        queryId := w.data.extractLsb' 0 16 }
    else s
  else if s.isIcmp then
    if s.ipHdrLen = 5 then
      { s with
        flowEntry := putBits 0 (0#8 ++ w.data.extractLsb' 32 8)
          (putBits 16 (0#8 ++ w.data.extractLsb' 40 8) s.flowEntry) }
    else if s.ipHdrLen = 6 then
      { s with
        flowEntry := putBits 0 (0#8 ++ w.data.extractLsb' 0 8)
          (putBits 16 (0#8 ++ w.data.extractLsb' 8 8) s.flowEntry) }
    else s
  else s

def ipDstLoTranspPortsWord : ParserFsm :=
  let entry := if s.isIp then putBits 40 (w.data.extractLsb' 48 16) s.flowEntry else s.flowEntry
  let next := { transpPorts w { s with flowEntry := entry } with
    isIp := false
    ipHdrLen := s.ipHdrLen - 2 }
  -- The counter stays until the word with the ports.
  if s.isTcpUdp && (s.ipHdrLen = 5 || s.ipHdrLen = 4) then { next with counter := 7 }
  else if !(s.isTcpUdp || s.isIcmp) ||
      ((s.isTcpUdp || s.isIcmp) && (s.ipHdrLen = 5 || s.ipHdrLen = 4)) then announce w next
  else next

def transpSnAck : ParserFsm :=
  let next := { s with counter := s.counter + 1 }
  announce w <|
    if s.ipHdrLen = 3 then
      { next with
        isAck := w.data.getLsbD 4
        isRst := w.data.getLsbD 2
        isSyn := w.data.getLsbD 1
        isFin := w.data.getLsbD 0
        queryId := w.data.extractLsb' 32 16 }
    else if s.ipHdrLen = 2 then
      { next with
        isAck := w.data.getLsbD 36
        isRst := w.data.getLsbD 34
        isSyn := w.data.getLsbD 33
        isFin := w.data.getLsbD 32 }
    else { next with isAck := false, isRst := false, isSyn := false, isFin := false }

def arpDstHiWord : ParserFsm :=
  { s with
    counter := s.counter + 1
    flowEntry := putBits 56 (w.data.extractLsb' 0 16) s.flowEntry }

def arpDstLoWord : ParserFsm :=
  announce w
    { s with
      counter := s.counter + 1
      flowEntry := putBits 40 (w.data.extractLsb' 48 16) s.flowEntry
      isArp := false }

/-- `case(counter)`. -/
def pktWordAt : Nat → ParserFsm
  | 1 => macSrcLoEthertypeWord w s
  | 2 => ipProtWord w s
  | 3 => ipSrcDstHiWord w s
  | 4 => ipDstLoTranspPortsWord w s
  | 5 => arpDstHiWord w s
  | 7 => transpSnAck w s
  | _ => arpDstLoWord w s

def pktWord : ParserFsm := pktWordAt w s s.counter.toNat

def step (reset inWr : Bool) : ParserFsm :=
  if reset then init
  else
    let next := { s with flowEntryVld := false }
    match s.state with
    | .resetFlowEntry =>
      let next := { next with flowEntry := flowEntryDefault, state := .moduleHdrs }
      if inWr then moduleHdr w next else next
    | .moduleHdrs =>
      if inWr then
        { (if w.ctrl = 0 then firstWord w next else moduleHdr w next) with counter := 1 }
      else next
    | .pktWords => if inWr then pktWord w next else next
    | .waitEop =>
      if w.ctrl ≠ 0 && inWr then
        { next with state := .moduleHdrs, flowEntry := flowEntryDefault, pktSize := 0 }
      else next

variable {w s}

theorem step_idle (h : s.state ≠ .resetFlowEntry) :
    step w s false false = { s with flowEntryVld := false } := by
  rw [step]
  cases hstate : s.state with
  | resetFlowEntry => exact absurd hstate h
  | moduleHdrs => rfl
  | pktWords => rfl
  | waitEop => simp

theorem step_resetFlowEntry (h : s.state = .resetFlowEntry) (inWr : Bool) :
    step w s false inWr =
      let next := { s with
        flowEntryVld := false, flowEntry := flowEntryDefault, state := .moduleHdrs }
      if inWr then moduleHdr w next else next := by
  rw [step, h]
  rfl

theorem step_moduleHdrs (h : s.state = .moduleHdrs) :
    step w s false true =
      { (if w.ctrl = 0 then firstWord w { s with flowEntryVld := false }
        else moduleHdr w { s with flowEntryVld := false }) with counter := 1 } := by
  rw [step, h]
  rfl

theorem step_pktWords (h : s.state = .pktWords) :
    step w s false true = pktWord w { s with flowEntryVld := false } := by
  rw [step, h]
  rfl

theorem step_waitEop (h : s.state = .waitEop) :
    step w s false true =
      if w.ctrl ≠ 0 then
        { s with flowEntryVld := false, state := .moduleHdrs, flowEntry := flowEntryDefault,
                 pktSize := 0 }
      else { s with flowEntryVld := false } := by
  rw [step, h]
  simp

end ParserFsm

/-- The registers of `header_parser`. -/
structure HeaderParser where
  fsm : ParserFsm
  paramPos : BitVec 32
  paramCounter : BitVec 4
  eventParam1 : BitVec 32
  eventParam2 : BitVec 32
  eventParam3 : BitVec 32
  regFile : Nat → BitVec 32
  regOut : RegBus

structure ParserIn where
  word : Word
  inWr : Bool
  regIn : RegBus
  reset : Bool

namespace HeaderParser

def regHpTag : BitVec 13 := 0xc

def regHpParamPosAddr : BitVec 10 := 0x10

variable (i : ParserIn) (s : HeaderParser)

def flowEntrySrcPort : BitVec 8 := s.fsm.flowEntry.extractLsb' 216 8

def addr : BitVec 10 := i.regIn.addr.extractLsb' 0 10

/-- The request is for this block. -/
def selected : Bool :=
  i.regIn.addr.extractLsb' 10 13 = regHpTag && (addr i = regHpParamPosAddr || addr i < 8) &&
    i.regIn.req

def stepRegOut : RegBus :=
  if i.reset then ⟨false, false, false, 0, 0, 0⟩
  else if selected i then
    let out := { i.regIn with ack := s.regOut.ack, data := s.regOut.data }
    if !i.regIn.rdWrL then
      if addr i = regHpParamPosAddr then { out with data := i.regIn.data, ack := true }
      else { out with ack := false }
    else if addr i = regHpParamPosAddr then { out with ack := true, data := s.paramPos }
    else { out with ack := true, data := s.regFile (addr i).toNat }
  else i.regIn

def stepParamPos : BitVec 32 :=
  if i.reset then 0#17 ++ 1#5 ++ 2#5 ++ 3#5
  else if selected i && !i.regIn.rdWrL && addr i = regHpParamPosAddr then i.regIn.data
  else s.paramPos

/-- The last flow entry, for debugging. -/
def stepRegFile (n : Nat) : BitVec 32 :=
  if i.reset then 0
  else if s.fsm.flowEntryVld then s.fsm.flowEntry.extractLsb' (32 * n) 32
  else s.regFile n

def stepParamCounter : BitVec 4 :=
  if i.reset then 0 else if i.word.ctrl = 0xff then 0 else s.paramCounter + 1

/-- `param_pos_k[4:1]` is a word and `param_pos_k[0]` the half of it. -/
def stepEventParam (pos : BitVec 5) (old : BitVec 32) : BitVec 32 :=
  if i.reset then 0
  else if s.paramCounter = pos.extractLsb' 1 4 then
    if pos.getLsbD 0 then i.word.data.extractLsb' 0 32 else i.word.data.extractLsb' 32 32
  else old

def step : HeaderParser where
  fsm := s.fsm.step i.word i.reset i.inWr
  paramPos := stepParamPos i s
  paramCounter := stepParamCounter i s
  eventParam1 := stepEventParam i s (s.paramPos.extractLsb' 0 5) s.eventParam1
  eventParam2 := stepEventParam i s (s.paramPos.extractLsb' 5 5) s.eventParam2
  eventParam3 := stepEventParam i s (s.paramPos.extractLsb' 10 5) s.eventParam3
  regFile := stepRegFile i s
  regOut := stepRegOut i s

/-- The parser as reset leaves it. -/
def start : HeaderParser where
  fsm := .init
  paramPos := 0#17 ++ 1#5 ++ 2#5 ++ 3#5
  paramCounter := 0
  eventParam1 := 0
  eventParam2 := 0
  eventParam3 := 0
  regFile := fun _ => 0
  regOut := ⟨false, false, false, 0, 0, 0⟩

/-- Requests to read are handed on as such. -/
theorem reads_stepRegOut {i : ParserIn} (h : i.regIn.Reads) (s : HeaderParser) :
    (stepRegOut i s).Reads := by
  rw [stepRegOut]
  split
  · exact fun hreq => by cases hreq
  · split
    · split
      · split <;> exact h
      · split <;> exact h
    · exact h

end HeaderParser

end Sdpa.Hardware
