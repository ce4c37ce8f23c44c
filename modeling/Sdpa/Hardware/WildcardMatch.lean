import Sdpa.Hardware.CounterRegs
import Sdpa.Hardware.Fifo

/-!
# The flow table

`wildcard_match` looks the flow entry of a packet up in a table of 32 lines. The
entry with its event parameters and the source port wait in FIFOs from the cycle
of the request, the action found waits in another from the answer on; the three
are read together by `state_processor`. Two more FIFOs keep the size of the
packet and the line found until the packet is counted.

Of `generic_regs` the counters are here, the first on its register bus.
-/
namespace Sdpa.Hardware

open Lib.Clocked

/-- What `header_parser` says of a packet. -/
structure FlowIn where
  flowEntry : BitVec 248
  flowEntryVld : Bool
  pktSize : BitVec 12
  flowEntrySrcPortParsed : BitVec 8
  eventParam1 : BitVec 32
  eventParam2 : BitVec 32
  eventParam3 : BitVec 32
deriving DecidableEq, Repr

structure MatchIn extends FlowIn where
  actionFifoRdEn : Bool
  wildcardWins : Bool
  wildcardLoses : Bool
  regIn : RegBus
  openflowTimer : BitVec 32
  tableFlush : Bool
  reset : Bool

/-- A word of `state_entry_fifo`. -/
structure StateEntry where
  eventParam1 : BitVec 32
  eventParam2 : BitVec 32
  eventParam3 : BitVec 32
  flowEntry : BitVec 248
deriving DecidableEq, Repr

def FlowIn.stateEntry (x : FlowIn) : StateEntry :=
  ⟨x.eventParam1, x.eventParam2, x.eventParam3, x.flowEntry⟩

namespace WildcardMatch

def openflowWildcardTableSize : Nat := 32

/-- The table in the instance of `output_port_lookup`. -/
def tableParams : TableParams 248 320 := unencodedCamLutSm openflowWildcardTableSize 1

/-- A byte counter for each line, and then a packet counter for each; `SIMULATION` is zero. -/
def cntrParams : CntrParams where
  tag := 1
  numRegsUsed := openflowWildcardTableSize + openflowWildcardTableSize
  regStartAddr := LookupTable.numRegsUsed 248 320
  inputWidth := 12
  minUpdateInterval := 8
  resetOnRead := false

def byteAddr (n : Nat) : Nat := cntrParams.regStartAddr + n

def packetAddr (n : Nat) : Nat := cntrParams.regStartAddr + (openflowWildcardTableSize + n)

end WildcardMatch

/-- The registers of `wildcard_match`. -/
structure WildcardMatch where
  wildcardCamLutSm : LookupTable 248 320
  pktSizeFifo : FallthroughSmallFifo (BitVec 12) 3
  addressFifo : FallthroughSmallFifo Nat 3
  srcPortFifo : FallthroughSmallFifo (BitVec 8) 3
  stateEntryFifo : FallthroughSmallFifo StateEntry 3
  actionFifo : FallthroughSmallFifo (BitVec 320) 3
  wildcardEntryLastSeenTimestamps : Nat → BitVec 32
  genericCntrRegs : CntrRegs WildcardMatch.cntrParams

namespace WildcardMatch

variable (i : MatchIn) (s : WildcardMatch)

def tableIn : TableIn 248 where
  lookupReq := i.flowEntryVld
  lookupCmpData := i.flowEntry
  regIn := i.regIn
  tableFlush := i.tableFlush
  reset := i.reset

def wildcardData : BitVec 320 := LookupTable.lookupData s.wildcardCamLutSm

def wildcardDataVld : Bool := s.wildcardCamLutSm.pipe.lookupAck

def fifoRdEn : Bool := i.wildcardWins || i.wildcardLoses

/-- `wildcard_hit_address_decoded[n]`; the line is a number of five bits. -/
def wildcardHitAddressDecoded (n : Nat) : Bool :=
  i.wildcardWins && s.addressFifo.dout % openflowWildcardTableSize == n

/-- `wildcard_entry_hit_byte_size_word[n]`. -/
def wildcardEntryHitByteSizeWord (n : Nat) : BitVec 12 :=
  if wildcardHitAddressDecoded i s n then s.pktSizeFifo.dout else 0

/-- `{wildcard_hit_address_decoded_expanded, wildcard_entry_hit_byte_size}` from the first
counter on. -/
def counterUpdates (k : Nat) : BitVec 12 :=
  if k < openflowWildcardTableSize then wildcardEntryHitByteSizeWord i s k
  else if wildcardHitAddressDecoded i s (k - openflowWildcardTableSize) then 1
  else 0

def cntrIn : CntrIn cntrParams where
  regIn := s.wildcardCamLutSm.regs.regOut
  updates a := counterUpdates i s (a - cntrParams.regStartAddr)
  decrement _ := false
  reset := i.reset

def step : WildcardMatch where
  wildcardCamLutSm := LookupTable.step tableParams (tableIn i) s.wildcardCamLutSm
  pktSizeFifo := s.pktSizeFifo.step i.reset i.pktSize i.flowEntryVld (fifoRdEn i)
  addressFifo := s.addressFifo.step i.reset s.wildcardCamLutSm.pipe.lookupAddress s.wildcardDataVld
    (fifoRdEn i)
  srcPortFifo :=
    s.srcPortFifo.step i.reset i.flowEntrySrcPortParsed i.flowEntryVld i.actionFifoRdEn
  stateEntryFifo := s.stateEntryFifo.step i.reset i.stateEntry i.flowEntryVld i.actionFifoRdEn
  actionFifo := s.actionFifo.step i.reset s.wildcardData s.wildcardDataVld i.actionFifoRdEn
  wildcardEntryLastSeenTimestamps :=
    if s.wildcardCamLutSm.pipe.camWe then
      Function.update s.wildcardEntryLastSeenTimestamps s.wildcardCamLutSm.pipe.camWrAddr
        i.openflowTimer
    else if i.wildcardWins then
      Function.update s.wildcardEntryLastSeenTimestamps s.addressFifo.dout i.openflowTimer
    else s.wildcardEntryLastSeenTimestamps
  genericCntrRegs := s.genericCntrRegs.step (cntrIn i s)

/-- The table is initialised, and no packet is under way. -/
structure Idle : Prop where
  ready : s.wildcardCamLutSm.pipe.state = .ready
  drained : LookupTable.Drained s.wildcardCamLutSm.pipe
  srcPortFifo : s.srcPortFifo.Vacant
  stateEntryFifo : s.stateEntryFifo.Vacant
  actionFifo : s.actionFifo.Vacant

/-- An idle table with the given lines. -/
def start (lut : Nat → Entry 248 320) : WildcardMatch where
  wildcardCamLutSm := .start lut
  pktSizeFifo := .start 0
  addressFifo := .start 0
  srcPortFifo := .start 0
  stateEntryFifo := .start ⟨0, 0, 0, 0⟩
  actionFifo := .start 0
  wildcardEntryLastSeenTimestamps := fun _ => 0
  genericCntrRegs := .start

theorem idle_start (lut : Nat → Entry 248 320) : Idle (start lut) where
  ready := rfl
  drained := ⟨rfl, rfl, rfl, rfl⟩
  srcPortFifo := ⟨rfl, rfl, rfl⟩
  stateEntryFifo := ⟨rfl, rfl, rfl⟩
  actionFifo := ⟨rfl, rfl, rfl⟩

end WildcardMatch

end Sdpa.Hardware
