import Sdpa.Hardware.ActionModifier
import Sdpa.Hardware.Fifo
import Sdpa.Hardware.LookupTable

/-!
# One stateful application

`stateful_app` looks a request up in its state table, the state found and the
event in its transition table, and the next state and the match field in its
action table. The words of a request that the later stages need wait in FIFOs
that are read a fixed number of cycles after the request.
-/
namespace Sdpa.Hardware

open Lib.Clocked Lib.Fallthrough

/-- `stateful_app_buffer` of width one; `n` is the index of `buf_reg`. -/
def StatefulAppBuffer := Nat → Bool

namespace StatefulAppBuffer

def step (reset din : Bool) (b : StatefulAppBuffer) : StatefulAppBuffer
  | 0 => !reset && din
  | n + 1 => !reset && b n

/-- The output of a buffer of `len` registers. -/
def dout (len : Nat) (b : StatefulAppBuffer) : Bool := b (len - 1)

end StatefulAppBuffer

/-- What `{event_param_in, match_field, app_id, action_in}` carry. -/
structure Request where
  eventParam : BitVec 96
  matchField : BitVec 248
  appId : BitVec 2
  action : BitVec 320
deriving DecidableEq, Repr

structure AppIn where
  request : Request
  matchFieldVld : Bool
  regIn : RegBus
  tableFlush : Bool
  reset : Bool

/-- The parameters of an instance. -/
structure AppParams where
  appId : Nat
  stTag : BitVec 13
  sttTag : BitVec 13
  atTag : BitVec 13
  stDefaultCmpData : BitVec 248
  stDefaultData : BitVec 8
  sttDefaultCmpData : BitVec 40
  sttDefaultLookupData : BitVec 8
  atDefaultCmpData : BitVec 256
  atDefaultLookupData : BitVec 338

namespace AppParams

variable (a : AppParams)

def stParams : TableParams 248 8 :=
  atUnencodedCamLutSm 8 a.stTag a.stDefaultCmpData a.stDefaultData

def sttParams : TableParams 40 8 :=
  atUnencodedCamLutSm 8 a.sttTag a.sttDefaultCmpData a.sttDefaultLookupData

def atParams : TableParams 256 338 :=
  atUnencodedCamLutSm 8 a.atTag a.atDefaultCmpData a.atDefaultLookupData

/-- `event_param_in[EVENT_PARAM_WIDTH*APP_ID-1 : EVENT_PARAM_WIDTH*(APP_ID-1)]`. -/
def eventParamLocal (r : Request) : BitVec 32 := r.eventParam.extractLsb' (32 * (a.appId - 1)) 32

/-- A request is for this application. -/
def isFor (appId : BitVec 2) : Bool := appId.toNat = a.appId

end AppParams

/-- The registers of `stateful_app`. -/
structure StatefulApp where
  stateCamLutSm : LookupTable 248 8
  sttCamLutSm : LookupTable 40 8
  atCamLutSm : LookupTable 256 338
  am : ActionModifier
  outputFifo : FallthroughSmallFifo Request 3
  sttFifo : FallthroughSmallFifo (BitVec 32) 3
  sttFifoEnBuf : StatefulAppBuffer
  atFifo : FallthroughSmallFifo (BitVec 248) 3
  atFifoEnBuf : StatefulAppBuffer
  amFifo : FallthroughSmallFifo (BitVec 320) 3
  amFifoEnBuf : StatefulAppBuffer
  stFifo : FallthroughSmallFifo (BitVec 2) 3
  stFifoEnBuf : StatefulAppBuffer
  updateAddr : Nat
  actionNextAppD2 : BitVec 2
  out : Request
  appDone : Bool

namespace StatefulApp

variable (a : AppParams) (i : AppIn) (s : StatefulApp)

def state : BitVec 8 := LookupTable.lookupData s.stateCamLutSm

def nextState : BitVec 8 := LookupTable.lookupData s.sttCamLutSm

def atLookupData : BitVec 338 := LookupTable.lookupData s.atCamLutSm

/-! The parts of an action table entry. -/

def actionFlag (w : BitVec 338) : BitVec 16 := w.extractLsb' 0 16

def actionParam (w : BitVec 338) : BitVec 320 := w.extractLsb' 16 320

def actionNextApp (w : BitVec 338) : BitVec 2 := w.extractLsb' 336 2

def stateIn : TableIn 248 where
  lookupReq := i.matchFieldVld
  lookupCmpData := i.request.matchField
  regIn := i.regIn
  tableFlush := i.tableFlush
  reset := i.reset

def sttIn : TableIn 40 where
  lookupReq := s.stateCamLutSm.pipe.lookupAck
  lookupCmpData := s.sttFifo.dout ++ s.state
  regIn := s.atCamLutSm.regs.regOut
  tableFlush := i.tableFlush
  reset := i.reset

def atIn : TableIn 256 where
  lookupReq := s.sttCamLutSm.pipe.lookupAck
  lookupCmpData := s.nextState ++ s.atFifo.dout
  regIn := s.stateCamLutSm.regs.regOut
  tableFlush := i.tableFlush
  reset := i.reset

def update : Update 8 where
  req := s.sttCamLutSm.pipe.lookupAck
  addr := s.updateAddr
  nextState := s.nextState
  vld := s.sttCamLutSm.pipe.lookupHit && a.isFor s.stFifo.dout

def stepUpdateAddr : Nat :=
  if i.reset then 0
  else if s.stateCamLutSm.pipe.lookupHit && s.stateCamLutSm.pipe.lookupAck then
    s.stateCamLutSm.pipe.lookupAddress
  else s.updateAddr

/-- The words at the outputs in the next cycle. -/
def stepOut : Request :=
  if !i.reset && s.am.modificationDone then
    let r := s.outputFifo.dout
    if a.isFor r.appId then { r with action := s.am.actionOut, appId := s.actionNextAppD2 } else r
  else ⟨0, 0, 0, 0⟩

def step : StatefulApp where
  stateCamLutSm := StateTable.step a.stParams (stateIn i) (update a s) s.stateCamLutSm
  sttCamLutSm := LookupTable.step a.sttParams (sttIn i s) s.sttCamLutSm
  atCamLutSm := LookupTable.step a.atParams (atIn i s) s.atCamLutSm
  am := s.am.step i.reset s.atCamLutSm.pipe.lookupAck s.amFifo.dout (actionParam s.atLookupData)
    (actionFlag s.atLookupData)
  outputFifo := s.outputFifo.step i.reset i.request i.matchFieldVld s.atCamLutSm.pipe.lookupAck
  sttFifo :=
    s.sttFifo.step i.reset (a.eventParamLocal i.request) i.matchFieldVld (s.sttFifoEnBuf.dout 3)
  sttFifoEnBuf := s.sttFifoEnBuf.step i.reset i.matchFieldVld
  atFifo :=
    s.atFifo.step i.reset i.request.matchField i.matchFieldVld (s.atFifoEnBuf.dout 7)
  atFifoEnBuf := s.atFifoEnBuf.step i.reset i.matchFieldVld
  amFifo := s.amFifo.step i.reset i.request.action i.matchFieldVld (s.amFifoEnBuf.dout 11)
  amFifoEnBuf := s.amFifoEnBuf.step i.reset i.matchFieldVld
  stFifo := s.stFifo.step i.reset i.request.appId i.matchFieldVld (s.stFifoEnBuf.dout 7)
  stFifoEnBuf := s.stFifoEnBuf.step i.reset i.matchFieldVld
  updateAddr := stepUpdateAddr i s
  actionNextAppD2 := actionNextApp s.atLookupData
  out := stepOut a i s
  appDone := !i.reset && s.am.modificationDone

end StatefulApp

end Sdpa.Hardware
