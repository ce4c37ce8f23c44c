import Sdpa.Hardware.AppPipeline

/-!
# The state processor

`state_processor` takes a packet from the FIFOs of `wildcard_match`, waits eight
cycles and takes the next one. The request is registered: it goes to the first
application in the cycle after the packet was taken, with the words that the
FIFOs show then. Three applications follow one another, and the action that the
last one hands out goes into the result FIFO together with the source port that
is shown at that time.
-/
namespace Sdpa.Hardware

open Lib.Clocked

structure ProcIn where
  eventParamIn1 : BitVec 32
  eventParamIn2 : BitVec 32
  eventParamIn3 : BitVec 32
  stateEntry : BitVec 248
  flowEntrySrcPortIn : BitVec 8
  actionIn : BitVec 320
  actionFifoEmpty : Bool
  resultFifoRdEn : Bool
  regIn : RegBus
  tableFlush : Bool
  reset : Bool

inductive ProcState where
  | waitForInput | waitForUpdate
deriving DecidableEq, Repr

/-- The tags of the tables of an application. -/
structure AppTags where
  st : BitVec 13
  stt : BitVec 13
  at' : BitVec 13

structure ProcParams where
  app1 : AppTags
  app2 : AppTags
  app3 : AppTags

/-- The registers of `state_processor`. -/
structure StateProcessor where
  statefulApp1 : StatefulApp
  statefulApp2 : StatefulApp
  statefulApp3 : StatefulApp
  resultFifo : SmallFifo (BitVec 8 × BitVec 320) 3
  state : ProcState
  stateCounter : BitVec 5
  stateEntryReq : Bool

/-- The register bus leaves an application after its transition table. -/
def StatefulApp.regOut (s : StatefulApp) : RegBus := s.sttCamLutSm.regs.regOut

namespace StateProcessor

/-! The values that the three applications are initialised with. `{NEXT_APP, EVENT_MASK,
EVENT_PARAM, ACTION_PARAM, ACTION_FLAG}` and `{2'h2, EVENT_PARAM, STATE}` are wider than the
parameters they are given for. -/

def actionParam : BitVec 320 :=
  0#62 ++ 3#2 ++ 0#40 ++ 1#32 ++ 4#32 ++ 0#88 ++ 0#32 ++ 0xb2#16 ++ 4#16

def appParams (appId : Nat) (tags : AppTags) : AppParams where
  appId := appId
  stTag := tags.st
  sttTag := tags.stt
  atTag := tags.at'
  stDefaultCmpData := StatefulApp.flowEntry
  stDefaultData := 2
  sttDefaultCmpData := (2#2 ++ 2#32 ++ 2#8).setWidth 40
  sttDefaultLookupData := 3
  atDefaultCmpData := 2#8 ++ StatefulApp.flowEntry
  atDefaultLookupData :=
    (1#2 ++ BitVec.allOnes 32 ++ 2#32 ++ actionParam ++ 0x0202#16).setWidth 338

variable (p : ProcParams) (i : ProcIn) (s : StateProcessor)

/-- `action_in[GO_TO_APP_ID_POS+:GO_TO_APP_ID_WIDTH]`. -/
def goToAppId (action : BitVec 320) : BitVec 2 := action.extractLsb' 256 2

def actionFifoRdEn : Bool := s.state = .waitForInput && !i.actionFifoEmpty

def app1In : AppIn where
  request := ⟨i.eventParamIn3 ++ i.eventParamIn2 ++ i.eventParamIn1, i.stateEntry,
    goToAppId i.actionIn, i.actionIn⟩
  matchFieldVld := s.stateEntryReq
  regIn := i.regIn
  tableFlush := i.tableFlush
  reset := i.reset

/-- The next application takes what the one before hands out. -/
def nextAppIn (before : StatefulApp) : AppIn where
  request := before.out
  matchFieldVld := before.appDone
  regIn := before.regOut
  tableFlush := i.tableFlush
  reset := i.reset

def stepState : ProcState :=
  if i.reset then .waitForInput
  else if actionFifoRdEn i s then .waitForUpdate
  else if s.stateCounter = 7 then .waitForInput
  else s.state

def stepCounter : BitVec 5 :=
  if i.reset then 0
  else if s.state = .waitForInput then 0
  else s.stateCounter + 1

def step : StateProcessor where
  statefulApp1 := StatefulApp.step (appParams 1 p.app1) (app1In i s) s.statefulApp1
  statefulApp2 := StatefulApp.step (appParams 2 p.app2) (nextAppIn i s.statefulApp1) s.statefulApp2
  statefulApp3 := StatefulApp.step (appParams 3 p.app3) (nextAppIn i s.statefulApp2) s.statefulApp3
  resultFifo := s.resultFifo.step i.reset (i.flowEntrySrcPortIn, s.statefulApp3.out.action)
    s.statefulApp3.appDone i.resultFifoRdEn
  state := stepState i s
  stateCounter := stepCounter i s
  stateEntryReq := !i.reset && actionFifoRdEn i s

/-- No packet is under way. -/
structure Idle : Prop where
  app1 : StatefulApp.Idle s.statefulApp1
  app2 : StatefulApp.Idle s.statefulApp2
  app3 : StatefulApp.Idle s.statefulApp3
  depth : s.resultFifo.depth = 0
  ptr : s.resultFifo.wrPtr = s.resultFifo.rdPtr
  state : s.state = .waitForInput
  stateEntryReq : s.stateEntryReq = false

/-- The instance of `output_port_lookup`. -/
def params : ProcParams := ⟨⟨2, 3, 4⟩, ⟨5, 6, 7⟩, ⟨8, 9, 10⟩⟩

/-- An idle processor with the given tables. -/
def start (m1 m2 m3 : AppStore) : StateProcessor where
  statefulApp1 := .start m1
  statefulApp2 := .start m2
  statefulApp3 := .start m3
  resultFifo := ⟨fun _ => (0, 0), 0, 0, 0, (0, 0)⟩
  state := .waitForInput
  stateCounter := 0
  stateEntryReq := false

theorem idle_start (m1 m2 m3 : AppStore) : Idle (start m1 m2 m3) where
  app1 := StatefulApp.idle_start m1
  app2 := StatefulApp.idle_start m2
  app3 := StatefulApp.idle_start m3
  depth := rfl
  ptr := rfl
  state := rfl
  stateEntryReq := rfl

end StateProcessor

end Sdpa.Hardware
