import Sdpa.Switch.Decode
import Sdpa.Switch.ParseMatch

/-!
# `xlate_fp` of `ofproto/ofproto-dpif-xlate.c`

The state machine that a `goto_fp` instruction runs a packet through. It looks the
packet up in the state table of the app, walks the transition table for the next
state, executes the action that the action table has for that state, and stores
the state. Both lookups go by hash alone.
-/
namespace Sdpa.Switch

/-! ## Events -/

/-- `enum PARAM_TYPE`. -/
inductive ParamType
  | non | inPort | dlVlan | dlVlanPcp | dlType | nwTos | nwProto | tpSrc | tpDst | tpFlag
  | dlSrc | dlDst | nwSrc | nwDst | metadata | const
  deriving DecidableEq

def ParamType.ofWord (w : BitVec 32) : Option ParamType :=
  [.non, .inPort, .dlVlan, .dlVlanPcp, .dlType, .nwTos, .nwProto, .tpSrc, .tpDst, .tpFlag,
    .dlSrc, .dlDst, .nwSrc, .nwDst, .metadata, .const][w.toNat]?

/-- `enum OPRATOR`. -/
inductive Oprator
  | non | isequal | add | sub | bitand | bitor | bitwise | greater | less | equalgreater
  | equalless
  deriving DecidableEq

def Oprator.ofWord (w : BitVec 32) : Option Oprator :=
  [.non, .isequal, .add, .sub, .bitand, .bitor, .bitwise, .greater, .less, .equalgreater,
    .equalless][w.toNat]?

/-- `get_event_param`. Fields are read as they lie in the flow; the flags are those
that came with the translation, not those of the flow. -/
def getEventParam (fl : Flow) (tcpFlags : BitVec 16) (param : BitVec 32) : BitVec 64 :=
  match ParamType.ofWord param with
  | some .inPort => (fl .inPort).setWidth 64
  | some .dlVlan => (fl .vlanTci).setWidth 64
  | some .dlType => (fl .dlType).setWidth 64
  | some .nwTos => (fl .nwTos).setWidth 64
  | some .nwProto => (fl .nwProto).setWidth 64
  | some .tpSrc => (fl .tpSrc).setWidth 64
  | some .tpDst => (fl .tpDst).setWidth 64
  | some .tpFlag => tcpFlags.setWidth 64
  | some .nwSrc => (fl .nwSrc).setWidth 64
  | some .nwDst => (fl .nwDst).setWidth 64
  | some .metadata => fl .metadata
  | some .dlVlanPcp | some .dlSrc | some .dlDst => -1
  | some .non | some .const | none => -1

/-- `get_event`. The result of an arithmetic operator is converted to `bool`. -/
def getEvent (param1 param2 : BitVec 64) (op : BitVec 32) : Bool :=
  match Oprator.ofWord op with
  | some .non => true
  | some .add => param1 + param2 != 0
  | some .bitand => param1 &&& param2 != 0
  | some .bitor => param1 ||| param2 != 0
  | some .isequal => param1 == param2
  | some .greater => param2.ult param1
  | some .less => param1.ult param2
  | some .equalgreater => param2.ule param1
  | some .equalless => param1.ule param2
  | some .sub | some .bitwise | none => false

/-- A parameter of a transition: a constant of the entry, or read from the packet. -/
def eventOperand (fl : Flow) (tcpFlags : BitVec 16) (type : BitVec 32) (value : BitVec 64) :
    BitVec 64 :=
  if ParamType.ofWord type = some .const then value else getEventParam fl tcpFlags type

def SttMatchEntry.event (fl : Flow) (tcpFlags : BitVec 16) (e : SttMatchEntry) : Bool :=
  getEvent (eventOperand fl tcpFlags e.paramLeftType e.paramLeft)
    (eventOperand fl tcpFlags e.paramRightType e.paramRight) e.oprator

/-- The walk over the transition table. An event that occurs only in entries for
other states leads to state 0. -/
def nextState (fl : Flow) (tcpFlags : BitVec 16) (current : BitVec 32) :
    List SttMatchEntry → Bool → BitVec 32
  | [], eventExist => if eventExist then 0 else current
  | e :: rest, eventExist =>
    if e.event fl tcpFlags then
      if current = e.lastStatus then e.curStatus else nextState fl tcpFlags current rest true
    else nextState fl tcpFlags current rest eventExist

/-! ## Actions -/

/-- `enum SFA_ACTION_TYPE`. -/
inductive SfaActionType
  | non | output | drop | toopenflow | setsrcfield | setdstfield
  deriving DecidableEq

def SfaActionType.ofWord (w : BitVec 32) : Option SfaActionType :=
  [.non, .output, .drop, .toopenflow, .setsrcfield, .setdstfield][w.toNat]?

/-- `execute_fp_actions`: the flow after it, and whether the packet is dropped. -/
def executeFpActions (fl : Flow) (act : SfaAction) : Flow × Bool :=
  match SfaActionType.ofWord act.actype with
  | some .drop => (fl, true)
  | some .setsrcfield => (fl.set .nwSrc act.acparam, false)
  | some .setdstfield => (fl.set .nwDst act.acparam, false)
  | some .output | some .toopenflow | some .non | none => (fl, false)

/-! ## The state machine -/

/-- Where `xlate_fp` leaves its result undetermined: a `return` without a value, or
`should_drop` that no action entry has set. -/
inductive NoValue
  | noApp | noMatchString | noStEntry | noAtEntry
  deriving DecidableEq

variable {hash : Key → BitVec 32}

/-- What the lookup of the state leaves for the rest of the function. -/
structure FpFound (hash : Key → BitVec 32) where
  key : Key
  status : BitVec 32
  stt : List SttMatchEntry
  pat : ActionTable hash

/-- The function up to the state of the packet. The list head of `g_apps` is all
zero until the first app is created, and following it is fatal. -/
def fpLookup (g : GApps hash) (bitmap : BitVec 8) (fl : Flow) :
    Except Fault (Except NoValue (FpFound hash)) :=
  if g.islistinit = false then .error .nullPointer
  else match g.find (bitmap.setWidth 32) with
    | none => .ok (.error .noApp)
    | some app => do
      match ← parseMatch fl app.pst.matchBitmap with
      | none => return .error .noMatchString
      | some key =>
        match app.pst.stEntrys.first key with
        | none => return .error .noStEntry
        | some e => return .ok ⟨key, e.lastStatus, app.pstt, app.pat⟩

/-- What the function does with a state that was found. -/
structure FpDecision where
  next : BitVec 32
  flow : Flow
  drop : Except NoValue Bool

/-- The transition and the action. A missing match string of the action table goes
unnoticed, since the test names the other string, and is hashed. -/
def fpDecide (fl : Flow) (tcpFlags : BitVec 16) (found : FpFound hash) :
    Except Fault FpDecision := do
  let next := nextState fl tcpFlags found.status found.stt false
  match ← parseMatch fl found.pat.bitmap with
  | none => throw .nullPointer
  | some key =>
    match atLookup found.pat.atEntrys key next with
    | none => return ⟨next, fl, .error .noAtEntry⟩
    | some act =>
      let (fl, drop) := executeFpActions fl act
      return ⟨next, fl, .ok drop⟩

def ControllApp.writeStatus (key : Key) (status : BitVec 32) (app : ControllApp hash) :
    ControllApp hash :=
  app.setSt (app.pst.stEntrys.write key (StMatchEntry.setStatus status)
    (StMatchEntry.setStatus_data status))

theorem ControllApp.writeStatus_appid (key : Key) (status : BitVec 32) (app : ControllApp hash) :
    (app.writeStatus key status).appid = app.appid := rfl

/-- `st_entry->last_status = next_state`, in the entry that the lookup found. -/
def GApps.writeStatus (g : GApps hash) (aid : BitVec 32) (key : Key) (status : BitVec 32) :
    GApps hash :=
  g.modify aid (ControllApp.writeStatus key status) (ControllApp.writeStatus_appid key status)

/-- State 0 is never stored. -/
def updateState (g : GApps hash) (aid : BitVec 32) (key : Key) (next : BitVec 32) : GApps hash :=
  if next = 0 then g else g.writeStatus aid key next

structure FpResult (hash : Key → BitVec 32) where
  apps : GApps hash
  flow : Flow
  /-- Whether the pipeline stops. -/
  drop : Except NoValue Bool

def xlateFp (g : GApps hash) (bitmap : BitVec 8) (fl : Flow) (tcpFlags : BitVec 16) :
    Except Fault (FpResult hash) := do
  match ← fpLookup g bitmap fl with
  | .error why => return ⟨g, fl, .error why⟩
  | .ok found =>
    let d ← fpDecide fl tcpFlags found
    return ⟨updateState g (bitmap.setWidth 32) found.key d.next, d.flow, d.drop⟩

end Sdpa.Switch
