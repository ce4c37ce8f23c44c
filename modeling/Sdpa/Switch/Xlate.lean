import Sdpa.Switch.LocalActions
import Sdpa.Switch.XlateFp

/-!
# The translator of `ofproto/ofproto-dpif-xlate.c`

`do_xlate_actions` and the functions it is mutually recursive with: output,
patch ports, flow tables, resubmits and groups. The recursion is bounded by
`MAX_RESUBMIT_RECURSION`, so the model recurses on the depth that is left. What a
translation does to a state that outlasts it is a parameter, and that state, for the
program the applications and the learned addresses, is of any type.
-/
namespace Sdpa.Switch

/-- Translation with a state that outlasts it. -/
abbrev XlateM (A : Type) := StateT (A × XlateCtx) (Except Fault)

variable {A α : Type}

def onCtx (f : XlateCtx → α × XlateCtx) : XlateM A α :=
  fun s => .ok ((f s.2).1, s.1, (f s.2).2)

def modifyCtx (f : XlateCtx → XlateCtx) : XlateM A PUnit := onCtx fun c => (⟨⟩, f c)

/-- Choose how to go on by a value of the context. -/
def branch {β : Type} (v : XlateCtx → β) (k : β → XlateM A α) : XlateM A α := fun s => k (v s.2) s

/-- Change the context, carry something out, and restore a part of it. -/
def bracket (enter : XlateCtx → XlateCtx) (leave : XlateCtx → XlateCtx → XlateCtx)
    (m : XlateM A PUnit) : XlateM A PUnit :=
  fun s => (m (s.1, enter s.2)).map fun r => (⟨⟩, r.2.1, leave s.2 r.2.2)

/-- A step that works on the other state alone. -/
def onState (f : A → Except Fault (α × A)) : XlateM A α :=
  fun s => (f s.1).map fun r => (r.1, r.2, s.2)

/-- What is done to the state that outlasts a translation: by a `goto_fp`, and by
`xlate_normal`, which learns the source address and looks up the destination. -/
structure Effects (A : Type) where
  gotoFp : BitVec 8 → XlateM A PUnit
  learn : Nat → NormalIn → NormalView → A → Except Fault (Option Nat × A)

/-- What translates a nested list of actions, unless the recursion limit is reached. -/
abbrev Inner (A : Type) := Option (List Ofpact → XlateM A PUnit)

/-! ## Flow tables -/

def noMasks : Flow := fun _ => 0

def Flow.or (a b : Flow) : Flow := fun f => a f ||| b f

/-! The rules of `add_internal_flows`. No lookup ever finds them. -/

def missRule : Rule := ⟨[.action .controller]⟩
def noPacketInRule : Rule := ⟨[]⟩
def dropFragsRule : Rule := ⟨[]⟩

/-- The ports of a fragment are hidden if fragments are handled as usual. -/
def hidePorts (fl : Flow) : Flow := (fl.set .tpSrc 0).set .tpDst 0

def isFragment (fl : Flow) : Bool := fl .nwFrag &&& flowNwFragAny != 0

/-- The masks that every lookup sets. -/
def lookupMasks (fl : Flow) : Flow :=
  let wc := noMasks.set .dlType (BitVec.allOnes 16)
  if isIpAny fl then wc.set .nwFrag flowNwFragMask else wc

/-- `rule_dpif_lookup_in_table`: the rule, and the bits to un-wildcard. Table 255
does not exist. -/
def ruleDpifLookupInTable (env : Env) (xbridge : Nat) (fl : Flow) (tableId : BitVec 8) :
    Option Rule × Flow :=
  if tableId = 255 then (none, noMasks)
  else if isFragment fl && env.frag xbridge == .normal then
    let found := env.classifier xbridge tableId (hidePorts fl)
    (found.1, (lookupMasks fl).or found.2)
  else if isFragment fl && env.frag xbridge == .drop then
    (some dropFragsRule, lookupMasks fl)
  else
    let found := env.classifier xbridge tableId fl
    (found.1, (lookupMasks fl).or found.2)

def chooseMissRule (env : Env) (xbridge : Nat) (inPort : BitVec 16) : Rule :=
  match env.port xbridge inPort with
  | some xport => if xport.config.noPacketIn then noPacketInRule else missRule
  | none => missRule

/-- The lookup of `xlate_table_action`, with `inPort` in place of the input port. -/
def lookupRule (env : Env) (xin : XlateIn) (inPort : BitVec 16) (tableId : BitVec 8)
    (mayPacketIn : Bool) (c : XlateCtx) : Option Rule × XlateCtx :=
  let found := ruleDpifLookupInTable env c.xbridge (c.flow.set .inPort inPort) tableId
  let rule := match found.1 with
    | some rule => some rule
    | none => if mayPacketIn then some (chooseMissRule env c.xbridge (c.flow .inPort)) else none
  (rule, { c with tableId := tableId, wc := if xin.skipWildcards then c.wc else c.wc.or found.2 })

/-- `xlate_resubmit_resource_check`, apart from the depth. -/
def withinLimits (c : XlateCtx) : Bool :=
  c.resubmits < 64 * 64 && c.odpSize ≤ 65535 && 16 * c.stack.length < 65536

def stopTranslation : XlateM A PUnit := modifyCtx fun c => { c with exit := true }

/-- `xlate_recursively`. -/
def xlateRecursively (translate : List Ofpact → XlateM A PUnit) : Option Rule → XlateM A PUnit
  | none => pure ⟨⟩
  | some rule => do
    modifyCtx fun c => { c with resubmits := c.resubmits + 1 }
    translate rule.ofpacts

def xlateTableAction (env : Env) (xin : XlateIn) (inner : Inner A) (inPort : BitVec 16)
    (tableId : BitVec 8) (mayPacketIn : Bool) : XlateM A PUnit :=
  match inner with
  | none => stopTranslation
  | some translate =>
    branch withinLimits fun
      | true => bracket id (fun old c => { c with tableId := old.tableId }) do
        let rule ← onCtx (lookupRule env xin inPort tableId mayPacketIn)
        xlateRecursively translate rule
      | false => stopTranslation

/-! ## Output -/

def mayReceive (config : PortConfig) (fl : Flow) : Bool :=
  !(if fl .dlDst = ethAddrStp then config.noRecvStp else config.noRecv)

/-- The flow as it arrives at the far end of a patch port. -/
def enterPeer (peer : Peer) (c : XlateCtx) : XlateCtx :=
  { c with
    xbridge := peer.xbridge
    flow := fun f => match f with
      | .inPort => peer.ofpPort
      | .metadata => 0
      | .reg _ => 0
      | .tunId => 0 | .tunSrc => 0 | .tunDst => 0 | .tunFlags => 0 | .tunTos => 0 | .tunTtl => 0
      | f => c.flow f }

/-- The DSCP of the output queue, for the time of the output. -/
def queueDscp (xport : XPort) (c : XlateCtx) : XlateCtx :=
  match xport.skbPriorities (c.flow .skbPriority) with
  | some dscp => (c.observe .nwTos ipEcnMask).put .nwTos
      ((c.flow .nwTos &&& ~~~ipDscpMask) ||| (dscp.setWidth 8 <<< 2))
  | none => c

/-- Output to a port of the datapath. The fields it may change are restored. -/
def outputPort (xport : XPort) (c : XlateCtx) : XlateCtx :=
  let out := queueDscp xport c
  let out := if xport.odpPort = odppNone then out
    else (commitOdpActions out).putOdp (.output xport.odpPort)
  { out with flow := c.flow }

/-- A packet through a patch port is translated again on the other bridge. -/
def outputPeer (env : Env) (xin : XlateIn) (inner : Inner A) (peer : Peer) : XlateM A PUnit :=
  bracket (enterPeer peer) (fun old c => { c with flow := old.flow, xbridge := old.xbridge })
    (branch (fun c => mayReceive peer.config c.flow) fun
      | true => xlateTableAction env xin inner peer.ofpPort 0 true
      | false => pure ⟨⟩)

def composeOutputAction (env : Env) (xin : XlateIn) (inner : Inner A) (ofpPort : BitVec 16) :
    XlateM A PUnit :=
  branch XlateCtx.xbridge fun xbridge =>
    match env.port xbridge ofpPort with
    | none => pure ⟨⟩
    | some xport =>
      if xport.config.noFwd then pure ⟨⟩
      else match xport.peer with
        | some peer => outputPeer env xin inner peer
        | none => modifyCtx (outputPort xport)

def noFlood (env : Env) (xbridge : Nat) (ofpPort : BitVec 16) : Bool :=
  match env.port xbridge ofpPort with
  | some xport => xport.config.noFlood
  | none => false

def floodPackets (env : Env) (xin : XlateIn) (inner : Inner A) (all : Bool) : XlateM A PUnit :=
  branch XlateCtx.xbridge fun xbridge =>
    (env.xports xbridge).forM fun ofpPort =>
      branch (fun c => c.flow .inPort) fun inPort =>
        if ofpPort = inPort then pure ⟨⟩
        else if all || !noFlood env xbridge ofpPort then composeOutputAction env xin inner ofpPort
        else pure ⟨⟩

/-- What `xlate_normal` looks at, and the masks it sets for that. -/
def normalView (c : XlateCtx) : (Nat × NormalView) × XlateCtx :=
  ((c.xbridge, ⟨c.flow .inPort, c.flow .dlType, c.flow .dlSrc, c.flow .dlDst,
    c.flow .vlanTci &&& (vlanVidMask ||| vlanCfi)⟩),
    (c.unwildcards [.dlSrc, .dlDst]).observe .vlanTci (vlanVidMask ||| vlanCfi))

/-- The tag of `output_normal`. The priority of the packet is kept if it stays tagged. -/
def normalTci (out : NormalOutput) (tci : BitVec 16) : BitVec 16 :=
  if out.vid ≠ 0 ∨ out.usePriorityTags = true then
    let tagged := htons (out.vid.setWidth 16) ||| (tci &&& vlanPcpMask)
    if tagged = 0 then 0 else tagged ||| vlanCfi
  else 0

def outputNormal (env : Env) (xin : XlateIn) (inner : Inner A) (out : NormalOutput) :
    XlateM A PUnit :=
  bracket (fun c => c.put .vlanTci (normalTci out (c.flow .vlanTci)))
    (fun old c => c.put .vlanTci (old.flow .vlanTci)) (composeOutputAction env xin inner out.port)

def xlateNormal (env : Env) (xin : XlateIn) (fx : Effects A) (inner : Inner A) :
    XlateM A PUnit := do
  let (xbridge, view) ← onCtx normalView
  match env.normalIn xbridge view with
  | none => pure ⟨⟩
  | some input =>
    let dst ← onState (fx.learn xbridge input view)
    (env.normal xbridge input dst).forM (outputNormal env xin inner)

def xlateOutputAction (env : Env) (xin : XlateIn) (fx : Effects A) (inner : Inner A)
    (port : BitVec 16) (mayPacketIn : Bool) : XlateM A PUnit :=
  branch (fun c => c.flow .inPort) fun inPort =>
    if port = ofppInPort then composeOutputAction env xin inner inPort
    else if port = ofppTable then xlateTableAction env xin inner inPort 0 mayPacketIn
    else if port = ofppNormal then xlateNormal env xin fx inner
    else if port = ofppFlood then floodPackets env xin inner false
    else if port = ofppAll then floodPackets env xin inner true
    else if port = ofppController then modifyCtx (executeControllerAction xin)
    else if port = ofppNone then pure ⟨⟩
    else if port = inPort then pure ⟨⟩
    else composeOutputAction env xin inner port

/-- An output with the priority of a queue. -/
def enqueueTo (env : Env) (xin : XlateIn) (inner : Inner A) (priority : BitVec 32)
    (ofpPort : BitVec 16) : XlateM A PUnit :=
  bracket (fun c => c.put .skbPriority priority)
    (fun old c => c.put .skbPriority (old.flow .skbPriority)) (composeOutputAction env xin inner ofpPort)

def xlateEnqueueAction (env : Env) (xin : XlateIn) (fx : Effects A) (inner : Inner A)
    (port : BitVec 16) (queue : BitVec 32) : XlateM A PUnit :=
  branch (fun c => (c.xbridge, c.flow .inPort)) fun (xbridge, inPort) =>
    match env.queueToPriority xbridge queue with
    | none => xlateOutputAction env xin fx inner port false
    | some priority =>
      if port = ofppInPort then enqueueTo env xin inner priority inPort
      else if port = inPort then pure ⟨⟩
      else enqueueTo env xin inner priority port

/-! ## Groups -/

/-- `xlate_group_bucket`: the actions of a bucket are an action set. -/
def xlateGroupBucket (translate : List Ofpact → XlateM A PUnit) (bucket : List Act) :
    XlateM A PUnit :=
  translate ((executeActionSet bucket).map Ofpact.action)

/-- The bucket of a select group. Its choice depends on the destination address. -/
def selectBucket (live : List (List Act)) (best : BitVec 48 → Nat) (c : XlateCtx) :
    Option (List Act) × XlateCtx :=
  match bestLiveBucket live best (c.flow .dlDst) with
  | some bucket => (some bucket, c.unwildcard .dlDst)
  | none => (none, c)

/-- Every bucket of an `all` group works on the flow as it was before the group. -/
def xlateGroup (translate : List Ofpact → XlateM A PUnit) : Group → XlateM A PUnit
  | .all buckets => buckets.forM fun bucket =>
      bracket id (fun old c => { c with flow := old.flow }) (xlateGroupBucket translate bucket)
  | .select live best => do
    match ← onCtx (selectBucket live best) with
    | some bucket => xlateGroupBucket translate bucket
    | none => pure ⟨⟩
  | .ff (some bucket) => xlateGroupBucket translate bucket
  | .ff none => pure ⟨⟩

/-- The result says that there is no such group. -/
def xlateGroupAction (env : Env) (inner : Inner A) (groupId : BitVec 32) : XlateM A Bool :=
  match inner with
  | none => pure false
  | some translate =>
    branch (fun c => (withinLimits c, c.xbridge)) fun (ok, xbridge) =>
      if ok then
        match env.group xbridge groupId with
        | none => pure true
        | some group => do
          xlateGroup translate group
          pure false
      else pure false

/-! ## Actions -/

def xlateOfpactResubmit (env : Env) (xin : XlateIn) (inner : Inner A) (inPort : BitVec 16)
    (tableId : BitVec 8) : XlateM A PUnit :=
  branch (fun c => (c.flow .inPort, c.tableId)) fun (flowPort, current) =>
    xlateTableAction env xin inner (if inPort = ofppInPort then flowPort else inPort)
      (if tableId = 255 then current else tableId) false

/-- The registers after a computed action, and the port it may name. -/
def computeRegisters (env : Env) (operand : Nat) (c : XlateCtx) : Option (BitVec 16) × XlateCtx :=
  let r := env.compute operand c.registers
  (r.1, c.setRegisters r.2)

/-- One action. The result says whether the rest of the list is skipped. -/
def xlateAct (env : Env) (xin : XlateIn) (fx : Effects A) (inner : Inner A) : Act → XlateM A Bool
  | .output port => do
    xlateOutputAction env xin fx inner port true
    pure false
  | .group groupId => xlateGroupAction env inner groupId
  | .enqueue port queue => do
    xlateEnqueueAction env xin fx inner port queue
    pure false
  | .resubmit inPort tableId => do
    xlateOfpactResubmit env xin inner inPort tableId
    pure false
  | .compute operand => do
    match ← onCtx (computeRegisters env operand) with
    | some port => do
      xlateOutputAction env xin fx inner port false
      pure false
    | none => pure false
  | act => onCtx (localAct env xin act)

def writeMetadata (metadata mask : BitVec 64) (c : XlateCtx) : XlateCtx :=
  c.put .metadata ((c.flow .metadata &&& ~~~mask) ||| (metadata &&& mask))

/-- The cases of `do_xlate_actions`. A `goto_table` never leads back. -/
def xlateOfpact (env : Env) (xin : XlateIn) (fx : Effects A) (inner : Inner A) :
    Ofpact → XlateM A Bool
  | .action act => xlateAct env xin fx inner act
  | .clearActions => do
    modifyCtx fun c => { c with actionSet := [] }
    pure false
  | .writeActions acts => do
    modifyCtx fun c => { c with actionSet := c.actionSet ++ acts }
    pure false
  | .writeMetadata metadata mask => do
    modifyCtx (writeMetadata metadata mask)
    pure false
  | .meter => pure false
  | .gotoTable tableId =>
    branch (fun c => (c.tableId, c.flow .inPort)) fun (current, inPort) =>
      if current.ult tableId then do
        xlateTableAction env xin inner inPort tableId true
        pure false
      else throw .assertion
  | .gotoFp bitmap => do
    fx.gotoFp bitmap
    pure false

/-- The loop of `do_xlate_actions`. -/
def xlateList (env : Env) (xin : XlateIn) (fx : Effects A) (inner : Inner A) :
    List Ofpact → XlateM A PUnit
  | [] => pure ⟨⟩
  | o :: rest =>
    branch XlateCtx.exit fun
      | true => pure ⟨⟩
      | false => do
        match ← xlateOfpact env xin fx inner o with
        | true => pure ⟨⟩
        | false => xlateList env xin fx inner rest

/-- `do_xlate_actions`, with the depth of recursion that is left. -/
def doXlateActions (env : Env) (xin : XlateIn) (fx : Effects A) :
    Nat → List Ofpact → XlateM A PUnit
  | 0 => xlateList env xin fx none
  | depth + 1 => xlateList env xin fx (some (doXlateActions env xin fx depth))

/-! ## The whole translation -/

/-- `MAX_RESUBMIT_RECURSION`. -/
def maxResubmitRecursion : Nat := 64

/-- The fields of `struct flow_tnl` zeroed. -/
def clearTunnel (fl : Flow) : Flow := fun f => match f with
  | .tunId => 0 | .tunSrc => 0 | .tunDst => 0 | .tunFlags => 0 | .tunTos => 0 | .tunTtl => 0
  | f => fl f

/-- The masks that translation starts with. -/
def initMasks (fl : Flow) : Flow :=
  ((lookupMasks fl).set .inPort (BitVec.allOnes 16)).set .skbPriority (BitVec.allOnes 32)

def initCtx (xin : XlateIn) : XlateCtx where
  xbridge := xin.xbridge
  flow := xin.flow
  base := clearTunnel xin.flow
  wc := initMasks xin.flow
  odp := []
  slow := .none
  mplsDepthDelta := .unchanged
  prePushMplsLse := 0
  stack := []
  resubmits := 0
  tableId := 0
  exit := false
  actionSet := []
  flowMods := []

/-- `rule_dpif_lookup`: table 0, or else a miss rule. -/
def ruleDpifLookup (env : Env) (xin : XlateIn) (c : XlateCtx) : Rule × XlateCtx :=
  let r := lookupRule env xin (c.flow .inPort) 0 true c
  (r.1.getD missRule, r.2)

/-- The actions to translate: given ones, those of a given rule, or of a lookup. -/
def startActions (env : Env) (xin : XlateIn) (c : XlateCtx) : List Ofpact × XlateCtx :=
  match xin.ofpacts with
  | some ofpacts => (ofpacts, c)
  | none =>
    match xin.rule with
    | some rule => (rule.ofpacts, c)
    | none =>
      let r := ruleDpifLookup env xin c
      (r.1.ofpacts, r.2)

/-- Fragments that are handled as usual have no ports, neither now nor at a commit. -/
def hideFragPorts (env : Env) (c : XlateCtx) : XlateCtx :=
  if isFragment c.flow && env.frag c.xbridge == .normal then
    { c with flow := hidePorts c.flow, base := hidePorts c.base }
  else c

/-- Whether the input port lets the packet in. -/
def arrives (env : Env) (c : XlateCtx) : Bool :=
  match env.port c.xbridge (c.flow .inPort) with
  | some xport => mayReceive xport.config c.flow
  | none => true

/-- `xlate_action_set`. -/
def xlateActionSet (translate : List Ofpact → XlateM A PUnit) : XlateM A PUnit :=
  branch XlateCtx.actionSet fun
    | [] => pure ⟨⟩
    | act :: acts => translate ((executeActionSet (act :: acts)).map Ofpact.action)

/-- `actions_output_to_local_port`. -/
def actionsOutputToLocalPort (env : Env) (c : XlateCtx) : Bool :=
  c.odp.any (· == .output ((env.port c.xbridge ofppLocal).elim odppNone XPort.odpPort))

/-- `in_band_must_output_to_local_port`: replies of a DHCP server. -/
def inBandMustOutputToLocalPort (fl : Flow) : Bool :=
  fl .dlType == ethTypeIp && fl .nwProto == ipprotoUdp && fl .tpSrc == dhcpServerPort &&
    fl .tpDst == dhcpClientPort

def inBandDue (env : Env) (c : XlateCtx) : Bool :=
  env.hasInBand c.xbridge && inBandMustOutputToLocalPort c.flow &&
    !actionsOutputToLocalPort env c

/-- The output that in-band control adds. The fields it depends on are not un-wildcarded. -/
def inBandOutput (env : Env) (xin : XlateIn) (inner : Inner A) : XlateM A PUnit :=
  branch (inBandDue env) fun
    | true => composeOutputAction env xin inner ofppLocal
    | false => pure ⟨⟩

/-- The actions of the packet, if it arrives, and then the action set. -/
def xlateArrived (env : Env) (xin : XlateIn) (fx : Effects A)
    (ofpacts : List Ofpact) : XlateM A PUnit := do
  branch (arrives env) fun
    | true => doXlateActions env xin fx maxResubmitRecursion ofpacts
    | false => pure ⟨⟩
  xlateActionSet (doXlateActions env xin fx maxResubmitRecursion)

/-- What `xlate_actions__` does with a packet that is not special. -/
def xlateWhole (env : Env) (xin : XlateIn) (fx : Effects A) (ofpacts : List Ofpact) :
    XlateM A PUnit := do
  xlateArrived env xin fx ofpacts
  inBandOutput env xin (some (doXlateActions env xin fx (maxResubmitRecursion - 1)))

/-- `flow_wildcards_clear_non_packet_fields`, and ICMP types and codes of 8 bits. -/
def finalMasks (icmp : Bool) (wc : Flow) : Flow := fun f => match f with
  | .metadata => 0
  | .reg _ => 0
  | .tpSrc => if icmp then wc .tpSrc &&& htons 0xff else wc .tpSrc
  | .tpDst => if icmp then wc .tpDst &&& htons 0xff else wc .tpDst
  | f => wc f

/-- `nl_attr_oversized`. -/
def oversized (c : XlateCtx) : Bool := 65535 < 4 + c.odpSize

/-- `struct xlate_out`. -/
structure XlateOut where
  odp : List OdpAction
  wc : Flow
  slow : SlowReasons
  flowMods : List (Nat × Flow)

/-- The end of `xlate_actions__`. -/
def finish (xin : XlateIn) (c : XlateCtx) : XlateOut where
  odp := c.odp
  wc := finalMasks (isIcmp xin.flow) c.wc
  slow := if oversized c then { c.slow with action := true } else c.slow
  flowMods := c.flowMods

/-- A fragment that is to be dropped leaves by another way, with the masks as they are. -/
def finishDropped (c : XlateCtx) : XlateOut := ⟨c.odp, c.wc, c.slow, c.flowMods⟩

def dropsFragment (env : Env) (xin : XlateIn) : Bool :=
  isFragment xin.flow && env.frag xin.xbridge == .drop

/-- `xlate_actions`. -/
def xlateActions (env : Env) (xin : XlateIn) (fx : Effects A) (a : A) :
    Except Fault (A × XlateOut) :=
  let start := startActions env xin (initCtx xin)
  if dropsFragment env xin then .ok (a, finishDropped start.2)
  else do
    let r ← xlateWhole env xin fx start.1 (a, hideFragPorts env start.2)
    return (r.2.1, finish xin r.2.2)

/-! ## The state of the switch -/

/-- An entry of `struct mac_learning`. Entries do not expire, and there is room for all. -/
structure MacEntry where
  xbridge : Nat
  vlan : BitVec 12
  mac : BitVec 48
  bundle : Nat
  deriving DecidableEq

abbrev Macs := List MacEntry

/-- `mac_learning_lookup`: the bundle that the address is behind. -/
def macLookup (macs : Macs) (xbridge : Nat) (vlan : BitVec 12) (mac : BitVec 48) : Option Nat :=
  (macs.find? fun e => e.xbridge == xbridge && e.vlan == vlan && e.mac == mac).map MacEntry.bundle

/-- `update_learning_table`, which changes nothing if the address is where it was. -/
def updateLearningTable (macs : Macs) (xbridge : Nat) (input : NormalIn) (mac : BitVec 48) : Macs :=
  if macLookup macs xbridge input.vlan mac = some input.bundle then macs
  else ⟨xbridge, input.vlan, mac, input.bundle⟩ :: macs

def learnMac (mayLearn : Bool) (xbridge : Nat) (input : NormalIn) (view : NormalView)
    (macs : Macs) : Option Nat × Macs :=
  let macs := if mayLearn && input.learns then updateLearningTable macs xbridge input view.dlSrc
    else macs
  (macLookup macs xbridge input.vlan view.dlDst, macs)

variable {hash : Key → BitVec 32}

/-- What translations change for those after them. -/
structure Shared (hash : Key → BitVec 32) where
  apps : GApps hash
  macs : Macs

/-- The result of `xlate_fp` as its caller sees it. What is there when no value was
returned is up to the compiler. -/
def shouldStop (undetermined : NoValue → Bool) : Except NoValue Bool → Bool
  | .ok drop => drop
  | .error why => undetermined why

/-- The case `OFPACT_GOTO_FP`. -/
def gotoFp (undetermined : NoValue → Bool) (tcpFlags : BitVec 16) (bitmap : BitVec 8) :
    XlateM (Shared hash) PUnit := fun s => do
  let r ← xlateFp s.1.apps bitmap s.2.flow tcpFlags
  return (⟨⟩, { s.1 with apps := r.apps }, { s.2 with
    flow := r.flow, exit := s.2.exit || shouldStop undetermined r.drop })

def switchEffects (undetermined : NoValue → Bool) (xin : XlateIn) : Effects (Shared hash) where
  gotoFp := gotoFp undetermined xin.tcpFlags
  learn := fun xbridge input view s =>
    let r := learnMac xin.mayLearn xbridge input view s.macs
    .ok (r.1, { s with macs := r.2 })

/-- A translation with the applications of the switch. -/
def xlate (undetermined : NoValue → Bool) (env : Env) (xin : XlateIn) (s : Shared hash) :
    Except Fault (Shared hash × XlateOut) :=
  xlateActions env xin (switchEffects undetermined xin) s

end Sdpa.Switch
