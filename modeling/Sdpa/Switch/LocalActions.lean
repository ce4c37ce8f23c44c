import Mathlib.Logic.Function.Iterate
import Sdpa.Switch.Commit

/-!
# Actions that translation carries out in place

The cases of `do_xlate_actions` that neither output the packet nor translate
further actions. Each reads and changes the flow, un-wildcards what it depends on
and may stop the rest of the current list of actions.
-/
namespace Sdpa.Switch

/-- `struct xlate_in`, as the caller sets it up. -/
structure XlateIn where
  xbridge : Nat
  flow : Flow
  tcpFlags : BitVec 16
  /-- Whether there is a packet, and not only its flow. -/
  packet : Bool
  mayLearn : Bool
  /-- Actions to translate in place of those of a rule. -/
  ofpacts : Option (List Ofpact)
  rule : Option Rule
  skipWildcards : Bool

/-- A packet-in needs the packet as the actions so far have left it. -/
def executeControllerAction (xin : XlateIn) (c : XlateCtx) : XlateCtx :=
  let c := { c with slow := { c.slow with controller := true } }
  if xin.packet then commitOdpActions c else c

/-! ## VLAN and IP -/

def setVlanVid (vid : BitVec 12) (pushVlanIfNeeded : Bool) (c : XlateCtx) : XlateCtx :=
  let c := c.observe .vlanTci (vlanVidMask ||| vlanCfi)
  if c.flow .vlanTci &&& vlanCfi ≠ 0 ∨ pushVlanIfNeeded = true then
    c.put .vlanTci ((c.flow .vlanTci &&& ~~~vlanVidMask) ||| (htons (vid.setWidth 16) ||| vlanCfi))
  else c

def setVlanPcp (pcp : BitVec 3) (pushVlanIfNeeded : Bool) (c : XlateCtx) : XlateCtx :=
  let c := c.observe .vlanTci (vlanPcpMask ||| vlanCfi)
  if c.flow .vlanTci &&& vlanCfi ≠ 0 ∨ pushVlanIfNeeded = true then
    c.put .vlanTci ((c.flow .vlanTci &&& ~~~vlanPcpMask) |||
      htons ((pcp.setWidth 16 <<< 13) ||| 0x1000))
  else c

/-- Overwrite a field with a value that the masks cover. -/
def overwrite (f : FlowField) (v : BitVec f.width) (c : XlateCtx) : XlateCtx :=
  (c.unwildcard f).put f v

/-- Overwrite the bits `m` of a field. -/
def overwriteBits (f : FlowField) (m v : BitVec f.width) (c : XlateCtx) : XlateCtx :=
  (c.observe f m).put f ((c.flow f &&& ~~~m) ||| v)

def setL4Port (f : FlowField) (v : BitVec f.width) (c : XlateCtx) : XlateCtx :=
  if isIpAny c.flow then overwrite f v (c.unwildcard .nwProto) else c

/-- `compose_dec_ttl`. An expired packet is reported to the listed controllers. -/
def composeDecTtl (xin : XlateIn) (controllers : Nat) (c : XlateCtx) : Bool × XlateCtx :=
  let c := c.unwildcard .nwTtl
  if isIpAny c.flow then
    if (1 : BitVec 8).ult (c.flow .nwTtl) then (false, c.put .nwTtl (c.flow .nwTtl - 1))
    else (true, (executeControllerAction xin)^[controllers] c)
  else (false, c)

/-! ## MPLS -/

def setMplsLseTtl (lse : BitVec 32) (ttl : BitVec 8) : BitVec 32 :=
  (lse &&& ~~~mplsTtlMask) ||| htonl (ttl.setWidth 32)

def setMplsLseTc (lse : BitVec 32) (tc : BitVec 8) : BitVec 32 :=
  (lse &&& ~~~mplsTcMask) ||| htonl ((tc.setWidth 32 <<< 9) &&& 0xe00)

def setMplsLseBos (lse : BitVec 32) (bos : BitVec 8) : BitVec 32 :=
  (lse &&& ~~~mplsBosMask) ||| htonl ((bos.setWidth 32 <<< 8) &&& 0x100)

def setMplsLseLabel (lse : BitVec 32) (label : BitVec 20) : BitVec 32 :=
  (lse &&& ~~~mplsLabelMask) ||| htonl (label.setWidth 32 <<< 12)

def setMplsLseValues (ttl tc bos : BitVec 8) (label : BitVec 20) : BitVec 32 :=
  setMplsLseLabel (setMplsLseBos (setMplsLseTc (setMplsLseTtl 0 ttl) tc) bos) label

def mplsLseToTtl (lse : BitVec 32) : BitVec 8 := (htonl lse).setWidth 8

/-- The label that a first push puts on an IP packet. -/
def firstMplsLse (fl : Flow) : BitVec 32 :=
  setMplsLseValues (if fl .nwTtl = 0 then 0x40 else fl .nwTtl) ((fl .nwTos &&& ipDscpMask) >>> 2) 1
    (if fl .dlType = ethTypeIpv6 then 2 else 0)

/-- `compose_mpls_push_action`. Only one change of the label stack fits between two
commits. -/
def composeMplsPushAction (ethType : BitVec 16) (c : XlateCtx) : Bool × XlateCtx :=
  if c.mplsDepthDelta ≠ .unchanged ∨ c.flow .mplsLse ≠ c.base .mplsLse then (true, c)
  else
    let c := c.unwildcard .mplsLse
    let c := { c with prePushMplsLse := c.flow .mplsLse }
    let c := if ethTypeMpls (c.flow .dlType) then c.put .mplsLse (c.flow .mplsLse &&& ~~~mplsBosMask)
      else
        let c := (c.observe .nwTos ipDscpMask).unwildcard .nwTtl
        c.put .mplsLse (firstMplsLse c.flow)
    (false, { c.put .dlType ethType with mplsDepthDelta := .pushed })

/-- `compose_mpls_pop_action`. A pop after a push takes the push back. -/
def composeMplsPopAction (ethType : BitVec 16) (c : XlateCtx) : Bool × XlateCtx :=
  if !ethTypeMpls (c.flow .dlType) then (true, c)
  else match c.mplsDepthDelta with
    | .popped => (true, c)
    | .pushed =>
      let c := (c.unwildcard .mplsLse).put .mplsLse c.prePushMplsLse
      (false, { c.put .dlType ethType with mplsDepthDelta := .unchanged })
    | .unchanged =>
      (false, { (c.unwildcard .mplsLse).put .dlType ethType with mplsDepthDelta := .popped })

/-- The three actions that set a part of the label. -/
def composeSetMplsAction (m v : BitVec 32) (c : XlateCtx) : Bool × XlateCtx :=
  if !ethTypeMpls (c.flow .dlType) then (true, c)
  else if c.mplsDepthDelta = .popped then (true, c)
  else (false, overwriteBits .mplsLse m v c)

def composeDecMplsTtlAction (xin : XlateIn) (c : XlateCtx) : Bool × XlateCtx :=
  let ttl := mplsLseToTtl (c.flow .mplsLse)
  let c := c.unwildcard .mplsLse
  if !ethTypeMpls (c.flow .dlType) then (false, c)
  else if (1 : BitVec 8).ult ttl then
    (false, c.put .mplsLse (setMplsLseTtl (c.flow .mplsLse) (ttl - 1)))
  else (true, executeControllerAction xin c)

/-! ## The cases -/

/-- `learn_mask`, and the flow modification unless learning is off. -/
def xlateLearnAction (env : Env) (xin : XlateIn) (operand : Nat) (c : XlateCtx) : XlateCtx :=
  let c := { c with wc := fun f => c.wc f ||| env.learnMask operand f }
  if xin.mayLearn then { c with flowMods := c.flowMods ++ [(operand, c.flow)] } else c

def XlateCtx.registers (c : XlateCtx) : Registers := ⟨c.flow, c.wc, c.stack⟩

def XlateCtx.setRegisters (c : XlateCtx) (r : Registers) : XlateCtx :=
  { c with flow := r.flow, wc := r.wc, stack := r.stack }

/-- The result says whether the rest of the list is skipped. Output, group, enqueue,
resubmit and register outputs are not carried out in place. -/
def localAct (env : Env) (xin : XlateIn) (act : Act) (c : XlateCtx) : Bool × XlateCtx :=
  match act with
  | .controller => (false, executeControllerAction xin c)
  | .setVlanVid vid push => (false, setVlanVid vid push c)
  | .setVlanPcp pcp push => (false, setVlanPcp pcp push c)
  | .stripVlan => (false, overwrite .vlanTci 0 c)
  | .pushVlan => (false, overwrite .vlanTci vlanCfi c)
  | .setEthSrc mac => (false, overwrite .dlSrc mac c)
  | .setEthDst mac => (false, overwrite .dlDst mac c)
  | .setIpv4Src ipv4 =>
    (false, if c.flow .dlType = ethTypeIp then overwrite .nwSrc ipv4 c else c)
  | .setIpv4Dst ipv4 =>
    (false, if c.flow .dlType = ethTypeIp then overwrite .nwDst ipv4 c else c)
  | .setIpDscp dscp =>
    (false, if isIpAny c.flow then overwriteBits .nwTos ipDscpMask (dscp.setWidth 8 <<< 2) c else c)
  | .setIpEcn ecn =>
    (false, if isIpAny c.flow then overwriteBits .nwTos ipEcnMask (ecn.setWidth 8) c else c)
  | .setIpTtl ttl => (false, if isIpAny c.flow then overwrite .nwTtl ttl c else c)
  | .setL4SrcPort port => (false, setL4Port .tpSrc (htons port) c)
  | .setL4DstPort port => (false, setL4Port .tpDst (htons port) c)
  | .setTunnel tunId => (false, c.put .tunId tunId)
  | .setQueue queueId =>
    (false, match env.queueToPriority c.xbridge queueId with
      | some priority => c.put .skbPriority priority
      | none => c)
  | .popQueue => (false, c.put .skbPriority (xin.flow .skbPriority))
  | .load operand => (false, c.setRegisters (env.load operand c.registers))
  | .pushMpls ethertype => composeMplsPushAction ethertype c
  | .popMpls ethertype => composeMplsPopAction ethertype c
  | .setMplsLabel label =>
    composeSetMplsAction mplsLabelMask (htonl (label.setWidth 32 <<< 12)) c
  | .setMplsTc tc => composeSetMplsAction mplsTcMask (htonl (tc.setWidth 32 <<< 9)) c
  | .setMplsTtl ttl => composeSetMplsAction mplsTtlMask (htonl (ttl.setWidth 32)) c
  | .decMplsTtl => composeDecMplsTtlAction xin c
  | .decTtl controllers => composeDecTtl xin controllers c
  | .note => (false, c)
  | .learn operand => (false, xlateLearnAction env xin operand c)
  | .exit => (false, { c with exit := true })
  | .finTimeout => (false, c.unwildcard .nwProto)
  | .sample operand => (false, (commitOdpActions c).putOdp (.sample operand))
  | .output _ | .group _ | .enqueue _ _ | .resubmit _ _ | .compute _ => (false, c)

end Sdpa.Switch
