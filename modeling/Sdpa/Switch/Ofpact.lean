import Sdpa.Switch.Flow

/-!
# OpenFlow actions and the configuration that translation reads

The actions and instructions of `lib/ofp-actions.h`, and what the translator of
`ofproto/ofproto-dpif-xlate.c` looks up: ports, flow tables, groups and queues.
Arguments have the width the decoder admits. Actions that compute on subfields
(`nx-match.c`, `multipath.c`, `bundle.c`) and the port choice of a learning switch
are functions of the environment.
-/
namespace Sdpa.Switch

/-- The actions. Numbers stand for the operands of actions that are interpreted by
the environment. -/
inductive Act
  | output (port : BitVec 16)
  | group (groupId : BitVec 32)
  | controller
  | enqueue (port : BitVec 16) (queue : BitVec 32)
  | setVlanVid (vid : BitVec 12) (pushVlanIfNeeded : Bool)
  | setVlanPcp (pcp : BitVec 3) (pushVlanIfNeeded : Bool)
  | stripVlan
  | pushVlan
  | setEthSrc (mac : BitVec 48)
  | setEthDst (mac : BitVec 48)
  | setIpv4Src (ipv4 : BitVec 32)
  | setIpv4Dst (ipv4 : BitVec 32)
  | setIpDscp (dscp : BitVec 6)
  | setIpEcn (ecn : BitVec 2)
  | setIpTtl (ttl : BitVec 8)
  | setL4SrcPort (port : BitVec 16)
  | setL4DstPort (port : BitVec 16)
  | resubmit (inPort : BitVec 16) (tableId : BitVec 8)
  | setTunnel (tunId : BitVec 64)
  | setQueue (queueId : BitVec 32)
  | popQueue
  /-- `REG_LOAD` and `SET_FIELD`. -/
  | load (operand : Nat)
  /-- `REG_MOVE`, `STACK_PUSH`, `STACK_POP`, `MULTIPATH`, `BUNDLE` and `OUTPUT_REG`. -/
  | compute (operand : Nat)
  | pushMpls (ethertype : BitVec 16)
  | popMpls (ethertype : BitVec 16)
  | setMplsLabel (label : BitVec 20)
  | setMplsTc (tc : BitVec 3)
  | setMplsTtl (ttl : BitVec 8)
  | decMplsTtl
  | decTtl (controllers : Nat)
  | note
  | learn (operand : Nat)
  | exit
  | finTimeout
  | sample (operand : Nat)
  deriving DecidableEq

/-- Actions and instructions, as they stand in the actions of a rule. -/
inductive Ofpact
  | action (act : Act)
  | clearActions
  | writeActions (acts : List Act)
  | writeMetadata (metadata mask : BitVec 64)
  | meter
  | gotoTable (tableId : BitVec 8)
  | gotoFp (bitmap : BitVec 8)
  deriving DecidableEq

/-! ## Action sets -/

/-- `ofpact_is_set_action`. -/
def Act.isSetAction : Act → Bool
  | .load _ | .setEthDst _ | .setEthSrc _ | .setIpDscp _ | .setIpEcn _ | .setIpTtl _
  | .setIpv4Dst _ | .setIpv4Src _ | .setL4DstPort _ | .setL4SrcPort _ | .setMplsLabel _
  | .setMplsTc _ | .setMplsTtl _ | .setQueue _ | .setTunnel _ | .setVlanPcp _ _
  | .setVlanVid _ _ => true
  | _ => false

def Act.isStripVlan : Act → Bool | .stripVlan => true | _ => false
def Act.isPopMpls : Act → Bool | .popMpls _ => true | _ => false
def Act.isPushMpls : Act → Bool | .pushMpls _ => true | _ => false
def Act.isPushVlan : Act → Bool | .pushVlan => true | _ => false
def Act.isDecTtl : Act → Bool | .decTtl _ => true | _ => false
def Act.isDecMplsTtl : Act → Bool | .decMplsTtl => true | _ => false
def Act.isSetQueue : Act → Bool | .setQueue _ => true | _ => false
def Act.isGroup : Act → Bool | .group _ => true | _ => false
def Act.isOutput : Act → Bool | .output _ => true | _ => false

/-- `ofpacts_copy_last`. -/
def copyLast (actionSet : List Act) (filter : Act → Bool) : List Act :=
  (actionSet.filter filter).getLast?.toList

/-- `ofpacts_execute_action_set`. Without an output or a group nothing is left. -/
def executeActionSet (actionSet : List Act) : List Act :=
  let last := copyLast actionSet
  let actionList := last Act.isStripVlan ++ last Act.isPopMpls ++ last Act.isPushMpls ++
    last Act.isPushVlan ++ last Act.isDecTtl ++ last Act.isDecMplsTtl ++
    actionSet.filter Act.isSetAction ++ last Act.isSetQueue
  if actionSet.any Act.isGroup then actionList ++ last Act.isGroup
  else if actionSet.any Act.isOutput then actionList ++ last Act.isOutput
  else []

/-! ## Configuration -/

/-- The flags of `enum ofputil_port_config` that translation tests. -/
structure PortConfig where
  noRecv : Bool
  noRecvStp : Bool
  noFwd : Bool
  noFlood : Bool
  noPacketIn : Bool
  deriving DecidableEq

/-- The far end of a patch port. -/
structure Peer where
  xbridge : Nat
  ofpPort : BitVec 16
  config : PortConfig
  deriving DecidableEq

/-- `struct xport`. -/
structure XPort where
  config : PortConfig
  odpPort : BitVec 32
  peer : Option Peer
  /-- The DSCP that the port's QoS configuration gives to a priority. -/
  skbPriorities : BitVec 32 → Option (BitVec 6)

/-- A rule of a flow table. -/
structure Rule where
  ofpacts : List Ofpact

/-- Groups, with the buckets that are live. -/
inductive Group
  /-- `OFPGT11_ALL` and `OFPGT11_INDIRECT`. -/
  | all (buckets : List (List Act))
  /-- `OFPGT11_SELECT`: a live bucket by the destination address. -/
  | select (live : List (List Act)) (best : BitVec 48 → Nat)
  /-- `OFPGT11_FF`. -/
  | ff (firstLive : Option (List Act))

def bestLiveBucket (live : List (List Act)) (best : BitVec 48 → Nat) (dlDst : BitVec 48) :
    Option (List Act) :=
  live[best dlDst % live.length]?

/-- `enum ofp_config_flags`, as far as it concerns fragments. -/
inductive FragHandling
  | normal | drop | nxMatch
  deriving DecidableEq

/-- What `xlate_normal` decides upon. The VLAN is given without its priority bits. -/
structure NormalView where
  inPort : BitVec 16
  dlType : BitVec 16
  dlSrc : BitVec 48
  dlDst : BitVec 48
  vlan : BitVec 16
  deriving DecidableEq

/-- Where `xlate_normal` finds a packet to come from: the bundle of its port, the VLAN, and
whether its source address is one to learn. -/
structure NormalIn where
  bundle : Nat
  vlan : BitVec 12
  learns : Bool
  deriving DecidableEq

/-- A port that `output_normal` sends to, and the VLAN tag it gets there. -/
structure NormalOutput where
  port : BitVec 16
  vid : BitVec 12
  usePriorityTags : Bool
  deriving DecidableEq

/-- What a subfield action works on. -/
structure Registers where
  flow : Flow
  wc : Flow
  stack : List (BitVec 128)

/-- The configuration that stays fixed while packets are translated. Bridges are
numbered. -/
structure Env where
  port : Nat → BitVec 16 → Option XPort
  /-- The ports of a bridge in the order of its hash map. -/
  xports : Nat → List (BitVec 16)
  /-- `classifier_lookup`: the rule of a table, and the bits looked at to find it. -/
  classifier : Nat → BitVec 8 → Flow → Option Rule × Flow
  frag : Nat → FragHandling
  group : Nat → BitVec 32 → Option Group
  queueToPriority : Nat → BitVec 32 → Option (BitVec 32)
  hasInBand : Nat → Bool
  /-- The checks of `xlate_normal` up to where it learns; a packet may not be let in. -/
  normalIn : Nat → NormalView → Option NormalIn
  /-- The port of the bundle that the destination is known to be behind, or those to flood. -/
  normal : Nat → NormalIn → Option Nat → List NormalOutput
  load : Nat → Registers → Registers
  /-- The port is the one an output is to follow to. -/
  compute : Nat → Registers → Option (BitVec 16) × Registers
  learnMask : Nat → Flow

/-! ## Constants -/

def ofppInPort : BitVec 16 := 0xfff8
def ofppTable : BitVec 16 := 0xfff9
def ofppNormal : BitVec 16 := 0xfffa
def ofppFlood : BitVec 16 := 0xfffb
def ofppAll : BitVec 16 := 0xfffc
def ofppController : BitVec 16 := 0xfffd
def ofppLocal : BitVec 16 := 0xfffe
def ofppNone : BitVec 16 := 0xffff
def odppNone : BitVec 32 := 0xffffffff

def ethTypeIp : BitVec 16 := htons 0x0800
def ethTypeArp : BitVec 16 := htons 0x0806
def ethTypeIpv6 : BitVec 16 := htons 0x86dd

def ethTypeMpls (t : BitVec 16) : Bool := t == htons 0x8847 || t == htons 0x8848

/-- 01:80:c2:00:00:00, loaded like every field. -/
def ethAddrStp : BitVec 48 := 0xc28001

def vlanCfi : BitVec 16 := htons 0x1000
def vlanVidMask : BitVec 16 := htons 0x0fff
def vlanPcpMask : BitVec 16 := htons 0xe000
def ipDscpMask : BitVec 8 := 0xfc
def ipEcnMask : BitVec 8 := 0x03
def mplsTtlMask : BitVec 32 := htonl 0xff
def mplsBosMask : BitVec 32 := htonl 0x100
def mplsTcMask : BitVec 32 := htonl 0xe00
def mplsLabelMask : BitVec 32 := htonl 0xfffff000
def flowNwFragAny : BitVec 8 := 1
def flowNwFragMask : BitVec 8 := 3

def ipprotoIcmp : BitVec 8 := 1
def ipprotoTcp : BitVec 8 := 6
def ipprotoUdp : BitVec 8 := 17
def ipprotoIcmpv6 : BitVec 8 := 58
def ipprotoSctp : BitVec 8 := 132
def dhcpServerPort : BitVec 16 := htons 67
def dhcpClientPort : BitVec 16 := htons 68

/-- `is_ip_any`. -/
def isIpAny (fl : Flow) : Bool := fl .dlType == ethTypeIp || fl .dlType == ethTypeIpv6

/-- `is_icmpv4` or `is_icmpv6`. -/
def isIcmp (fl : Flow) : Bool :=
  (fl .dlType == ethTypeIp && fl .nwProto == ipprotoIcmp) ||
    (fl .dlType == ethTypeIpv6 && fl .nwProto == ipprotoIcmpv6)

end Sdpa.Switch
