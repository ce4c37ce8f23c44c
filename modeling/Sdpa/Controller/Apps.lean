import Sdpa.Controller.Messages
import Sdpa.Controller.SfaUtil

/-!
# The applications of the controller

`StateFirewall` and `Ddnsra` each create one app on the switch when they start.
A packet-in that they accept adds entries for both directions of its connection
to the state table and the action table, in two messages. Logging, the sets of
fields that a routing decision leaves unwildcarded and the commented-out flow
modifications are left out.
-/
namespace Sdpa.Controller

/-- `IRoutingDecision.RoutingAction`, as far as the applications use it. -/
inductive RoutingAction
  | drop | multicast | forwardOrFlood
  deriving DecidableEq

/-- `Command` of a listener: whether the next one in the chain sees the message. -/
inductive Command
  | continue | stop
  deriving DecidableEq

/-- What a listener does with a packet-in. -/
structure PacketInResult where
  decision : Option RoutingAction
  mods : Option (SFAStMod × SFAAtMod)
  command : Command

/-! ## `StateFirewall` -/

/-- `StateFirewallStatus`. Most of the states are not used. -/
inductive StateFirewallStatus
  | defaultError | requesterNone | responserNone | requesterSynSent | responserWaitsyn
  | responserSynackSent | requesterEstablish | responserEstablish | requesterFinSent
  | responserWait | responserClosewait1 | requesterFinwait1 | responserClosewait2
  | requesterFinwait2
  deriving DecidableEq

def StateFirewallStatus.getValue : StateFirewallStatus → BitVec 32
  | .defaultError => 0
  | .requesterNone => 1
  | .responserNone => 2
  | .requesterSynSent => 3
  | .responserWaitsyn => 4
  | .responserSynackSent => 6
  | .requesterEstablish => 7
  | .responserEstablish => 8
  | .requesterFinSent => 9
  | .responserWait => 10
  | .responserClosewait1 => 11
  | .requesterFinwait1 => 12
  | .responserClosewait2 => 13
  | .requesterFinwait2 => 14

namespace StateFirewall

open StateFirewallStatus

def appId : BitVec 32 := 1

/-- `(1<<15)|(1<<16)`: the two addresses. -/
def bitMap : BitVec 64 := BitVec.twoPow 64 15 ||| BitVec.twoPow 64 16

/-- A transition on a bit of the TCP flags. -/
def onFlag (bit : BitVec 64) (pre next : StateFirewallStatus) : STTDATA :=
  ⟨.tpFlag, 1, .const, bit, .bitand, pre.getValue, next.getValue⟩

def sttdat : List STTDATA :=
  [onFlag 2 requesterNone requesterSynSent,
    onFlag 2 responserNone responserEstablish,
    onFlag 16 requesterSynSent requesterEstablish,
    onFlag 1 requesterEstablish requesterNone,
    onFlag 1 responserEstablish responserNone,
    onFlag 16 requesterEstablish requesterEstablish,
    onFlag 16 responserEstablish responserEstablish]

def doSendSfaInitMsg : SFACreate :=
  ((SFACreate.new.setST ((SFASt.new.setAppid appId).setBitmap bitMap)).setSTT
    (sttdat.foldl SFAStt.addSttData SFAStt.new)).setAT (SFAAt.new.setBitmap bitMap)

/-- `stmodmsg`. -/
def stCalls (strFwd strBwd : List (BitVec 8)) : List (SFAModType × STDATA) :=
  [(.add, STDATA.new requesterNone.getValue strFwd),
    (.add, STDATA.new responserNone.getValue strBwd)]

/-- `atmodmsg`. -/
def atCalls (strFwd strBwd : List (BitVec 8)) : List (SFAModType × ATDATA) :=
  [(.add, ATDATA.new requesterNone.getValue strFwd ⟨.output, 0⟩),
    (.add, ATDATA.new responserNone.getValue strBwd ⟨.output, 0⟩),
    (.add, ATDATA.new requesterSynSent.getValue strFwd ⟨.output, 0⟩),
    (.add, ATDATA.new responserEstablish.getValue strBwd ⟨.output, 0⟩),
    (.add, ATDATA.new requesterEstablish.getValue strFwd ⟨.output, 0⟩),
    (.add, ATDATA.new requesterFinSent.getValue strFwd ⟨.output, 0⟩),
    (.add, ATDATA.new defaultError.getValue strFwd ⟨.drop, 0⟩),
    (.add, ATDATA.new defaultError.getValue strBwd ⟨.drop, 0⟩)]

/-- The two messages for a packet-in. -/
def mods (inPort : BitVec 32) (eth : Ethernet) : SFAStMod × SFAAtMod :=
  let strFwd := getFDirectionDataFromPktIn bitMap inPort eth
  let strBwd := getBDirectionDataFromPktIn bitMap inPort eth
  (.ofCalls {} appId (stCalls strFwd strBwd), .ofCalls {} appId (atCalls strFwd strBwd))

inductive FirewallAction
  | allow | deny
  deriving DecidableEq

/-- `IPIsBroadcast` for the subnet mask 255.255.255.0. -/
def ipIsBroadcast (ipAddress : BitVec 32) : Bool := ipAddress &&& 0xff == 0xff

def isTcp (eth : Ethernet) : Bool :=
  match eth.payload with
  | some ⟨_, _, .tcp _ _⟩ => true
  | _ => false

/-- The rule is the one that `matchWithRule` returns. -/
def processPacketInMessage (isInit : Bool) (decision : Option RoutingAction)
    (rule : Option FirewallAction) (inPort : BitVec 32) (eth : Ethernet) : PacketInResult :=
  if eth.destinationMAC = BitVec.allOnes 48 then
    let malformed := match eth.payload with
      | some ip => !ipIsBroadcast ip.destinationAddress
      | none => false
    ⟨some (if malformed then .drop else .multicast), none, .continue⟩
  else if eth.etherType = 0x0806 then ⟨some .forwardOrFlood, none, .continue⟩
  else if decision = none ∧ rule = some .deny then ⟨some .drop, none, .continue⟩
  else if decision = none ∧ rule = none ∧ isTcp eth then ⟨some .drop, none, .continue⟩
  else if decision = none ∧ rule = some .allow ∧ isTcp eth ∧ isInit then
    ⟨none, some (mods inPort eth), .stop⟩
  else ⟨some .forwardOrFlood, none, .continue⟩

end StateFirewall

/-! ## `Ddnsra` -/

inductive DdnsraState
  | defaultError | start | requestSent
  deriving DecidableEq

def DdnsraState.getValue : DdnsraState → BitVec 32
  | .defaultError => 0
  | .start => 1
  | .requestSent => 2

namespace Ddnsra

open DdnsraState

def appId : BitVec 32 := 3

/-- `(1<<15)|(1<<16)|(1<<25)|(1<<26)`: addresses and ports. -/
def bitMap : BitVec 64 :=
  BitVec.twoPow 64 15 ||| BitVec.twoPow 64 16 ||| BitVec.twoPow 64 25 ||| BitVec.twoPow 64 26

def sttdat : List STTDATA :=
  [⟨.tpSrc, 1, .const, 53, .isequal, requestSent.getValue, start.getValue⟩]

def doSendSfaInitMsg : SFACreate :=
  ((SFACreate.new.setST ((SFASt.new.setAppid appId).setBitmap bitMap)).setSTT
    (sttdat.foldl SFAStt.addSttData SFAStt.new)).setAT (SFAAt.new.setBitmap bitMap)

def stCalls (strFwd strBwd : List (BitVec 8)) : List (SFAModType × STDATA) :=
  [(.add, STDATA.new start.getValue strFwd), (.add, STDATA.new requestSent.getValue strBwd)]

def atCalls (strFwd strBwd : List (BitVec 8)) : List (SFAModType × ATDATA) :=
  [(.add, ATDATA.new start.getValue strFwd ⟨.output, 0⟩),
    (.add, ATDATA.new start.getValue strBwd ⟨.output, 0⟩),
    (.add, ATDATA.new defaultError.getValue strFwd ⟨.drop, 0⟩),
    (.add, ATDATA.new defaultError.getValue strBwd ⟨.drop, 0⟩)]

def mods (inPort : BitVec 32) (eth : Ethernet) : SFAStMod × SFAAtMod :=
  let strFwd := getFDirectionDataFromPktIn bitMap inPort eth
  let strBwd := getBDirectionDataFromPktIn bitMap inPort eth
  (.ofCalls {} appId (stCalls strFwd strBwd), .ofCalls {} appId (atCalls strFwd strBwd))

/-- Protocol and destination port are those of the match of the packet-in. -/
def processPacketInMessage (networkProtocol : BitVec 8) (transportDestination : BitVec 16)
    (inPort : BitVec 32) (eth : Ethernet) : PacketInResult :=
  if networkProtocol ≠ 17 ∨ transportDestination ≠ 53 then ⟨none, none, .continue⟩
  else ⟨none, some (mods inPort eth), .stop⟩

end Ddnsra

end Sdpa.Controller
