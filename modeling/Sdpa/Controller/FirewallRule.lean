import Mathlib.Data.Finset.Insert
import Sdpa.Lib.Checks

/-!
# Firewall rules: `FirewallRule`

A rule against a packet-in: `matchesFlow` goes through the fields of the rule,
stops at the first one that the packet does not have, and notes the fields that it
has got past in the set that belongs to the action of the rule. Java's `long`,
`int` and `short` are bit vectors.
-/
namespace Sdpa.Controller.Firewall

open Lib.Checks

inductive FirewallAction
  | deny
  | allow
  deriving DecidableEq

/-- The values of `FirewallRule()` are the defaults. -/
structure FirewallRule where
  ruleid : BitVec 32 := 0
  dpid : BitVec 64 := -1
  inPort : BitVec 16 := 0
  dlSrc : BitVec 64 := 0
  dlDst : BitVec 64 := 0
  dlType : BitVec 16 := 0
  nwSrcPrefix : BitVec 32 := 0
  nwSrcMaskbits : BitVec 32 := 0
  nwDstPrefix : BitVec 32 := 0
  nwDstMaskbits : BitVec 32 := 0
  nwProto : BitVec 16 := 0
  tpSrc : BitVec 16 := 0
  tpDst : BitVec 16 := 0
  wildcardDpid : Bool := true
  wildcardInPort : Bool := true
  wildcardDlSrc : Bool := true
  wildcardDlDst : Bool := true
  wildcardDlType : Bool := true
  wildcardNwSrc : Bool := true
  wildcardNwDst : Bool := true
  wildcardNwProto : Bool := true
  wildcardTpSrc : Bool := true
  wildcardTpDst : Bool := true
  priority : BitVec 32 := 0
  action : FirewallAction := .allow
  deriving DecidableEq

/-! ## Packets -/

structure Arp where
  senderHardwareAddress : BitVec 48
  senderProtocolAddress : BitVec 32
  targetHardwareAddress : BitVec 48
  targetProtocolAddress : BitVec 32
  deriving DecidableEq

/-- `data` is a payload that `IPv4.deserialize` leaves as it is: that of another protocol, and
that of a fragment of any protocol. -/
inductive Segment
  | tcp (sourcePort destinationPort : BitVec 16)
  | udp (sourcePort destinationPort : BitVec 16)
  | icmp
  | data
  deriving DecidableEq

structure Ip where
  protocol : BitVec 8
  sourceAddress : BitVec 32
  destinationAddress : BitVec 32
  payload : Segment
  deriving DecidableEq

inductive Payload
  | arp (p : Arp)
  | ipv4 (p : Ip)
  | data
  deriving DecidableEq

structure Ethernet where
  sourceMAC : BitVec 48
  destinationMAC : BitVec 48
  etherType : BitVec 16
  payload : Payload
  deriving DecidableEq

def typeARP : BitVec 16 := 0x0806

def typeIPv4 : BitVec 16 := 0x0800

def protocolTCP : BitVec 8 := 6

def protocolUDP : BitVec 8 := 17

def protocolICMP : BitVec 8 := 1

/-! ## Fields noted -/

inductive OFOXMFieldType
  | inPort
  | ethDst
  | ethSrc
  | ethType
  | ipProto
  | ipv4Src
  | ipv4Dst
  | tcpSrc
  | tcpDst
  | udpSrc
  | udpDst
  | arpSha
  | arpTha
  deriving DecidableEq

structure NonWildcardsPair where
  allow : Finset OFOXMFieldType := ∅
  drop : Finset OFOXMFieldType := ∅

/-- Notes a field in the set of an action. -/
def NonWildcardsPair.add (n : NonWildcardsPair) (x : FirewallAction × OFOXMFieldType) :
    NonWildcardsPair :=
  match x.1 with
  | .deny => { n with drop := insert x.2 n.drop }
  | .allow => { n with allow := insert x.2 n.allow }

def NonWildcardsPair.addAll (n : NonWildcardsPair) (a : FirewallAction)
    (fields : List OFOXMFieldType) : NonWildcardsPair :=
  fields.foldl (fun n f => n.add (a, f)) n

def NonWildcardsPair.of (n : NonWildcardsPair) : FirewallAction → Finset OFOXMFieldType
  | .deny => n.drop
  | .allow => n.allow

theorem NonWildcardsPair.mem_of_add (n : NonWildcardsPair) (x : FirewallAction × OFOXMFieldType)
    (a : FirewallAction) (f : OFOXMFieldType) : f ∈ (n.add x).of a ↔ (a, f) = x ∨ f ∈ n.of a := by
  obtain ⟨b, g⟩ := x
  cases a <;> cases b <;> simp [add, NonWildcardsPair.of]

theorem NonWildcardsPair.mem_of_foldl (l : List (FirewallAction × OFOXMFieldType))
    (n : NonWildcardsPair) (a : FirewallAction) (f : OFOXMFieldType) :
    f ∈ (l.foldl add n).of a ↔ (a, f) ∈ l ∨ f ∈ n.of a := by
  induction l generalizing n with
  | nil => simp
  | cons x l ih => rw [List.foldl_cons, ih, mem_of_add, List.mem_cons, or_left_comm, or_assoc]

/-! ## `matchesFlow` -/

/-- `matchIPAddress`. Java takes the count of a shift modulo 32. -/
def matchIPAddress (rulePrefix ruleBits packetAddress : BitVec 32) : Bool :=
  let ruleIprng := 32 - ruleBits
  if (0 : BitVec 32).slt ruleIprng then
    let count := ruleIprng.toNat % 32
    rulePrefix.sshiftRight count <<< count == packetAddress.sshiftRight count <<< count
  else rulePrefix == packetAddress

namespace FirewallRule

/-- The ports. `pkt_tp_dst_field` is asked to be null, for both. -/
def matchesPorts (r : FirewallRule) (pktTpSrc pktTpDst : BitVec 16)
    (pktTpSrcField pktTpDstField : Option OFOXMFieldType) (n : NonWildcardsPair) :
    Option (Bool × NonWildcardsPair) :=
  if (r.tpSrc != 0 && r.tpSrc != pktTpSrc) || pktTpDstField.isSome then some (false, n)
  else
    let n := n.addAll r.action ([.ethType, .ipProto] ++ pktTpSrcField.toList)
    if (r.tpDst != 0 && r.tpDst != pktTpDst) || pktTpDstField.isSome then some (false, n)
    else
      let n := n.addAll r.action ([.ethType, .ipProto] ++ pktTpDstField.toList)
      some (true, n.add (r.action, .ethType))

/-- The set of dropped packets gets the type of Ethernet frame with either action. -/
def noteProto (r : FirewallRule) (n : NonWildcardsPair) : NonWildcardsPair :=
  (n.add (.deny, .ethType)).add (r.action, .ipProto)

/-- The protocol. A payload of another class is a `ClassCastException`. -/
def matchesProto (r : FirewallRule) (pktIp : Ip) (n : NonWildcardsPair) :
    Option (Bool × NonWildcardsPair) :=
  if r.nwProto = protocolTCP.signExtend 16 then
    if pktIp.protocol ≠ protocolTCP then some (false, n)
    else
      match pktIp.payload with
      | .tcp sourcePort destinationPort =>
        r.matchesPorts sourcePort destinationPort (some .tcpSrc) (some .tcpDst) (r.noteProto n)
      | _ => none
  else if r.nwProto = protocolUDP.signExtend 16 then
    if pktIp.protocol ≠ protocolUDP then some (false, n)
    else
      match pktIp.payload with
      | .udp sourcePort destinationPort =>
        r.matchesPorts sourcePort destinationPort (some .udpSrc) (some .udpDst) (r.noteProto n)
      | _ => none
  else if r.nwProto = protocolICMP.signExtend 16 ∧ pktIp.protocol ≠ protocolICMP then some (false, n)
  else some (true, (r.noteProto n).add (r.action, .ethType))

/-- The addresses, with `rest` for what comes after them. -/
def matchesAddresses (r : FirewallRule) (pktNwSrc pktNwDst : BitVec 32)
    (pktNwSrcField pktNwDstField : OFOXMFieldType)
    (rest : NonWildcardsPair → Option (Bool × NonWildcardsPair)) (n : NonWildcardsPair) :
    Option (Bool × NonWildcardsPair) :=
  if !r.wildcardNwSrc && !matchIPAddress r.nwSrcPrefix r.nwSrcMaskbits pktNwSrc then some (false, n)
  else
    let n := n.add (r.action, pktNwSrcField)
    if !r.wildcardNwDst && !matchIPAddress r.nwDstPrefix r.nwDstMaskbits pktNwDst then
      some (false, n)
    else rest (n.add (r.action, pktNwDstField))

/-- `matchesFlow`. `none` is a `ClassCastException`. -/
def matchesFlow (r : FirewallRule) (switchDpid : BitVec 64) (inPort : BitVec 32)
    (packet : Ethernet) (n : NonWildcardsPair) : Option (Bool × NonWildcardsPair) :=
  if !r.wildcardDpid && r.dpid != switchDpid then some (false, n)
  else if !r.wildcardInPort && r.inPort.signExtend 32 != inPort then some (false, n)
  else
    let n := n.add (r.action, .inPort)
    if !r.wildcardDlSrc && r.dlSrc != packet.sourceMAC.setWidth 64 then some (false, n)
    else
      let n := n.add (r.action, .ethSrc)
      if !r.wildcardDlDst && r.dlDst != packet.destinationMAC.setWidth 64 then some (false, n)
      else
        let n := n.add (r.action, .ethDst)
        if r.wildcardDlType then some (true, n.add (r.action, .ethType))
        else if r.dlType = typeARP then
          if packet.etherType ≠ typeARP then some (false, n)
          else
            match packet.payload with
            | .arp pktArp =>
              r.matchesAddresses pktArp.senderProtocolAddress pktArp.targetProtocolAddress
                .arpSha .arpTha (fun n => some (true, n.add (r.action, .ethType)))
                (n.add (r.action, .ethType))
            | _ => none
        else if r.dlType = typeIPv4 then
          if packet.etherType ≠ typeIPv4 then some (false, n)
          else
            match packet.payload with
            | .ipv4 pktIp =>
              r.matchesAddresses pktIp.sourceAddress pktIp.destinationAddress .ipv4Src .ipv4Dst
                (fun n =>
                  if r.wildcardNwProto then some (true, n.add (r.action, .ethType))
                  else r.matchesProto pktIp n)
                (n.add (r.action, .ethType))
            | _ => none
        else some (false, n)

/-! ## The rule as a list of checks -/

/-- A check that rejects if `b` holds, with a field noted for the action. -/
def check (r : FirewallRule) (b : Bool) (f : OFOXMFieldType) :
    Check (FirewallAction × OFOXMFieldType) :=
  ⟨some !b, [(r.action, f)]⟩

def portChecks (r : FirewallRule) (pktTpSrc pktTpDst : BitVec 16)
    (pktTpSrcField pktTpDstField : OFOXMFieldType) : List (Check (FirewallAction × OFOXMFieldType)) :=
  [⟨some !((r.tpSrc != 0 && r.tpSrc != pktTpSrc) || (some pktTpDstField).isSome),
      [(r.action, .ethType), (r.action, .ipProto), (r.action, pktTpSrcField)]⟩,
    ⟨some !((r.tpDst != 0 && r.tpDst != pktTpDst) || (some pktTpDstField).isSome),
      [(r.action, .ethType), (r.action, .ipProto), (r.action, pktTpDstField)]⟩]

def protoCheck (r : FirewallRule) (b : Bool) : Check (FirewallAction × OFOXMFieldType) :=
  ⟨some !b, [(.deny, .ethType), (r.action, .ipProto)]⟩

/-- The check of a payload that is not of the class asked for. -/
def castCheck : Check (FirewallAction × OFOXMFieldType) := ⟨none, []⟩

def protoChecks (r : FirewallRule) (pktIp : Ip) : List (Check (FirewallAction × OFOXMFieldType)) :=
  if r.nwProto = protocolTCP.signExtend 16 then
    if pktIp.protocol ≠ protocolTCP then [r.protoCheck true]
    else
      match pktIp.payload with
      | .tcp sourcePort destinationPort =>
        r.protoCheck false :: r.portChecks sourcePort destinationPort .tcpSrc .tcpDst
      | _ => [castCheck]
  else if r.nwProto = protocolUDP.signExtend 16 then
    if pktIp.protocol ≠ protocolUDP then [r.protoCheck true]
    else
      match pktIp.payload with
      | .udp sourcePort destinationPort =>
        r.protoCheck false :: r.portChecks sourcePort destinationPort .udpSrc .udpDst
      | _ => [castCheck]
  else
    [r.protoCheck (decide (r.nwProto = protocolICMP.signExtend 16 ∧ pktIp.protocol ≠ protocolICMP))]

def addressChecks (r : FirewallRule) (pktNwSrc pktNwDst : BitVec 32)
    (pktNwSrcField pktNwDstField : OFOXMFieldType) :
    List (Check (FirewallAction × OFOXMFieldType)) :=
  [r.check (!r.wildcardNwSrc && !matchIPAddress r.nwSrcPrefix r.nwSrcMaskbits pktNwSrc)
      pktNwSrcField,
    r.check (!r.wildcardNwDst && !matchIPAddress r.nwDstPrefix r.nwDstMaskbits pktNwDst)
      pktNwDstField]

def typeChecks (r : FirewallRule) (packet : Ethernet) :
    List (Check (FirewallAction × OFOXMFieldType)) :=
  if r.wildcardDlType then []
  else if r.dlType = typeARP then
    if packet.etherType ≠ typeARP then [r.check true .ethType]
    else
      match packet.payload with
      | .arp pktArp =>
        r.check false .ethType :: r.addressChecks pktArp.senderProtocolAddress
          pktArp.targetProtocolAddress .arpSha .arpTha
      | _ => [castCheck]
  else if r.dlType = typeIPv4 then
    if packet.etherType ≠ typeIPv4 then [r.check true .ethType]
    else
      match packet.payload with
      | .ipv4 pktIp =>
        r.check false .ethType :: (r.addressChecks pktIp.sourceAddress pktIp.destinationAddress
          .ipv4Src .ipv4Dst ++ if r.wildcardNwProto then [] else r.protoChecks pktIp)
      | _ => [castCheck]
  else [r.check true .ethType]

def checks (r : FirewallRule) (switchDpid : BitVec 64) (inPort : BitVec 32) (packet : Ethernet) :
    List (Check (FirewallAction × OFOXMFieldType)) :=
  [⟨some !(!r.wildcardDpid && r.dpid != switchDpid), []⟩,
    r.check (!r.wildcardInPort && r.inPort.signExtend 32 != inPort) .inPort,
    r.check (!r.wildcardDlSrc && r.dlSrc != packet.sourceMAC.setWidth 64) .ethSrc,
    r.check (!r.wildcardDlDst && r.dlDst != packet.destinationMAC.setWidth 64) .ethDst] ++
  r.typeChecks packet ++ [r.check false .ethType]

theorem matchesPorts_eq (r : FirewallRule) (pktTpSrc pktTpDst : BitVec 16)
    (pktTpSrcField pktTpDstField : OFOXMFieldType) (n : NonWildcardsPair) :
    r.matchesPorts pktTpSrc pktTpDst (some pktTpSrcField) (some pktTpDstField) n =
      run .add (r.portChecks pktTpSrc pktTpDst pktTpSrcField pktTpDstField ++
        [r.check false .ethType]) n := by
  rw [portChecks, List.cons_append, run_reject, List.cons_append, run_reject]
  rfl

theorem matchesProto_eq (r : FirewallRule) (pktIp : Ip) (n : NonWildcardsPair) :
    r.matchesProto pktIp n = run .add (r.protoChecks pktIp ++ [r.check false .ethType]) n := by
  unfold matchesProto protoChecks
  split_ifs with htcp hp hudp hp hicmp
  · rfl
  · cases pktIp.payload <;> simp only [matchesPorts_eq] <;> rfl
  · rfl
  · cases pktIp.payload <;> simp only [matchesPorts_eq] <;> rfl
  · rw [decide_eq_true hicmp]
    rfl
  · rw [decide_eq_false hicmp]
    rfl

theorem matchesAddresses_eq (r : FirewallRule) (pktNwSrc pktNwDst : BitVec 32)
    (pktNwSrcField pktNwDstField : OFOXMFieldType)
    {rest : NonWildcardsPair → Option (Bool × NonWildcardsPair)}
    {l : List (Check (FirewallAction × OFOXMFieldType))} (hrest : ∀ n, rest n = run .add l n)
    (n : NonWildcardsPair) :
    r.matchesAddresses pktNwSrc pktNwDst pktNwSrcField pktNwDstField rest n =
      run .add (r.addressChecks pktNwSrc pktNwDst pktNwSrcField pktNwDstField ++ l) n := by
  rw [matchesAddresses, addressChecks, List.cons_append, check, run_reject, List.cons_append, check,
    run_reject]
  simp only [hrest]
  rfl

theorem matchesFlow_eq (r : FirewallRule) (switchDpid : BitVec 64) (inPort : BitVec 32)
    (packet : Ethernet) (n : NonWildcardsPair) :
    r.matchesFlow switchDpid inPort packet n =
      run .add (r.checks switchDpid inPort packet) n := by
  rw [checks, List.append_assoc, List.cons_append, run_reject, List.cons_append, check, run_reject,
    List.cons_append, check, run_reject, List.cons_append, check, run_reject, List.nil_append,
    matchesFlow, typeChecks]
  split_ifs with hdpid hport hsrc hdst htype harp harp' hip hip' hproto
  any_goals rfl
  · cases packet.payload with
    | arp pktArp =>
      exact r.matchesAddresses_eq _ _ _ _ (l := [r.check false .ethType]) (fun _ => rfl) _
    | ipv4 pktIp => rfl
    | data => rfl
  · cases packet.payload with
    | arp pktArp => rfl
    | ipv4 pktIp =>
      exact r.matchesAddresses_eq _ _ _ _ (l := [r.check false .ethType]) (fun _ => rfl) _
    | data => rfl
  · cases packet.payload with
    | arp pktArp => rfl
    | ipv4 pktIp =>
      exact r.matchesAddresses_eq _ _ _ _ (l := r.protoChecks pktIp ++ [r.check false .ethType])
        (r.matchesProto_eq pktIp) _
    | data => rfl

end FirewallRule

end Sdpa.Controller.Firewall
