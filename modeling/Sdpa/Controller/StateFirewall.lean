import Mathlib.Data.List.Sort
import Sdpa.Controller.FirewallRule
import Sdpa.Controller.SfaUtil

/-!
# The rules of `StateFirewall`

The rule list and the table that it is kept in: `addRule`, `deleteRule` and the
search of a rule for a packet, `matchWithRule`. A row of the table has a text for
each column.
-/
namespace Sdpa.Controller.Firewall

open Lib.Endian

namespace FirewallAction

def ordinal : FirewallAction → BitVec 32
  | .deny => 0
  | .allow => 1

end FirewallAction

namespace FirewallRule

/-- `Boolean.hashCode`. -/
def booleanHash (b : Bool) : BitVec 32 := if b then 1231 else 1237

/-- `hashCode`, from the one that `Object` has for the rule. -/
def hashCode (objectHash : BitVec 32) (r : FirewallRule) : BitVec 32 :=
  [r.dpid.setWidth 32, r.inPort.signExtend 32, r.dlSrc.setWidth 32, r.dlDst.setWidth 32,
    r.dlType.signExtend 32, r.nwSrcPrefix, r.nwSrcMaskbits, r.nwDstPrefix, r.nwDstMaskbits,
    r.nwProto.signExtend 32, r.tpSrc.signExtend 32, r.tpDst.signExtend 32, r.action.ordinal,
    r.priority, booleanHash r.wildcardDpid, booleanHash r.wildcardInPort,
    booleanHash r.wildcardDlSrc, booleanHash r.wildcardDlDst, booleanHash r.wildcardDlType,
    booleanHash r.wildcardNwSrc, booleanHash r.wildcardNwDst, booleanHash r.wildcardNwProto,
    booleanHash r.wildcardTpSrc, booleanHash r.wildcardTpDst].foldl
    (fun result x => 2521 * result + x) objectHash

def genID (objectHash : BitVec 32) (r : FirewallRule) : BitVec 32 :=
  let uid := r.hashCode objectHash
  if uid.slt 0 then uid.abs * 15551 else uid

end FirewallRule

inductive Column
  | ruleid
  | dpid
  | inPort
  | dlSrc
  | dlDst
  | dlType
  | nwSrcPrefix
  | nwSrcMaskbits
  | nwDstPrefix
  | nwDstMaskbits
  | nwProto
  | tpSrc
  | tpDst
  | wildcardDpid
  | wildcardInPort
  | wildcardDlSrc
  | wildcardDlDst
  | wildcardDlType
  | wildcardNwSrc
  | wildcardNwDst
  | wildcardNwProto
  | wildcardTpSrc
  | wildcardTpDst
  | priority
  | action
  deriving DecidableEq

/-- A row of a table: the columns that it has, with their texts. -/
abbrev Row := Column → Option (List Byte)

/-- `Boolean.toString`. -/
def booleanText (b : Bool) : List Byte :=
  if b then [116, 114, 117, 101] else [102, 97, 108, 115, 101]

/-- The row that `addRule` makes. -/
def FirewallRule.entry (r : FirewallRule) : Row
  | .ruleid => some (valueOf r.ruleid)
  | .dpid => some (valueOf r.dpid)
  | .inPort => some (valueOf r.inPort)
  | .dlSrc => some (valueOf r.dlSrc)
  | .dlDst => some (valueOf r.dlDst)
  | .dlType => some (valueOf r.dlType)
  | .nwSrcPrefix => some (valueOf r.nwSrcPrefix)
  | .nwSrcMaskbits => some (valueOf r.nwSrcMaskbits)
  | .nwDstPrefix => some (valueOf r.nwDstPrefix)
  | .nwDstMaskbits => some (valueOf r.nwDstMaskbits)
  | .nwProto => some (valueOf r.nwProto)
  | .tpSrc => some (valueOf r.tpSrc)
  | .tpDst => some (valueOf r.tpDst)
  | .wildcardDpid => some (booleanText r.wildcardDpid)
  | .wildcardInPort => some (booleanText r.wildcardInPort)
  | .wildcardDlSrc => some (booleanText r.wildcardDlSrc)
  | .wildcardDlDst => some (booleanText r.wildcardDlDst)
  | .wildcardDlType => some (booleanText r.wildcardDlType)
  | .wildcardNwSrc => some (booleanText r.wildcardNwSrc)
  | .wildcardNwDst => some (booleanText r.wildcardNwDst)
  | .wildcardNwProto => some (booleanText r.wildcardNwProto)
  | .wildcardTpSrc => some (booleanText r.wildcardTpSrc)
  | .wildcardTpDst => some (booleanText r.wildcardTpDst)
  | .priority => some (valueOf r.priority)
  | .action => some (valueOf r.action.ordinal)

/-- The rule list, and the rows of the table that have been inserted and not deleted. -/
structure StateFirewall where
  rules : List FirewallRule := []
  storage : List Row := []

namespace StateFirewall

/-- `rules.add(i, rule)`, with the position that the loop stops at. -/
def insertRule (rules : List FirewallRule) (rule : FirewallRule) : List FirewallRule :=
  rules.insertIdx (rules.findIdx fun x => rule.priority.sle x.priority) rule

/-- The rule with the id that it is given. -/
def identified (objectHash : BitVec 32) (rule : FirewallRule) : FirewallRule :=
  { rule with ruleid := rule.genID objectHash }

def addRule (objectHash : BitVec 32) (rule : FirewallRule) (s : StateFirewall) : StateFirewall :=
  let rule := identified objectHash rule
  { rules := insertRule s.rules rule, storage := s.storage ++ [rule.entry] }

/-- The list loses its first rule with the id, the table all rows with it. -/
def deleteRule (ruleid : BitVec 32) (s : StateFirewall) : StateFirewall where
  rules := s.rules.eraseP fun r => r.ruleid == ruleid
  storage := s.storage.filter fun row => row .ruleid != some (valueOf ruleid)

/-- The loop of `matchWithRule`. `none` is an exception. -/
def firstMatch (switchDpid : BitVec 64) (inPort : BitVec 32) (eth : Ethernet) :
    List FirewallRule → NonWildcardsPair → Option (Option FirewallRule × NonWildcardsPair)
  | [], n => some (none, n)
  | rule :: rules, n =>
    match rule.matchesFlow switchDpid inPort eth n with
    | none => none
    | some (true, n) => some (some rule, n)
    | some (false, n) => firstMatch switchDpid inPort eth rules n

structure RuleWildcardsPair where
  rule : Option FirewallRule
  nonWildcards : Finset OFOXMFieldType

/-- The fields of dropped packets go with a rule that denies and with no rule. -/
def matchWithRule (rules : List FirewallRule) (switchDpid : BitVec 64) (inPort : BitVec 32)
    (eth : Ethernet) : Option RuleWildcardsPair :=
  (firstMatch switchDpid inPort eth rules {}).map fun x =>
    { rule := x.1
      nonWildcards :=
        match x.1 with
        | none => x.2.drop
        | some rule => if rule.action = .deny then x.2.drop else x.2.allow }

/-- A call of the rule service. -/
inductive Call
  | addRule (objectHash : BitVec 32) (rule : FirewallRule)
  | deleteRule (ruleid : BitVec 32)

def call (s : StateFirewall) : Call → StateFirewall
  | .addRule objectHash rule => s.addRule objectHash rule
  | .deleteRule ruleid => s.deleteRule ruleid

def run (calls : List Call) : StateFirewall := calls.foldl call {}

end StateFirewall

end Sdpa.Controller.Firewall
