import Sdpa.Controller.StateFirewall
import Sdpa.Lib.Comparator

/-!
# Reading the rules back: `readRulesFromStorage`

At start-up the rows of the table are parsed into rules, and the rules are sorted.
The query names its columns in `ColumnNames`. The storage returns them in no
particular order.
-/
namespace Sdpa.Controller.Firewall

open Lib.Endian
open Lib.Decimal

/-! ## Texts -/

/-- `Integer.parseInt`, `Long.parseLong` and `Short.parseShort`. `none` is a
`NumberFormatException`. -/
def parseInt (w : Nat) (text : List Byte) : Option (BitVec w) :=
  (readInt text).bind fun i =>
    if -2 ^ (w - 1) ≤ i ∧ i < 2 ^ (w - 1) then some (BitVec.ofInt w i) else none

def lowerCase (b : Byte) : Byte := if 65 ≤ b.toNat ∧ b.toNat ≤ 90 then b + 32 else b

/-- `Boolean.parseBoolean`. -/
def parseBoolean (text : List Byte) : Bool := text.map lowerCase == [116, 114, 117, 101]

theorem parseInt_valueOf {w : Nat} (v : BitVec w) : parseInt w (valueOf v) = some v := by
  have hlow := BitVec.le_toInt v
  have hhigh := BitVec.toInt_lt (x := v)
  rw [parseInt, valueOf, readInt_intDecimal, Option.bind_some, if_pos ⟨hlow, hhigh⟩,
    BitVec.ofInt_toInt]

theorem parseBoolean_booleanText (b : Bool) : parseBoolean (booleanText b) = b := by
  cases b <;> decide

/-! ## Rows -/

/-- `ColumnNames`. -/
def columnNames : List Column :=
  [.ruleid, .dpid, .inPort, .dlSrc, .dlDst, .dlType, .nwSrcPrefix, .nwSrcMaskbits, .nwDstPrefix,
    .nwDstMaskbits, .nwProto, .tpSrc, .tpDst, .wildcardDpid, .wildcardInPort, .wildcardDlSrc,
    .wildcardDlDst, .wildcardDlType, .wildcardNwSrc, .wildcardNwDst, .wildcardNwProto, .priority,
    .action]

/-- The row of a query result: the columns asked for. -/
def queried (row : Row) : Row := fun c => if c ∈ columnNames then row c else none

/-- A column that is parsed if the row has it. -/
def readColumn {α : Type} (row : Row) (c : Column) (parse : List Byte → Option α) (default : α) :
    Option α :=
  match row c with
  | none => some default
  | some text => parse text

/-- An action that is not recognized is null. -/
def readAction (text : List Byte) : Option (Option FirewallAction) :=
  (parseInt 32 text).map fun tmp =>
    if tmp = FirewallAction.ordinal .deny then some .deny
    else if tmp = FirewallAction.ordinal .allow then some .allow
    else none

/-- The rule that a row is parsed into. It has no columns for `wildcard_tp_src` and
`wildcard_tp_dst`. `some none` is a rule whose action is null. -/
def readRow (row : Row) : Option (Option FirewallRule) := do
  let initial : FirewallRule := {}
  let ruleid ← readColumn row .ruleid (parseInt 32) initial.ruleid
  let dpid ← readColumn row .dpid (parseInt 64) initial.dpid
  let inPort ← readColumn row .inPort (parseInt 16) initial.inPort
  let dlSrc ← readColumn row .dlSrc (parseInt 64) initial.dlSrc
  let dlDst ← readColumn row .dlDst (parseInt 64) initial.dlDst
  let dlType ← readColumn row .dlType (parseInt 16) initial.dlType
  let nwSrcPrefix ← readColumn row .nwSrcPrefix (parseInt 32) initial.nwSrcPrefix
  let nwSrcMaskbits ← readColumn row .nwSrcMaskbits (parseInt 32) initial.nwSrcMaskbits
  let nwDstPrefix ← readColumn row .nwDstPrefix (parseInt 32) initial.nwDstPrefix
  let nwDstMaskbits ← readColumn row .nwDstMaskbits (parseInt 32) initial.nwDstMaskbits
  let nwProto ← readColumn row .nwProto (parseInt 16) initial.nwProto
  let tpSrc ← readColumn row .tpSrc (parseInt 16) initial.tpSrc
  let tpDst ← readColumn row .tpDst (parseInt 16) initial.tpDst
  let flag := fun c default => readColumn row c (fun text => some (parseBoolean text)) default
  let wildcardDpid ← flag .wildcardDpid initial.wildcardDpid
  let wildcardInPort ← flag .wildcardInPort initial.wildcardInPort
  let wildcardDlSrc ← flag .wildcardDlSrc initial.wildcardDlSrc
  let wildcardDlDst ← flag .wildcardDlDst initial.wildcardDlDst
  let wildcardDlType ← flag .wildcardDlType initial.wildcardDlType
  let wildcardNwSrc ← flag .wildcardNwSrc initial.wildcardNwSrc
  let wildcardNwDst ← flag .wildcardNwDst initial.wildcardNwDst
  let wildcardNwProto ← flag .wildcardNwProto initial.wildcardNwProto
  let priority ← readColumn row .priority (parseInt 32) initial.priority
  let action ← readColumn row .action readAction (some initial.action)
  return action.map fun action =>
    { initial with
      ruleid, dpid, inPort, dlSrc, dlDst, dlType, nwSrcPrefix, nwSrcMaskbits, nwDstPrefix,
      nwDstMaskbits, nwProto, tpSrc, tpDst, wildcardDpid, wildcardInPort, wildcardDlSrc,
      wildcardDlDst, wildcardDlType, wildcardNwSrc, wildcardNwDst, wildcardNwProto, priority,
      action }

/-- The loop over the rows. The list is returned as it is, without a sort, at a row without one
of the required columns. -/
def readRows : List Row → List FirewallRule → Option (Bool × List FirewallRule)
  | [], l => some (true, l)
  | row :: rows, l =>
    if row .ruleid = none ∨ row .dpid = none then some (false, l)
    else (readRow row).bind fun r => readRows rows (l ++ r.toList)

/-- `compareTo`. -/
def compareTo (a b : FirewallRule) : Int := (a.priority - b.priority).toInt

/-- `readRulesFromStorage`, with the rows that the query returns and `Collections.sort`. -/
def readRulesFromStorage (sort : List FirewallRule → Option (List FirewallRule)) (rows : List Row) :
    Option (List FirewallRule) :=
  (readRows rows []).bind fun x => if x.1 then sort x.2 else some x.2

/-! ## A rule that has been stored -/

/-- The rule as it is read back. -/
def FirewallRule.restored (r : FirewallRule) : FirewallRule :=
  { r with wildcardTpSrc := true, wildcardTpDst := true }

theorem FirewallRule.restored_eq_self {r : FirewallRule} (hsrc : r.wildcardTpSrc = true)
    (hdst : r.wildcardTpDst = true) : r.restored = r := by
  cases r
  cases hsrc
  cases hdst
  rfl

theorem readAction_ordinal (a : FirewallAction) : readAction (valueOf a.ordinal) = some (some a) := by
  rw [readAction, parseInt_valueOf]
  cases a <;> rfl

theorem readRow_entry (r : FirewallRule) : readRow (queried r.entry) = some (some r.restored) := by
  simp [readRow, readColumn, queried, columnNames, FirewallRule.entry, parseInt_valueOf,
    parseBoolean_booleanText, readAction_ordinal, FirewallRule.restored]

theorem readRows_entries (rules l : List FirewallRule) :
    readRows (rules.map fun r => queried r.entry) l =
      some (true, l ++ rules.map FirewallRule.restored) := by
  induction rules generalizing l with
  | nil => simp [readRows]
  | cons r rules ih =>
    have hkeys : ¬ (queried r.entry .ruleid = none ∨ queried r.entry .dpid = none) := by
      simp [queried, columnNames, FirewallRule.entry]
    rw [List.map_cons, readRows, if_neg hkeys, readRow_entry, Option.bind_some, ih]
    simp

end Sdpa.Controller.Firewall
