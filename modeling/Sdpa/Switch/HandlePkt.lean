import Sdpa.Switch.Decode

/-!
# `sfa_handle_pkt` of `ofproto/sfa.c`

Every OpenFlow message passes here first. The type byte of the header selects the
handler. Nothing else of the header is looked at, and neither is the connection
that the message came in on.
-/
namespace Sdpa.Switch

open Sdpa.Lib.Endian

variable {hash : Key → BitVec 32}

/-- `enum sfatype`. -/
def ofptypeSfaTableCreate : Byte := 90
def ofptypeSfaStEntryMod : Byte := 91
def ofptypeSfaAtEntryMod : Byte := 92

/-- 0 for a message that was handled, -1 for one that goes on to the OpenFlow handlers. -/
def SfaErr.returned : SfaErr → Int
  | .ok => 0
  | .error => -1

/-- What is returned, and the apps after the message. -/
def sfaHandlePkt (msg : List Byte) (g : GApps hash) : Except Fault (Int × GApps hash) :=
  match msg[1]? with
  | none => .error .readOutside
  | some type =>
    if type = ofptypeSfaTableCreate then
      (sfaMsgInit msg g).map fun r => (r.1.returned, r.2.1)
    else if type = ofptypeSfaStEntryMod then
      (sfaMsgStMod msg g).map fun r => (r.1.returned, r.2.1)
    else if type = ofptypeSfaAtEntryMod then
      (sfaMsgAtMod msg g).map fun r => (r.1.returned, r.2.1)
    else .ok (-1, g)

end Sdpa.Switch
