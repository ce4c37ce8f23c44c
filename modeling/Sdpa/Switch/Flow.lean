import Sdpa.Lib.Endian
import Mathlib.Logic.Function.Basic

/-!
# `struct flow` of `lib/flow.h`

A flow assigns to every field the value that a little-endian host loads from it.
Fields in network byte order therefore hold the byte-swapped number. Masks have
the same type, which lets them be compared with flows field by field.
-/
namespace Sdpa.Switch

open Sdpa.Lib.Endian

inductive FlowField
  | tunId | tunSrc | tunDst | tunFlags | tunTos | tunTtl
  | metadata | reg (i : Fin 8) | skbPriority | pktMark | inPort
  | dlSrc | dlDst | dlType | vlanTci
  | mplsLse | ipv6Src | ipv6Dst | ndTarget | ipv6Label | nwSrc | nwDst
  | nwFrag | nwTos | nwTtl | nwProto | arpSha | arpTha | tcpFlags
  | tpSrc | tpDst
  deriving DecidableEq

/-- The size of a field in bits. The input port is the 16-bit OpenFlow number. -/
@[reducible] def FlowField.width : FlowField → Nat
  | .tunId | .metadata => 64
  | .tunSrc | .tunDst | .reg _ | .skbPriority | .pktMark => 32
  | .mplsLse | .ipv6Label | .nwSrc | .nwDst => 32
  | .ipv6Src | .ipv6Dst | .ndTarget => 128
  | .dlSrc | .dlDst | .arpSha | .arpTha => 48
  | .tunFlags | .inPort | .dlType | .vlanTci | .tcpFlags | .tpSrc | .tpDst => 16
  | .tunTos | .tunTtl | .nwFrag | .nwTos | .nwTtl | .nwProto => 8

abbrev Flow := (f : FlowField) → BitVec f.width

def Flow.set (fl : Flow) (f : FlowField) (v : BitVec f.width) : Flow := Function.update fl f v

@[simp] theorem Flow.set_self (fl : Flow) (f : FlowField) (v : BitVec f.width) :
    fl.set f v f = v := by
  simp [Flow.set]

theorem Flow.set_of_ne (fl : Flow) {f f' : FlowField} (v : BitVec f.width) (h : f' ≠ f) :
    fl.set f v f' = fl f' := by
  simp [Flow.set, h]

def htons (v : BitVec 16) : BitVec 16 := bswap 2 v

def htonl (v : BitVec 32) : BitVec 32 := bswap 4 v

/-- The port number that an OpenFlow 1.3 message carries for a 16-bit one. Reserved
ports are moved to the top of the 32-bit range. -/
def ofputilPortToOfp11 (port : BitVec 16) : BitVec 32 :=
  if port.toNat < 0xff00 then port.setWidth 32 else port.setWidth 32 + 0xffff0000

end Sdpa.Switch
