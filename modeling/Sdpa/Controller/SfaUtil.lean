import Sdpa.Lib.Decimal

/-!
# Flow keys on the controller: `SFAUtil`

The two `DirectionDataFromPktIn` functions walk the bitmap and append the text of
each selected field of a packet-in. They read the same fields and differ in which
end of the connection counts as the source. Text is kept as its ASCII bytes.
-/
namespace Sdpa.Controller

open Sdpa.Lib.Endian
open Sdpa.Lib.Decimal

inductive IPv4Payload
  | tcp (sourcePort destinationPort : BitVec 16)
  | udp (sourcePort destinationPort : BitVec 16)
  | other
  deriving DecidableEq

structure IPv4 where
  sourceAddress : BitVec 32
  destinationAddress : BitVec 32
  payload : IPv4Payload
  deriving DecidableEq

structure Ethernet where
  sourceMAC : BitVec 48
  destinationMAC : BitVec 48
  etherType : BitVec 16
  /-- `none` is any payload that is not an `IPv4` object. -/
  payload : Option IPv4
  deriving DecidableEq

/-- `IPv4.fromIPv4Address`. -/
def fromIPv4Address (addr : BitVec 32) : List Byte := dotted (beBytes 4 addr.toNat)

def hexDigit (d : Nat) : Byte := if d < 10 then BitVec.ofNat 8 (48 + d) else BitVec.ofNat 8 (55 + d)

/-- `MACAddress.toString`: two upper-case digits a byte, colons between. -/
def macToString (mac : BitVec 48) : List Byte :=
  [58].intercalate ((beBytes 6 mac.toNat).map fun b => [hexDigit (b.toNat / 16), hexDigit (b.toNat % 16)])

/-- `String.valueOf` of an `int` or a `short`. -/
def valueOf {w : Nat} (v : BitVec w) : List Byte := intDecimal v.toInt

/-- `(bitmap & (1 << i)) != 0`. The shift is that of an `int`, which takes the
count modulo 32, and the result is sign-extended. -/
def bitSet (bitmap : BitVec 64) (i : Nat) : Bool :=
  (bitmap &&& ((1 : BitVec 32) <<< (i % 32)).signExtend 64) != 0

/-- The values a direction reads, source first. -/
structure Direction where
  srcMAC : BitVec 48
  dstMAC : BitVec 48
  addresses : Option (BitVec 32 × BitVec 32)
  ports : Option (BitVec 16 × BitVec 16)

def tcpPorts (eth : Ethernet) : Option (BitVec 16 × BitVec 16) :=
  match eth.payload with
  | some ⟨_, _, .tcp s d⟩ => some (s, d)
  | _ => none

def forward (eth : Ethernet) : Direction where
  srcMAC := eth.sourceMAC
  dstMAC := eth.destinationMAC
  addresses := eth.payload.map fun ip => (ip.sourceAddress, ip.destinationAddress)
  ports := tcpPorts eth

def backward (eth : Ethernet) : Direction where
  srcMAC := eth.destinationMAC
  dstMAC := eth.sourceMAC
  addresses := eth.payload.map fun ip => (ip.destinationAddress, ip.sourceAddress)
  ports := (tcpPorts eth).map Prod.swap

/-- The `switch`: what is appended for bit `i`. -/
def directionField (inPort : BitVec 32) (etherType : BitVec 16) (d : Direction) (i : Nat) :
    List Byte :=
  match i with
  | 5 => valueOf inPort
  | 6 => macToString d.srcMAC
  | 7 => macToString d.dstMAC
  | 8 => valueOf etherType
  | 15 => (d.addresses.map fun a => fromIPv4Address a.1).getD []
  | 16 => (d.addresses.map fun a => fromIPv4Address a.2).getD []
  | 25 => (d.ports.map fun p => valueOf p.1).getD []
  | 26 => (d.ports.map fun p => valueOf p.2).getD []
  | _ => []

def directionData (bitmap : BitVec 64) (inPort : BitVec 32) (etherType : BitVec 16)
    (d : Direction) : List Byte :=
  (List.range 64).flatMap fun i =>
    if bitSet bitmap i then directionField inPort etherType d i else []

def getFDirectionDataFromPktIn (bitmap : BitVec 64) (inPort : BitVec 32) (eth : Ethernet) :
    List Byte :=
  directionData bitmap inPort eth.etherType (forward eth)

/-- The input port is that of the packet-in here as well. -/
def getBDirectionDataFromPktIn (bitmap : BitVec 64) (inPort : BitVec 32) (eth : Ethernet) :
    List Byte :=
  directionData bitmap inPort eth.etherType (backward eth)

theorem bitSet_eq_getLsbD (bitmap : BitVec 64) {i : Nat} (h : i < 31) :
    bitSet bitmap i = bitmap.getLsbD i := by
  have hpow : ∀ j : Fin 31, ((1 : BitVec 32) <<< (j.val % 32)).signExtend 64 =
      BitVec.twoPow 64 j.val ∧ BitVec.twoPow 64 j.val ≠ 0 := by decide
  obtain ⟨heq, hne⟩ := hpow ⟨i, h⟩
  rw [bitSet, heq, BitVec.and_twoPow]
  cases bitmap.getLsbD i with
  | true => simpa using hne
  | false => rfl

end Sdpa.Controller
