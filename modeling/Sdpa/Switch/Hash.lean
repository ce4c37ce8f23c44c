import Sdpa.Switch.Tables

/-!
# `hash_string` of `lib/hash.h`

The hash the switch files keys under, in 32-bit arithmetic and with the words of
a little-endian host. The model of the tables takes any hash; this one is what
its concrete runs are evaluated with.
-/
namespace Sdpa.Switch

open Sdpa.Lib.Endian

def hashRot (x : BitVec 32) (k : Nat) : BitVec 32 := (x <<< k) ||| (x >>> (32 - k))

/-- `mhash_add__`. -/
def mhashAddTail (hash data : BitVec 32) : BitVec 32 :=
  hash ^^^ (hashRot (data * 0xcc9e2d51) 15 * 0x1b873593)

def mhashAdd (hash data : BitVec 32) : BitVec 32 :=
  hashRot (mhashAddTail hash data) 13 * 5 + 0xe6546b64

def mhashFinish (hash : BitVec 32) (nBytes : Nat) : BitVec 32 :=
  let hash := hash ^^^ BitVec.ofNat 32 nBytes
  let hash := (hash ^^^ (hash >>> 16)) * 0x85ebca6b
  let hash := (hash ^^^ (hash >>> 13)) * 0xc2b2ae35
  hash ^^^ (hash >>> 16)

/-- The loop of `hash_bytes`: whole words, then the up to three bytes left over,
copied into a zeroed word. -/
def hashLoop (hash : BitVec 32) : List Byte → BitVec 32
  | b0 :: b1 :: b2 :: b3 :: rest => hashLoop (mhashAdd hash (leWord 4 [b0, b1, b2, b3])) rest
  | [] => hash
  | tail => mhashAddTail hash (leWord 4 tail)

def hashBytes (bytes : List Byte) (basis : BitVec 32) : BitVec 32 :=
  mhashFinish (hashLoop basis bytes) bytes.length

/-- `hash_string(s, 0)`. -/
def hashString (key : Key) : BitVec 32 := hashBytes key 0

end Sdpa.Switch
