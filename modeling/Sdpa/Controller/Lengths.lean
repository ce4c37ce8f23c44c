import Mathlib.Data.List.Basic
import Sdpa.Controller.Messages

/-!
# The length of a message

Every partial sum of a length is a `short`, with one that is an `int`. All of them
are the number of bytes written modulo 2^16, and so is the length in the header.
-/
namespace Sdpa.Controller

open Sdpa.Lib.Endian

/-- The length in the header of a message, as an unsigned number. -/
def lengthField (bytes : List Byte) : Nat := leNat ((bytes.drop 2).take 2).reverse

/-! ## Entries -/

theorem setWidth_signExtend (x : BitVec 16) : (x.signExtend 32).setWidth 16 = x := by
  refine BitVec.eq_of_getLsbD_eq fun i hi => ?_
  simp [BitVec.getLsbD_signExtend, hi]
  omega

theorem setWidth_ofNat (n : Nat) : (BitVec.ofNat 32 n).setWidth 16 = BitVec.ofNat 16 n :=
  BitVec.setWidth_ofNat_of_le (by decide) n

theorem STDATA.getByteLength_eq (d : STDATA) :
    d.getByteLength = BitVec.ofNat 16 d.writeTo.length := by
  rw [getByteLength, d.len_eq, BitVec.setWidth_add _ _ (by decide), setWidth_ofNat]
  simp only [writeTo, List.length_append, putInt_length]
  rw [← Nat.add_assoc, BitVec.ofNat_add]
  rfl

theorem STTDATA.getByteLength_eq (d : STTDATA) :
    d.getByteLength = BitVec.ofNat 16 d.writeTo.length := by
  simp [getByteLength, writeTo]

theorem ATDATA.getByteLength_eq (d : ATDATA) :
    d.getByteLength = BitVec.ofNat 16 d.writeTo.length := by
  rw [getByteLength, d.len_eq, BitVec.setWidth_add _ _ (by decide), setWidth_ofNat]
  simp only [writeTo, SFAAction.writeTo, List.length_append, putInt_length]
  rw [← Nat.add_assoc, ← Nat.add_assoc, BitVec.ofNat_add]
  rfl

/-! ## Sums -/

/-- A sum in a `short`. -/
theorem foldl_eq {Entry : Type} {write : Entry → List Byte} {byteLength : Entry → BitVec 16}
    (h : ∀ d, byteLength d = BitVec.ofNat 16 (write d).length) (l : List Entry) (n : Nat) :
    l.foldl (fun len tmp => len + byteLength tmp) (BitVec.ofNat 16 n) =
      BitVec.ofNat 16 (n + (l.flatMap write).length) := by
  induction l generalizing n with
  | nil => rfl
  | cons d l ih =>
    rw [List.foldl_cons, h, ← BitVec.ofNat_add, ih, List.flatMap_cons, List.length_append,
      Nat.add_assoc]

/-- A sum in an `int` of what are `short`s. -/
theorem setWidth_foldl {Entry : Type} (byteLength : Entry → BitVec 16) (l : List Entry)
    (len : BitVec 32) :
    (l.foldl (fun len tmp => len + (byteLength tmp).signExtend 32) len).setWidth 16 =
      l.foldl (fun len tmp => len + byteLength tmp) (len.setWidth 16) := by
  induction l generalizing len with
  | nil => rfl
  | cons d l ih =>
    rw [List.foldl_cons, ih, BitVec.setWidth_add _ _ (by decide), setWidth_signExtend,
      List.foldl_cons]

theorem SFASt.getByteLength_eq (s : SFASt) :
    s.getByteLength = BitVec.ofNat 16 s.writeTo.length := by
  have hsum := foldl_eq STDATA.getByteLength_eq s.stdatas 0
  have hlen : s.writeTo.length = 0 + (s.stdatas.flatMap STDATA.writeTo).length + (4 + 8 + 4) := by
    simp only [writeTo, List.length_append, putInt_length, putLong_length]
    omega
  rw [getByteLength, hlen, BitVec.ofNat_add, ← hsum]
  rfl

theorem SFAStt.getByteLength_eq (s : SFAStt) :
    s.getByteLength = BitVec.ofNat 16 s.writeTo.length := by
  have hsum := foldl_eq STTDATA.getByteLength_eq s.sttdatas 0
  have hlen : s.writeTo.length = 0 + (s.sttdatas.flatMap STTDATA.writeTo).length + 4 := by
    simp only [writeTo, List.length_append, putInt_length]
    omega
  rw [getByteLength, hlen, BitVec.ofNat_add, ← hsum]
  rfl

theorem SFAAt.getByteLength_eq (s : SFAAt) :
    s.getByteLength.setWidth 16 = BitVec.ofNat 16 s.writeTo.length := by
  have hsum := foldl_eq ATDATA.getByteLength_eq s.atdatas 0
  have hlen : s.writeTo.length = 0 + (s.atdatas.flatMap ATDATA.writeTo).length + (4 + 8) := by
    simp only [writeTo, List.length_append, putInt_length, putLong_length]
    omega
  rw [getByteLength, BitVec.setWidth_add _ _ (by decide), setWidth_foldl, hlen, BitVec.ofNat_add,
    ← hsum]
  rfl

/-! ## Messages -/

theorem lengthField_writeTo (header : OFMessage) (type : BitVec 8) (length : BitVec 16)
    (rest : List Byte) : lengthField (header.writeTo type length ++ rest) = length.toNat := by
  have htake : ((header.writeTo type length ++ rest).drop 2).take 2 = putShort length := by
    simp [OFMessage.writeTo]
  rw [lengthField, htake, putShort, beBytes, List.reverse_reverse, leNat_leBytes]
  exact Nat.mod_eq_of_lt length.isLt

theorem SFACreate.writeTo_eq {m : SFACreate} {bytes : List Byte} (h : m.writeTo = .ok bytes) :
    ∃ rest, bytes = m.header.writeTo 90 (BitVec.ofNat 16 bytes.length) ++ rest := by
  unfold writeTo computeLength at h
  split at h
  · rename_i st stt tbl _ _ _
    cases h
    refine ⟨st.writeTo ++ (stt.writeTo ++ tbl.writeTo), ?_⟩
    congr 2
    simp only [BitVec.setWidth_add _ _ (show 16 ≤ 32 by decide), setWidth_signExtend,
      st.getByteLength_eq, stt.getByteLength_eq, tbl.getByteLength_eq, List.length_append,
      OFMessage.writeTo_length]
    rw [Nat.add_comm 8, BitVec.ofNat_add, BitVec.ofNat_add, BitVec.ofNat_add, ← BitVec.add_assoc]
    rfl
  · cases h

namespace ModMessage

variable {Entry : Type} {byteLength : Entry → BitVec 16} {write : Entry → List Byte}

theorem computeLength_eq (h : ∀ d, byteLength d = BitVec.ofNat 16 (write d).length)
    (m : ModMessage Entry) (type : BitVec 8) :
    m.computeLength byteLength = BitVec.ofNat 16 (m.writeTo type byteLength write).length := by
  have hitem : ∀ d : SFAModType × Entry,
      4 + byteLength d.2 = BitVec.ofNat 16 (writeItem write d).length := by
    intro d
    rw [h, writeItem, List.length_append, putInt_length, BitVec.ofNat_add]
    rfl
  have hsum := foldl_eq hitem m.datas 0
  have hlen : (m.writeTo type byteLength write).length =
      0 + (m.datas.flatMap (writeItem write)).length + (4 + 4 + 8) := by
    simp only [writeTo, List.length_append, OFMessage.writeTo_length, putInt_length]
    omega
  rw [computeLength, hlen, BitVec.ofNat_add, ← hsum]
  simp only [BitVec.add_assoc]
  rfl

theorem writeTo_eq (h : ∀ d, byteLength d = BitVec.ofNat 16 (write d).length)
    (m : ModMessage Entry) (type : BitVec 8) :
    ∃ rest, m.writeTo type byteLength write =
      m.header.writeTo type (BitVec.ofNat 16 (m.writeTo type byteLength write).length) ++ rest := by
  rw [← computeLength_eq h m type]
  exact ⟨_, rfl⟩

end ModMessage

/-- The messages that are sent to the switch. -/
inductive SFAMessage
  | create (m : SFACreate)
  | stMod (m : SFAStMod)
  | atMod (m : SFAAtMod)

def SFAMessage.writeTo : SFAMessage → Except RuntimeException (List Byte)
  | .create m => m.writeTo
  | .stMod m => .ok m.writeTo
  | .atMod m => .ok m.writeTo

theorem SFAMessage.writeTo_eq {m : SFAMessage} {bytes : List Byte} (h : m.writeTo = .ok bytes) :
    ∃ header type rest,
      bytes = OFMessage.writeTo header type (BitVec.ofNat 16 bytes.length) ++ rest := by
  cases m with
  | create m =>
    obtain ⟨rest, hbytes⟩ := SFACreate.writeTo_eq h
    exact ⟨m.header, 90, rest, hbytes⟩
  | stMod m =>
    cases h
    obtain ⟨rest, hbytes⟩ := ModMessage.writeTo_eq STDATA.getByteLength_eq m 91
    exact ⟨m.header, 91, rest, hbytes⟩
  | atMod m =>
    cases h
    obtain ⟨rest, hbytes⟩ := ModMessage.writeTo_eq ATDATA.getByteLength_eq m 92
    exact ⟨m.header, 92, rest, hbytes⟩

/-- The length in the header is the number of bytes written. -/
theorem lengthField_eq_length {m : SFAMessage} {bytes : List Byte} (h : m.writeTo = .ok bytes)
    (hlen : bytes.length < 65536) : lengthField bytes = bytes.length := by
  obtain ⟨header, type, rest, hbytes⟩ := SFAMessage.writeTo_eq h
  rw [hbytes, lengthField_writeTo, ← hbytes, BitVec.toNat_ofNat, Nat.mod_eq_of_lt hlen]

theorem length_one_entry (s : List Byte) :
    (SFAStMod.ofCalls {} 1 [(.add, STDATA.new 0 s)]).writeTo.length = 28 + s.length := by
  simp [SFAStMod.writeTo, ModMessage.writeTo, SFAStMod.ofCalls_datas, ModMessage.writeItem,
    STDATA.writeTo, STDATA.new]
  omega

/-- An entry for which the partial sums in a `short` are negative. -/
theorem lengthField_long_entry :
    lengthField (SFAStMod.ofCalls {} 1 [(.add, STDATA.new 0 (List.replicate 40000 0))]).writeTo =
      40028 := by
  have hlen := length_one_entry (List.replicate 40000 0)
  rw [List.length_replicate] at hlen
  rw [lengthField_eq_length (m := .stMod (SFAStMod.ofCalls {} 1 [(.add, STDATA.new 0 _)])) rfl
    (by rw [hlen]; decide), hlen]

end Sdpa.Controller
