import Mathlib.Data.Nat.ModEq
import Mathlib.Data.List.TakeDrop
import Mathlib.Tactic.Ring

/-!
# Byte order and bounded reads

Words of a whole number of bytes as byte lists, in either order, the byte swap
between the two, and reads from a byte list at an offset. A read past the end
is `none`, never a default value. `Remaining` says what a read position has left
in front of it, so that a decoder is followed field by field.
-/
namespace Sdpa.Lib.Endian

abbrev Byte := BitVec 8

/-- The `n` low-order bytes of a natural, least significant first. -/
def leBytes : Nat → Nat → List Byte
  | 0, _ => []
  | n + 1, v => BitVec.ofNat 8 v :: leBytes n (v / 256)

/-- The natural whose bytes are listed, least significant first. -/
def leNat : List Byte → Nat
  | [] => 0
  | b :: bs => b.toNat + 256 * leNat bs

/-- The `n` low-order bytes of a natural, most significant first. -/
def beBytes (n v : Nat) : List Byte := (leBytes n v).reverse

@[simp] theorem leBytes_length (n v : Nat) : (leBytes n v).length = n := by
  induction n generalizing v with
  | zero => rfl
  | succ n ih => simp [leBytes, ih]

@[simp] theorem beBytes_length (n v : Nat) : (beBytes n v).length = n := by
  simp [beBytes]

theorem leNat_leBytes (n v : Nat) : leNat (leBytes n v) = v % 256 ^ n := by
  induction n generalizing v with
  | zero => simp [leBytes, leNat, Nat.mod_one]
  | succ n ih =>
    have hpow : 256 ^ (n + 1) = 256 * 256 ^ n := by ring
    simp only [leBytes, leNat, BitVec.toNat_ofNat, ih]
    rw [hpow, Nat.mod_mul]

theorem leNat_lt (bs : List Byte) : leNat bs < 256 ^ bs.length := by
  induction bs with
  | nil => simp [leNat]
  | cons b bs ih =>
    have hb := b.isLt
    simp only [leNat, List.length_cons, pow_succ]
    omega

theorem leBytes_leNat (bs : List Byte) : leBytes bs.length (leNat bs) = bs := by
  induction bs with
  | nil => rfl
  | cons b bs ih =>
    have hb := b.isLt
    have hdiv : (b.toNat + 256 * leNat bs) / 256 = leNat bs := by omega
    have hlow : BitVec.ofNat 8 (b.toNat + 256 * leNat bs) = b := by
      apply BitVec.eq_of_toNat_eq
      rw [BitVec.toNat_ofNat]
      omega
    simp only [leNat, List.length_cons, leBytes, hdiv, hlow, ih]

/-- A word of `n` bytes with its bytes in the opposite order. -/
def bswap (n : Nat) (w : BitVec (8 * n)) : BitVec (8 * n) :=
  BitVec.ofNat (8 * n) (leNat (beBytes n w.toNat))

/-- The word a little-endian host loads from `n` bytes. -/
def leWord (n : Nat) (bs : List Byte) : BitVec (8 * n) := BitVec.ofNat (8 * n) (leNat bs)

theorem pow_256 (n : Nat) : 256 ^ n = 2 ^ (8 * n) := by
  rw [Nat.pow_mul]

/-- Loading big-endian bytes on a little-endian host gives the swapped word. -/
theorem leWord_beBytes (n : Nat) (w : BitVec (8 * n)) :
    leWord n (beBytes n w.toNat) = bswap n w := rfl

/-- Loading the bytes of a word gives the word. -/
theorem leWord_leBytes (n : Nat) (w : BitVec (8 * n)) : leWord n (leBytes n w.toNat) = w := by
  apply BitVec.eq_of_toNat_eq
  rw [leWord, BitVec.toNat_ofNat, leNat_leBytes, pow_256, Nat.mod_mod, Nat.mod_eq_of_lt w.isLt]

theorem bswap_toNat (n : Nat) (w : BitVec (8 * n)) :
    (bswap n w).toNat = leNat (beBytes n w.toNat) := by
  have hlt := leNat_lt (beBytes n w.toNat)
  rw [beBytes_length, pow_256] at hlt
  rw [bswap, BitVec.toNat_ofNat, Nat.mod_eq_of_lt hlt]

/-- The swapped word lies in memory as the word is written in network order. -/
theorem leBytes_bswap (n : Nat) (w : BitVec (8 * n)) :
    leBytes n (bswap n w).toNat = beBytes n w.toNat := by
  have h := leBytes_leNat (beBytes n w.toNat)
  rwa [beBytes_length, ← bswap_toNat] at h

/-- Swapping a word loaded from big-endian bytes recovers the value written. -/
theorem bswap_bswap (n : Nat) (w : BitVec (8 * n)) : bswap n (bswap n w) = w := by
  apply BitVec.eq_of_toNat_eq
  rw [bswap_toNat, beBytes, leBytes_bswap, beBytes, List.reverse_reverse, leNat_leBytes, pow_256,
    Nat.mod_eq_of_lt w.isLt]

theorem bswap_injective (n : Nat) {v w : BitVec (8 * n)} (h : bswap n v = bswap n w) : v = w := by
  rw [← bswap_bswap n v, h, bswap_bswap]

theorem leBytes_and (n a b : Nat) :
    leBytes n (a &&& b) = List.zipWith (· &&& ·) (leBytes n a) (leBytes n b) := by
  induction n generalizing a b with
  | zero => rfl
  | succ n ih =>
    have hdiv : (a &&& b) / 256 = a / 256 &&& b / 256 := Nat.and_div_two_pow (n := 8)
    have hlow : BitVec.ofNat 8 (a &&& b) = BitVec.ofNat 8 a &&& BitVec.ofNat 8 b := BitVec.ofNat_and
    simp only [leBytes, List.zipWith_cons_cons, hdiv, hlow, ih]

theorem leNat_and {as bs : List Byte} (h : as.length = bs.length) :
    leNat (List.zipWith (· &&& ·) as bs) = leNat as &&& leNat bs := by
  induction as generalizing bs with
  | nil => simp [leNat]
  | cons a as ih =>
    cases bs with
    | nil => cases h
    | cons b bs =>
      have hcat (x : Byte) (y : Nat) : x.toNat + 256 * y = 2 ^ 8 * y + x.toNat := Nat.add_comm ..
      simp only [List.zipWith_cons_cons, leNat, ih (Nat.succ.inj h), hcat]
      apply Nat.eq_of_testBit_eq
      intro i
      rw [Nat.testBit_and, Nat.testBit_two_pow_mul_add _ a.isLt, Nat.testBit_two_pow_mul_add _ b.isLt,
        Nat.testBit_two_pow_mul_add _ (a &&& b).isLt]
      split <;> simp

theorem bswap_and (n : Nat) (v w : BitVec (8 * n)) : bswap n (v &&& w) = bswap n v &&& bswap n w := by
  apply BitVec.eq_of_toNat_eq
  rw [BitVec.toNat_and, bswap_toNat, bswap_toNat, bswap_toNat, BitVec.toNat_and, beBytes, leBytes_and,
    List.reverse_zipWith (by simp), leNat_and (by simp)]
  rfl

/-- The bytes at `off`, as many as asked for, or `none` past the end. -/
def slice (buf : List Byte) (off len : Nat) : Option (List Byte) :=
  if off + len ≤ buf.length then some ((buf.drop off).take len) else none

/-- `off` has exactly `rest` in front of it. -/
def Remaining (buf : List Byte) (off : Nat) (rest : List Byte) : Prop :=
  ∃ pre, buf = pre ++ rest ∧ pre.length = off

theorem remaining_start (buf : List Byte) : Remaining buf 0 buf := ⟨[], rfl, rfl⟩

theorem Remaining.length_eq {buf rest : List Byte} {off : Nat} (h : Remaining buf off rest) :
    off + rest.length = buf.length := by
  obtain ⟨pre, rfl, rfl⟩ := h
  simp

theorem Remaining.skip {buf front rest : List Byte} {off : Nat}
    (h : Remaining buf off (front ++ rest)) : Remaining buf (off + front.length) rest := by
  obtain ⟨pre, rfl, rfl⟩ := h
  exact ⟨pre ++ front, by simp, by simp⟩

/-- A read of the bytes in front of a position returns them. -/
theorem Remaining.slice {buf front rest : List Byte} {off : Nat}
    (h : Remaining buf off (front ++ rest)) :
    slice buf off front.length = some front := by
  obtain ⟨pre, rfl, rfl⟩ := h
  simp [Endian.slice]

theorem Remaining.slice_of_length {buf front rest : List Byte} {off len : Nat}
    (h : Remaining buf off (front ++ rest)) (hl : len = front.length) :
    Endian.slice buf off len = some front := by
  subst hl
  exact h.slice

end Sdpa.Lib.Endian
