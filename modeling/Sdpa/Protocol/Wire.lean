import Mathlib.Data.List.TakeWhile
import Mathlib.Algebra.BigOperators.Group.List.Basic
import Sdpa.Controller.Messages
import Sdpa.Switch.Decode

/-!
# Reading what the controller wrote

The fields the Java writers put and the C handlers load, one at a time. Each
lemma takes the bytes in front of the cursor, gives the value loaded there and
leaves the cursor behind the field.
-/
namespace Sdpa.Protocol

open Sdpa.Lib.Endian
open Sdpa.Controller
open Sdpa.Switch

variable {msg rest : List Byte} {off : Nat}

/-- A type word that is not swapped back arrives with its bytes reversed. -/
theorem load32_putInt {w : BitVec 32} (h : Remaining msg off (putInt w ++ rest)) :
    load32 msg off = .ok (bswap 4 w) := by
  have hs : slice msg off 4 = some (putInt w) := h.slice_of_length (putInt_length w).symm
  rw [load32, hs]
  rfl

theorem net32_putInt {w : BitVec 32} (h : Remaining msg off (putInt w ++ rest)) :
    net32 msg off = .ok w := by
  rw [net32, load32_putInt h]
  change Except.ok (bswap 4 (bswap 4 w)) = _
  rw [bswap_bswap 4 w]

theorem net64_putLong {w : BitVec 64} (h : Remaining msg off (putLong w ++ rest)) :
    net64 msg off = .ok w := by
  have hs : slice msg off 8 = some (putLong w) := h.slice_of_length (putLong_length w).symm
  rw [net64, load64, hs]
  change Except.ok (bswap 8 (bswap 8 w)) = _
  rw [bswap_bswap 8 w]

theorem remaining_int {w : BitVec 32} (h : Remaining msg off (putInt w ++ rest)) :
    Remaining msg (off + 4) rest := by
  have hs := h.skip
  rwa [putInt_length] at hs

theorem remaining_long {w : BitVec 64} (h : Remaining msg off (putLong w ++ rest)) :
    Remaining msg (off + 8) rest := by
  have hs := h.skip
  rwa [putLong_length] at hs

/-! ## Keys -/

theorem cString_of_no_nul {bytes : List Byte} (h : 0 ∉ bytes) : cString bytes = bytes := by
  rw [cString, List.takeWhile_eq_self_iff]
  intro b hb
  rw [bne_iff_ne]
  intro h0
  rw [h0] at hb
  exact h hb

theorem toNat_ofNat_length {α : Type} {l : List α} (h : l.length < 65536) :
    (BitVec.ofNat 32 l.length).toNat = l.length := by
  rw [BitVec.toNat_ofNat]
  exact Nat.mod_eq_of_lt (by omega)

theorem intRounds_ofNat {n : Nat} (h : n < 65536) : intRounds (BitVec.ofNat 32 n) = n := by
  have hn : (BitVec.ofNat 32 n).toNat = n := by
    rw [BitVec.toNat_ofNat]
    exact Nat.mod_eq_of_lt (by omega)
  rw [intRounds, BitVec.toInt_eq_toNat_of_lt (by rw [hn]; omega), hn]
  rfl

/-- A key that the buffer holds is copied when its first NUL also stays inside. -/
theorem copyKey_of_fits {key : List Byte} {len nul : BitVec 32}
    (h : Remaining msg off (key ++ rest)) (hn : 0 ∉ key) (hl : key.length < 65536)
    (hlen : len = BitVec.ofNat 32 key.length) (hnul : nul.toNat < len.toNat + 2) :
    copyKey msg off len nul = .ok key := by
  have hnat : len.toNat = key.length := by rw [hlen]; exact toNat_ofNat_length hl
  have hsize : (len + 2).toNat = len.toNat + 2 := by
    rw [BitVec.toNat_add]
    change (len.toNat + 2) % 2 ^ 32 = _
    exact Nat.mod_eq_of_lt (by omega)
  have hs : slice msg off len.toNat = some key := h.slice_of_length hnat
  rw [copyKey, if_pos ⟨by rw [hsize]; exact hnul, by rw [hsize]; omega⟩, hs]
  change Except.ok (cString key) = _
  rw [cString_of_no_nul hn]

/-- Everything but a create message's action table puts the first NUL behind the key. -/
theorem copyKey_succ {key : List Byte} {len : BitVec 32}
    (h : Remaining msg off (key ++ rest)) (hn : 0 ∉ key) (hl : key.length < 65536)
    (hlen : len = BitVec.ofNat 32 key.length) : copyKey msg off len (len + 1) = .ok key := by
  have hnat : len.toNat = key.length := by rw [hlen]; exact toNat_ofNat_length hl
  apply copyKey_of_fits h hn hl hlen
  rw [BitVec.toNat_add]
  change (len.toNat + 1) % 2 ^ 32 < _
  rw [Nat.mod_eq_of_lt (by omega)]
  omega

theorem copyKey_pred {key : List Byte} {len : BitVec 32}
    (h : Remaining msg off (key ++ rest)) (hne : key ≠ []) (hn : 0 ∉ key)
    (hl : key.length < 65536) (hlen : len = BitVec.ofNat 32 key.length) :
    copyKey msg off len (len - 1) = .ok key := by
  have hnat : len.toNat = key.length := by rw [hlen]; exact toNat_ofNat_length hl
  have hpos : 0 < key.length := List.length_pos_iff.mpr hne
  apply copyKey_of_fits h hn hl hlen
  rw [BitVec.toNat_sub]
  change (2 ^ 32 - 1 + len.toNat) % 2 ^ 32 < _
  omega

theorem remaining_key {key : List Byte} {len : BitVec 32}
    (h : Remaining msg off (key ++ rest)) (hl : key.length < 65536)
    (hlen : len = BitVec.ofNat 32 key.length) : Remaining msg (off + len.toNat) rest := by
  have hs := h.skip
  rw [hlen, toNat_ofNat_length hl]
  exact hs

/-! ## Modification messages -/

theorem length_le_written {α : Type} {write : α → List Byte} (hw : ∀ d, 1 ≤ (write d).length)
    {ds : List α} (h : Remaining msg off (ds.flatMap write ++ rest)) : ds.length ≤ msg.length := by
  have hone : ds.length ≤ (ds.flatMap write).length := by
    rw [List.length_flatMap]
    have hsum := List.length_le_sum_of_one_le (ds.map fun d => (write d).length) (by
      intro i hi
      obtain ⟨d, _, rfl⟩ := List.mem_map.mp hi
      exact hw d)
    rwa [List.length_map] at hsum
  have hlen := h.length_eq
  rw [List.length_append] at hlen
  omega

/-- What the handlers read of the eight bytes after the OpenFlow header. -/
theorem readModHeader {Entry : Type} {type : BitVec 8} {byteLength : Entry → BitVec 16}
    {write : Entry → List Byte} {m : ModMessage Entry}
    (hm : m.writeTo type byteLength write = msg) (hmsg : msg.length < 65536) :
    net32 msg 8 = .ok m.appid ∧ net32 msg 12 = .ok (BitVec.ofNat 32 m.datas.length) ∧
    m.datas.length < 65536 ∧
    Remaining msg 16 (m.datas.flatMap (ModMessage.writeItem write) ++ []) := by
  have h0 := remaining_start msg
  nth_rewrite 2 [← hm] at h0
  have h8 := h0.skip
  rw [OFMessage.writeTo_length, Nat.zero_add] at h8
  have h12 := remaining_int h8
  have h16 := remaining_int h12
  rw [← List.append_nil (m.datas.flatMap _)] at h16
  have hle := length_le_written (fun item => by
    rw [ModMessage.writeItem, List.length_append, putInt_length]
    omega) h16
  rw [← m.count_eq]
  exact ⟨net32_putInt h8, net32_putInt h12, by omega, h16⟩

/-- A loop whose rounds each apply one written item applies them all, in order. -/
theorem modItems_written {T Entry : Type} (item : Nat → T → Except Fault (SfaErr × T × Nat))
    (apply : T → SFAModType × Entry → T) {write : Entry → List Byte}
    {items : List (SFAModType × Entry)}
    (hitem : ∀ it ∈ items, ∀ off rest t, Remaining msg off (ModMessage.writeItem write it ++ rest) →
      ∃ off', item off t = .ok (.ok, apply t it, off') ∧ Remaining msg off' rest)
    (h : Remaining msg off (items.flatMap (ModMessage.writeItem write) ++ rest)) (t : T) :
    ∃ off', modItems item items.length off t = .ok (.ok, items.foldl apply t, off') ∧
      Remaining msg off' rest := by
  induction items generalizing off t with
  | nil => exact ⟨off, rfl, h⟩
  | cons it items ih =>
    rw [List.flatMap_cons, List.append_assoc] at h
    obtain ⟨off1, hstep, hnext⟩ := hitem it List.mem_cons_self off _ t h
    obtain ⟨off', hrun, hrest⟩ :=
      ih (fun x hx => hitem x (List.mem_cons_of_mem it hx)) hnext (apply t it)
    refine ⟨off', ?_, hrest⟩
    rw [List.length_cons, modItems, hstep]
    exact hrun

end Sdpa.Protocol
