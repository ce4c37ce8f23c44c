import Mathlib.Tactic.IntervalCases
import Sdpa.Hardware.BitFields
import Sdpa.Hardware.FlowEntries
import Sdpa.Hardware.OplRewriter
import Sdpa.Lib.OnesComplement

/-!
# What an action makes of the data of a packet

The data of a packet in halves of 32-bit words, in the order in which they are on the
wire: the Ethernet header is in the halves 0 to 6, the IP header begins in half 7 and the
transport header behind it. An action is a list of halves to write, with the values. The
checksums are written along with what they cover, updated by the differences.
-/
namespace Sdpa.Hardware

open OplAction Lib.OnesComplement

/-! ## Halves -/

/-- Half `j` of a word, from the high end. -/
def half (w : BitVec 64) (j : Nat) : BitVec 16 := w.extractLsb' (48 - 16 * j) 16

theorem eq_of_half {v w : BitVec 64} (h : ∀ j, j < 4 → half v j = half w j) : v = w := by
  refine BitVec.eq_of_getLsbD_eq fun i hi => ?_
  have hbit := congrArg (fun x => x.getLsbD (i % 16)) (h (3 - i / 16) (by omega))
  simp only [half, BitVec.getLsbD_extractLsb', decide_eq_true (show i % 16 < 16 by omega),
    Bool.true_and] at hbit
  rwa [show 48 - 16 * (3 - i / 16) + i % 16 = i by omega] at hbit

/-- A word of four halves. -/
def ofHalves (x : Nat → BitVec 16) : BitVec 64 :=
  x 0 ++ (x 1 ++ (x 2 ++ x 3 : BitVec (16 + 16)) : BitVec (16 + (16 + 16)))

theorem half_ofHalves (x : Nat → BitVec 16) {j : Nat} (hj : j < 4) : half (ofHalves x) j = x j := by
  refine BitVec.eq_of_getLsbD_eq fun i hi => ?_
  have hcases : j = 0 ∨ j = 1 ∨ j = 2 ∨ j = 3 := by omega
  rw [half, BitVec.getLsbD_extractLsb', decide_eq_true hi, Bool.true_and, ofHalves,
    BitVec.getLsbD_append]
  rcases hcases with rfl | rfl | rfl | rfl
  · rw [if_neg (by omega)]
    exact congrArg _ (by omega)
  · rw [if_pos (by omega), BitVec.getLsbD_append, if_neg (by omega)]
    exact congrArg _ (by omega)
  · rw [if_pos (by omega), BitVec.getLsbD_append, if_pos (by omega), BitVec.getLsbD_append,
      if_neg (by omega)]
    exact congrArg _ (by omega)
  · rw [if_pos (by omega), BitVec.getLsbD_append, if_pos (by omega), BitVec.getLsbD_append,
      if_pos (by omega)]
    exact congrArg _ (by omega)

namespace Packet

variable (pk : Packet)

/-- Half `h` of the data. -/
def half (h : Nat) : BitVec 16 := Hardware.half (pk.word (h / 4)) (h % 4)

def isUdp : Bool := pk.isIp && (pk.half 11).extractLsb' 0 8 = 0x11

def isTcp : Bool := pk.isIp && (pk.half 11).extractLsb' 0 8 = 0x06

/-- The half in which the transport header begins. -/
def tpAt : Nat := 7 + 2 * pk.ipHdrLen.toNat

/-- The half with the checksum of the transport header. -/
def tpChecksumAt : Option Nat :=
  if pk.isUdp then some (pk.tpAt + 3) else if pk.isTcp then some (pk.tpAt + 8) else none

end Packet

/-! ## The writes -/

/-- A half and its new value. -/
abbrev Write := Nat × BitVec 16

namespace OplAction

variable (a : BitVec 320) (pk : Packet)

def writeIf (flag : BitVec 16) (ws : List Write) : List Write := if hasFlag a flag then ws else []

def dlWrites : List Write :=
  writeIf a ofpatSetDlDst
    [(0, (setDlDst a).extractLsb' 32 16), (1, (setDlDst a).extractLsb' 16 16),
      (2, (setDlDst a).extractLsb' 0 16)] ++
  writeIf a ofpatSetDlSrc
    [(3, (setDlSrc a).extractLsb' 32 16), (4, (setDlSrc a).extractLsb' 16 16),
      (5, (setDlSrc a).extractLsb' 0 16)]

def tosWrites : List Write :=
  writeIf a ofpatSetNwTos [(7, putBits 2 ((setNwTos a).extractLsb' 2 6) (pk.half 7))]

def addrWrites : List Write :=
  writeIf a ofpatSetNwSrc
    [(13, (setNwSrc a).extractLsb' 16 16), (14, (setNwSrc a).extractLsb' 0 16)] ++
  writeIf a ofpatSetNwDst
    [(15, (setNwDst a).extractLsb' 16 16), (16, (setNwDst a).extractLsb' 0 16)]

def portWrites : List Write :=
  writeIf a ofpatSetTpSrc [(pk.tpAt, setTpSrc a)] ++
  writeIf a ofpatSetTpDst [(pk.tpAt + 1, setTpDst a)]

/-- By how much the sum of the halves grows, each counted as what it becomes and the complement of
what it was. -/
def delta : List Write → Nat
  | [] => 0
  | w :: ws => w.2.toNat + (65535 - (pk.half w.1).toNat) + delta ws

/-- The checksum in half `h` when `ws` are written. -/
def checksum (h : Nat) (ws : List Write) : BitVec 16 :=
  BitVec.ofNat 16 (update (pk.half h).toNat (delta pk ws))

def nwWrites : List Write :=
  if pk.isIp then
    tosWrites a pk ++ addrWrites a ++ [(12, checksum pk 12 (tosWrites a pk ++ addrWrites a))]
  else []

def tpWrites : List Write :=
  if 5 ≤ pk.ipHdrLen.toNat then
    match pk.tpChecksumAt with
    | some h => portWrites a pk ++ [(h, checksum pk h (addrWrites a ++ portWrites a pk))]
    | none => []
  else []

def writes : List Write := dlWrites a ++ nwWrites a pk ++ tpWrites a pk

/-- Half `h` after the writes. -/
def newHalf (h : Nat) : BitVec 16 := ((writes a pk).lookup h).getD (pk.half h)

/-- Data word `n` after the writes. -/
def newWord (n : Nat) : BitVec 64 := ofHalves fun j => newHalf a pk (4 * n + j)

theorem half_newWord (n : Nat) {j : Nat} (hj : j < 4) :
    half (newWord a pk n) j = newHalf a pk (4 * n + j) := half_ofHalves _ hj

theorem half_word (n : Nat) {j : Nat} (hj : j < 4) :
    half (pk.word n) j = pk.half (4 * n + j) := by
  rw [Packet.half, show (4 * n + j) / 4 = n by omega, show (4 * n + j) % 4 = j by omega]

/-! ## Sums -/

theorem delta_append (ws vs : List Write) : delta pk (ws ++ vs) = delta pk ws + delta pk vs := by
  induction ws with
  | nil => exact (Nat.zero_add _).symm
  | cons w ws ih =>
    rw [List.cons_append, delta, delta, ih]
    exact (Nat.add_assoc _ _ _).symm

theorem delta_singleton (w : Write) :
    delta pk [w] = w.2.toNat + (65535 - (pk.half w.1).toNat) := rfl

end OplAction

theorem toNat_fold17 (x : BitVec 17) : (fold17 x).toNat = carry x.toNat := by
  rw [fold17, BitVec.toNat_add, BitVec.toNat_setWidth, BitVec.toNat_setWidth, BitVec.toNat_setWidth,
    BitVec.extractLsb'_toNat, Nat.shiftRight_eq_div_pow]
  exact carry_mod x.isLt (by decide)

theorem toNat_fold18 (x : BitVec 18) : (fold18 x).toNat = carry x.toNat := by
  rw [fold18, BitVec.toNat_add, BitVec.toNat_setWidth, BitVec.toNat_setWidth, BitVec.toNat_setWidth,
    BitVec.extractLsb'_toNat, Nat.shiftRight_eq_div_pow]
  exact carry_mod x.isLt (by decide)

theorem toNat_fold17_add {x y : BitVec 17} {m n : Nat} (hx : x.toNat = fold m)
    (hy : y.toNat = fold n) : (fold17 (x + y)).toNat = fold (m + n) := by
  have := fold_le m
  have := fold_le n
  rw [toNat_fold17, BitVec.toNat_add, Nat.mod_eq_of_lt (by omega), hx, hy, carry_add_eq_fold]

theorem toNat_fold18_add {x y : BitVec 18} {m n : Nat} (hx : x.toNat = fold m)
    (hy : y.toNat = fold n) : (fold18 (x + y)).toNat = fold (m + n) := by
  have := fold_le m
  have := fold_le n
  rw [toNat_fold18, BitVec.toNat_add, Nat.mod_eq_of_lt (by omega), hx, hy, carry_add_eq_fold]

theorem toNat_inv {w : Nat} (x : BitVec 16) (hw : 16 ≤ w) :
    ((~~~x).setWidth w).toNat = fold (65535 - x.toNat) := by
  have hx := x.isLt
  have hpow : 2 ^ 16 ≤ 2 ^ w := Nat.pow_le_pow_right (by omega) hw
  rw [BitVec.toNat_setWidth, BitVec.toNat_not, fold_of_le (by omega), Nat.mod_eq_of_lt (by omega)]

theorem toNat_diff (new old : BitVec 16) :
    (diff new old).toNat = fold (new.toNat + (65535 - old.toNat)) := by
  have hnew := new.isLt
  refine toNat_fold17_add ?_ (toNat_inv old (by omega))
  rw [BitVec.toNat_setWidth, fold_of_le (by omega), Nat.mod_eq_of_lt (by omega)]

theorem toNat_diffIf (a : BitVec 320) (pk : Packet) (flag new : BitVec 16) (h : Nat) :
    (OplRewriter.diffIf a flag new (pk.half h)).toNat =
      fold (delta pk (writeIf a flag [(h, new)])) := by
  rw [OplRewriter.diffIf, writeIf]
  split
  · rw [toNat_diff, delta_singleton]
  · rfl

/-- The inverse of the sum is the checksum. -/
theorem not_setWidth_eq {w : Nat} {x : BitVec w} {c d : Nat}
    (hx : x.toNat = fold (65535 - c + d)) : ~~~(x.setWidth 16) = BitVec.ofNat 16 (update c d) := by
  have hle := fold_le (65535 - c + d)
  refine BitVec.eq_of_toNat_eq ?_
  rw [BitVec.toNat_not, BitVec.toNat_setWidth, BitVec.toNat_ofNat, hx, update]
  omega

/-- A field of six bits in a half. -/
theorem toNat_putBits_tos (x : BitVec 6) (v : BitVec 16) :
    (putBits 2 x v).toNat + 4 * (v.extractLsb' 2 6).toNat = v.toNat + 4 * x.toNat := by
  have hlow : ((putBits 2 x v).extractLsb' 0 2).toNat = (v.extractLsb' 0 2).toNat :=
    congrArg BitVec.toNat (extract_putBits_of_beside x v (by omega) (.inl (Nat.le_refl 2)))
  have hself : ((putBits 2 x v).extractLsb' 2 6).toNat = x.toNat :=
    congrArg BitVec.toNat (extract_putBits_self x v (by omega))
  have hhigh : ((putBits 2 x v).extractLsb' 8 8).toNat = (v.extractLsb' 8 8).toNat :=
    congrArg BitVec.toNat (extract_putBits_of_beside x v (by omega) (.inr (Nat.le_refl 8)))
  simp only [BitVec.extractLsb'_toNat, Nat.shiftRight_eq_div_pow] at hlow hself hhigh ⊢
  have := (putBits 2 x v).isLt
  have := v.isLt
  omega

theorem toNat_append {m n : Nat} (x : BitVec m) (y : BitVec n) :
    (x ++ y).toNat = x.toNat * 2 ^ n + y.toNat := by
  rw [BitVec.toNat_append, ← Nat.shiftLeft_add_eq_or_of_lt y.isLt, Nat.shiftLeft_eq]

theorem toNat_hdr2nd (a : BitVec 320) (pk : Packet) (r : OplRewriter) :
    (OplRewriter.hdr2nd a (pk.word 1) r).nwChksumNew.toNat = fold (delta pk (tosWrites a pk)) := by
  rw [OplRewriter.hdr2nd, tosWrites, writeIf]
  by_cases hflag : hasFlag a ofpatSetNwTos = true
  · have hfield : (pk.word 1).extractLsb' 2 6 = (pk.half 7).extractLsb' 2 6 := by
      refine BitVec.eq_of_getLsbD_eq fun i hi => ?_
      simp (disch := omega) [Packet.half, half]
    have hput := toNat_putBits_tos ((setNwTos a).extractLsb' 2 6) (pk.half 7)
    have hold := ((pk.half 7).extractLsb' 2 6).isLt
    have hnew := ((setNwTos a).extractLsb' 2 6).isLt
    have hhalf := (pk.half 7).isLt
    simp only [hflag, if_true, hfield, toNat_fold18, BitVec.toNat_add, toNat_append, delta_singleton,
      BitVec.toNat_not, BitVec.toNat_ofNat]
    rw [carry_eq_fold (by omega)]
    congr 1
    omega
  · simp only [hflag, Bool.false_eq_true, if_false]
    rfl

/-! ## Words -/

namespace OplAction

variable {a : BitVec 320} {pk : Packet} {h : Nat}

theorem lookup_writeIf (flag : BitVec 16) (ws : List Write) :
    (writeIf a flag ws).lookup h = if hasFlag a flag then ws.lookup h else none := by
  rw [writeIf]
  split <;> rfl

theorem lookup_dlWrites (hh : 6 ≤ h) : (dlWrites a).lookup h = none := by
  rw [dlWrites, List.lookup_append, lookup_writeIf, lookup_writeIf]
  simp (disch := omega) [List.lookup_cons, beq_eq_false_iff_ne.mpr]

theorem lookup_nwWrites (hh : h < 7 ∨ 17 ≤ h) : (nwWrites a pk).lookup h = none := by
  rw [nwWrites]
  split
  · simp only [tosWrites, addrWrites, List.lookup_append, lookup_writeIf]
    simp (disch := omega) [List.lookup_cons, beq_eq_false_iff_ne.mpr]
  · rfl

theorem tpChecksumAt_ge (hh : pk.tpChecksumAt = some h) : pk.tpAt + 3 ≤ h := by
  rw [Packet.tpChecksumAt] at hh
  split at hh
  · injection hh with hh
    omega
  · split at hh
    · injection hh with hh
      omega
    · cases hh

theorem lookup_tpWrites_of_lt (hh : h < pk.tpAt) : (tpWrites a pk).lookup h = none := by
  rw [tpWrites]
  split
  · cases hck : pk.tpChecksumAt with
    | none => rfl
    | some k =>
      have := tpChecksumAt_ge hck
      simp only [portWrites, List.lookup_append, lookup_writeIf]
      simp (disch := omega) [List.lookup_cons, beq_eq_false_iff_ne.mpr]
  · rfl

theorem lookup_tpWrites (hh : h < 17) : (tpWrites a pk).lookup h = none := by
  by_cases hlen : 5 ≤ pk.ipHdrLen.toNat
  · exact lookup_tpWrites_of_lt (by rw [Packet.tpAt]; omega)
  · rw [tpWrites, if_neg hlen]
    rfl

theorem lookup_nwWrites_eq :
    (nwWrites a pk).lookup h =
      if pk.isIp then ((tosWrites a pk ++ addrWrites a).lookup h).or
        ([(12, checksum pk 12 (tosWrites a pk ++ addrWrites a))].lookup h)
      else none := by
  rw [nwWrites]
  split
  · rw [List.lookup_append]
  · rfl

/-- Data word `n` after the writes to the Ethernet header and the IP header. -/
def nwWord (a : BitVec 320) (pk : Packet) (n : Nat) : BitVec 64 :=
  ofHalves fun j => ((dlWrites a ++ nwWrites a pk).lookup (4 * n + j)).getD (pk.half (4 * n + j))

/-- The writes to the transport header in word `n`. -/
def putTp (a : BitVec 320) (pk : Packet) (n : Nat) (w : BitVec 64) : BitVec 64 :=
  ofHalves fun j => ((tpWrites a pk).lookup (4 * n + j)).getD (half w j)

theorem half_nwWord (n : Nat) {j : Nat} (hj : j < 4) :
    half (nwWord a pk n) j =
      (((dlWrites a).lookup (4 * n + j)).or ((nwWrites a pk).lookup (4 * n + j))).getD
        (half (pk.word n) j) := by
  rw [nwWord, half_ofHalves _ hj, List.lookup_append, half_word pk n hj]

theorem half_putTp (n : Nat) (w : BitVec 64) {j : Nat} (hj : j < 4) :
    half (putTp a pk n w) j = ((tpWrites a pk).lookup (4 * n + j)).getD (half w j) :=
  half_ofHalves _ hj

theorem newWord_eq (n : Nat) : newWord a pk n = putTp a pk n (nwWord a pk n) := by
  refine eq_of_half fun j hj => ?_
  rw [half_newWord a pk n hj, half_putTp n _ hj, nwWord, half_ofHalves _ hj, newHalf, writes,
    List.lookup_append]
  cases hnw : (dlWrites a ++ nwWrites a pk).lookup (4 * n + j) with
  | none => rfl
  | some v =>
    -- No half is written twice.
    have hlt : 4 * n + j < 17 := by
      by_contra hge
      rw [List.lookup_append, lookup_dlWrites (by omega), lookup_nwWrites (by omega)] at hnw
      cases hnw
    rw [lookup_tpWrites hlt]
    rfl

theorem putTp_of_none {n : Nat} {w : BitVec 64}
    (hnone : ∀ j, j < 4 → (tpWrites a pk).lookup (4 * n + j) = none) : putTp a pk n w = w := by
  refine eq_of_half fun j hj => ?_
  rw [half_putTp n w hj, hnone j hj]
  rfl

theorem newWord_of_lt {n : Nat} (hn : n < 4) : newWord a pk n = nwWord a pk n := by
  rw [newWord_eq, putTp_of_none fun j hj => lookup_tpWrites (by omega)]

open OplRewriter

theorem nwWord_zero :
    nwWord a pk 0 = putIf a ofpatSetDlSrc 0 ((setDlSrc a).extractLsb' 32 16)
      (putIf a ofpatSetDlDst 16 (setDlDst a) (pk.word 0)) := by
  refine eq_of_half fun j hj => ?_
  rw [half_nwWord 0 hj, lookup_nwWrites (by omega), Option.or_none]
  simp only [dlWrites, List.lookup_append, lookup_writeIf, putIf]
  interval_cases j
  all_goals
    cases hasFlag a ofpatSetDlSrc <;> cases hasFlag a ofpatSetDlDst <;>
      simp (disch := omega) [List.lookup_cons, half, extract_putBits_of_beside,
        extract_putBits_of_inside]

theorem nwWord_one :
    nwWord a pk 1 =
      if pk.isIp then putIf a ofpatSetNwTos 2 ((setNwTos a).extractLsb' 2 6)
        (putIf a ofpatSetDlSrc 32 ((setDlSrc a).extractLsb' 0 32) (pk.word 1))
      else putIf a ofpatSetDlSrc 32 ((setDlSrc a).extractLsb' 0 32) (pk.word 1) := by
  refine eq_of_half fun j hj => ?_
  rw [half_nwWord 1 hj, lookup_nwWrites_eq]
  simp only [dlWrites, tosWrites, addrWrites, List.lookup_append, lookup_writeIf, putIf,
    Packet.half]
  interval_cases j
  all_goals
    cases pk.isIp <;> cases hasFlag a ofpatSetDlSrc <;> cases hasFlag a ofpatSetNwTos <;>
      simp (disch := omega) [List.lookup_cons, half, extract_putBits_of_beside,
        extract_putBits_of_inside, extract_putBits_of_around]

theorem nwWord_two : nwWord a pk 2 = pk.word 2 := by
  refine eq_of_half fun j hj => ?_
  rw [half_nwWord 2 hj, lookup_dlWrites (by omega), lookup_nwWrites_eq]
  simp only [tosWrites, addrWrites, List.lookup_append, lookup_writeIf]
  interval_cases j
  all_goals simp [List.lookup_cons]

theorem nwWord_three :
    nwWord a pk 3 =
      if pk.isIp then putIf a ofpatSetNwDst 0 ((setNwDst a).extractLsb' 16 16)
        (putIf a ofpatSetNwSrc 16 (setNwSrc a)
          (putBits 48 (checksum pk 12 (tosWrites a pk ++ addrWrites a)) (pk.word 3)))
      else pk.word 3 := by
  refine eq_of_half fun j hj => ?_
  rw [half_nwWord 3 hj, lookup_dlWrites (by omega), Option.none_or, lookup_nwWrites_eq]
  generalize checksum pk 12 (tosWrites a pk ++ addrWrites a) = c
  simp only [tosWrites, addrWrites, List.lookup_append, lookup_writeIf, putIf]
  interval_cases j
  all_goals
    cases pk.isIp <;> cases hasFlag a ofpatSetNwSrc <;> cases hasFlag a ofpatSetNwDst <;>
      simp (disch := omega) [List.lookup_cons, half, extract_putBits_of_beside,
        extract_putBits_of_inside]

theorem nwWord_four :
    nwWord a pk 4 =
      if pk.isIp then putIf a ofpatSetNwDst 48 ((setNwDst a).extractLsb' 0 16) (pk.word 4)
      else pk.word 4 := by
  refine eq_of_half fun j hj => ?_
  rw [half_nwWord 4 hj, lookup_dlWrites (by omega), Option.none_or, lookup_nwWrites_eq]
  simp only [tosWrites, addrWrites, List.lookup_append, lookup_writeIf, putIf]
  interval_cases j
  all_goals
    cases pk.isIp <;> cases hasFlag a ofpatSetNwDst <;>
      simp (disch := omega) [List.lookup_cons, half, extract_putBits_of_beside]

theorem nwWord_of_ge {n : Nat} (hn : 5 ≤ n) : nwWord a pk n = pk.word n := by
  refine eq_of_half fun j hj => ?_
  rw [half_nwWord n hj, lookup_dlWrites (by omega), lookup_nwWrites (by omega)]
  rfl

/-! ## The transport header -/

theorem lookup_single (x : Nat) (v : BitVec 16) :
    [(x, v)].lookup h = if h = x then some v else none := by
  rw [List.lookup_cons]
  by_cases hx : h = x
  · simp [hx]
  · simp [hx, beq_eq_false_iff_ne.mpr hx]

variable {k m : Nat} {w : BitVec 64} (hk : pk.tpChecksumAt = some k)
  (hlen : 5 ≤ pk.ipHdrLen.toNat)

include hk hlen

theorem lookup_tpWrites_eq :
    (tpWrites a pk).lookup h =
      if h = pk.tpAt then if hasFlag a ofpatSetTpSrc then some (setTpSrc a) else none
      else if h = pk.tpAt + 1 then if hasFlag a ofpatSetTpDst then some (setTpDst a) else none
      else if h = k then some (checksum pk k (addrWrites a ++ portWrites a pk)) else none := by
  have hge := tpChecksumAt_ge hk
  rw [tpWrites, if_pos hlen, hk]
  dsimp only
  generalize checksum pk k (addrWrites a ++ portWrites a pk) = c
  simp only [portWrites, List.lookup_append, lookup_writeIf, lookup_single]
  split_ifs <;> first | rfl | omega

/-- A word without the ports and the checksum. -/
theorem putTp_of_beside (hports : 4 * m + 3 < pk.tpAt ∨ pk.tpAt + 1 < 4 * m)
    (hkm : k < 4 * m ∨ 4 * m + 3 < k) : putTp a pk m w = w := by
  refine putTp_of_none fun j hj => ?_
  rw [lookup_tpWrites_eq hk hlen, if_neg (by omega), if_neg (by omega), if_neg (by omega)]

/-- The word with the checksum. -/
theorem putTp_of_checksum {j : Nat} (hj : j < 4) (hkm : k = 4 * m + j)
    (hports : pk.tpAt + 1 < 4 * m) :
    putTp a pk m w =
      putBits (48 - 16 * j) (checksum pk k (addrWrites a ++ portWrites a pk)) w := by
  refine eq_of_half fun e he => ?_
  rw [half_putTp m w he, lookup_tpWrites_eq hk hlen, if_neg (by omega), if_neg (by omega)]
  by_cases hej : e = j
  · subst hej
    rw [if_pos hkm.symm]
    exact (extract_putBits_self _ w (by omega)).symm
  · rw [if_neg (by omega), half, half, extract_putBits_of_beside _ _ (by omega) (by omega)]
    rfl

theorem putTp_odd_ports (hm : pk.tpAt = 4 * m + 1) :
    putTp a pk m w =
      putIf a ofpatSetTpDst 16 (setTpDst a) (putIf a ofpatSetTpSrc 32 (setTpSrc a) w) := by
  have hge := tpChecksumAt_ge hk
  refine eq_of_half fun j hj => ?_
  rw [half_putTp m w hj, lookup_tpWrites_eq hk hlen, putIf, putIf]
  interval_cases j
  all_goals
    cases hasFlag a ofpatSetTpSrc <;> cases hasFlag a ofpatSetTpDst <;>
      simp (disch := omega) [if_neg, if_pos, half, extract_putBits_of_beside]

theorem putTp_evn_src (hm : pk.tpAt = 4 * m + 3) :
    putTp a pk m w = putIf a ofpatSetTpSrc 0 (setTpSrc a) w := by
  have hge := tpChecksumAt_ge hk
  refine eq_of_half fun j hj => ?_
  rw [half_putTp m w hj, lookup_tpWrites_eq hk hlen, putIf]
  interval_cases j
  all_goals
    cases hasFlag a ofpatSetTpSrc <;>
      simp (disch := omega) [if_neg, if_pos, half, extract_putBits_of_beside]

theorem putTp_evn_dst (hm : pk.tpAt + 1 = 4 * m) (hkm : 4 * m + 3 < k) :
    putTp a pk m w = putIf a ofpatSetTpDst 48 (setTpDst a) w := by
  refine eq_of_half fun j hj => ?_
  rw [half_putTp m w hj, lookup_tpWrites_eq hk hlen, putIf]
  interval_cases j
  all_goals
    cases hasFlag a ofpatSetTpDst <;>
      simp (disch := omega) [if_neg, if_pos, half, extract_putBits_of_beside]

theorem putTp_evn_dst_checksum (hm : pk.tpAt + 1 = 4 * m) (hkm : k = 4 * m + 2) :
    putTp a pk m w =
      putBits 16 (checksum pk k (addrWrites a ++ portWrites a pk))
        (putIf a ofpatSetTpDst 48 (setTpDst a) w) := by
  refine eq_of_half fun j hj => ?_
  rw [half_putTp m w hj, lookup_tpWrites_eq hk hlen, putIf]
  generalize checksum pk k (addrWrites a ++ portWrites a pk) = c
  interval_cases j
  all_goals
    cases hasFlag a ofpatSetTpDst <;>
      simp (disch := omega) [if_neg, if_pos, half, extract_putBits_of_beside]

end OplAction

end Sdpa.Hardware
