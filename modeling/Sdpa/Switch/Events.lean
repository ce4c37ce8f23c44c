import Sdpa.Switch.XlateFp

/-!
# What the events of a transition table mean

A controller writes numbers. `xlate_fp` loads the fields of the flow as they lie in
memory, so a field in network order reaches `get_event` with its bytes swapped, and the
VLAN id together with the rest of its tag. Two operators have no case. Which events keep
their meaning is a matter of how the two parameters are encoded.
-/
namespace Sdpa.Switch

open Sdpa.Lib.Endian

/-! ## The meaning of an event -/

/-- The parameters that stand for a number. -/
def ParamType.numbers : List ParamType :=
  [.inPort, .dlVlan, .dlType, .nwTos, .nwProto, .tpSrc, .tpDst, .tpFlag, .nwSrc, .nwDst,
    .metadata, .const]

/-- The number: a header field in host order, the 12 bits of the VLAN id, or a constant. -/
def ParamType.number (fl : Flow) (tcpFlags : BitVec 16) (value : BitVec 64) :
    ParamType → BitVec 64
  | .inPort => (fl .inPort).setWidth 64
  | .dlVlan => (bswap 2 (fl .vlanTci) &&& 0xfff).setWidth 64
  | .dlType => (bswap 2 (fl .dlType)).setWidth 64
  | .nwTos => (fl .nwTos).setWidth 64
  | .nwProto => (fl .nwProto).setWidth 64
  | .tpSrc => (bswap 2 (fl .tpSrc)).setWidth 64
  | .tpDst => (bswap 2 (fl .tpDst)).setWidth 64
  | .tpFlag => tcpFlags.setWidth 64
  | .nwSrc => (bswap 4 (fl .nwSrc)).setWidth 64
  | .nwDst => (bswap 4 (fl .nwDst)).setWidth 64
  | .metadata => bswap 8 (fl .metadata)
  | .const => value
  | .non | .dlVlanPcp | .dlSrc | .dlDst => 0

/-- A comparison is a truth value, the result of any other operator is compared with 0. -/
def Oprator.holds : Oprator → BitVec 64 → BitVec 64 → Bool
  | .non, _, _ => true
  | .isequal, a, b => a == b
  | .add, a, b => a + b != 0
  | .sub, a, b => a - b != 0
  | .bitand, a, b => a &&& b != 0
  | .bitor, a, b => a ||| b != 0
  | .bitwise, a, b => a ^^^ b != 0
  | .greater, a, b => b.ult a
  | .less, a, b => a.ult b
  | .equalgreater, a, b => b.ule a
  | .equalless, a, b => a.ule b

/-- Entries with these parameters and this operator mean what the controller wrote. -/
def EventsMeant (lt : ParamType) (op : Oprator) (rt : ParamType) : Prop :=
  ∀ e : SttMatchEntry, ParamType.ofWord e.paramLeftType = some lt →
    Oprator.ofWord e.oprator = some op → ParamType.ofWord e.paramRightType = some rt →
      ∀ fl tcpFlags, e.event fl tcpFlags =
        op.holds (lt.number fl tcpFlags e.paramLeft) (rt.number fl tcpFlags e.paramRight)

/-! ## Encodings -/

/-- How a number lies in the word that is loaded. -/
inductive Encoding
  | plain (bits : Nat)
  | swapped (bytes : Nat)
  | vid
  deriving DecidableEq

namespace Encoding

def bits : Encoding → Nat
  | plain bits => bits
  | swapped bytes => 8 * bytes
  | vid => 16

/-- The word with only the bits of the field. -/
def load (e : Encoding) (w : BitVec 64) : BitVec 64 := (w.setWidth e.bits).setWidth 64

def number : Encoding → BitVec 64 → BitVec 64
  | plain bits, w => (w.setWidth bits).setWidth 64
  | swapped bytes, w => (bswap bytes (w.setWidth (8 * bytes))).setWidth 64
  | vid, w => (bswap 2 (w.setWidth 16) &&& 0xfff).setWidth 64

def isPlain : Encoding → Bool
  | plain _ => true
  | _ => false

/-- Sums of two such numbers do not wrap, and are 0 only if both are. -/
def isShort (e : Encoding) : Bool := e != vid && decide (e.bits ≤ 32)

end Encoding

def ParamType.encoding : ParamType → Encoding
  | .inPort | .tpFlag => .plain 16
  | .nwTos | .nwProto => .plain 8
  | .dlVlan => .vid
  | .dlType | .tpSrc | .tpDst => .swapped 2
  | .nwSrc | .nwDst => .swapped 4
  | .metadata => .swapped 8
  | .const => .plain 64
  | .non | .dlVlanPcp | .dlSrc | .dlDst => .plain 0

/-- The operator gives the same for two numbers as for the words they are loaded as. -/
def Oprator.keeps : Oprator → Encoding → Encoding → Bool
  | .non, _, _ => true
  | .sub, _, _ | .bitwise, _, _ => false
  | .isequal, l, r | .bitand, l, r => l.isPlain && r.isPlain || l == r && l != .vid
  | .bitor, l, r => l != .vid && r != .vid
  | .add, l, r => l.isPlain && r.isPlain || l.isShort && r.isShort
  | .greater, l, r | .less, l, r | .equalgreater, l, r | .equalless, l, r => l.isPlain && r.isPlain

/-- The same for a number and itself. -/
def Oprator.keepsSelf : Oprator → Encoding → Bool
  | .bitand, e | .bitor, e => e != .vid
  | .add, e => e.isShort
  | _, _ => true

def Faithful (lt : ParamType) (op : Oprator) (rt : ParamType) : Bool :=
  if lt = rt ∧ lt ≠ .const then op.keepsSelf lt.encoding else op.keeps lt.encoding rt.encoding

/-! ## Operators that keep the meaning -/

theorem setWidth_inj {n : Nat} (hn : n ≤ 64) {x y : BitVec n} :
    x.setWidth 64 = y.setWidth 64 ↔ x = y := by
  refine ⟨fun h => BitVec.eq_of_toNat_eq ?_, fun h => h ▸ rfl⟩
  have htoNat := congrArg BitVec.toNat h
  rwa [BitVec.toNat_setWidth_of_le hn, BitVec.toNat_setWidth_of_le hn] at htoNat

theorem setWidth_eq_zero {n : Nat} (hn : n ≤ 64) {x : BitVec n} :
    x.setWidth 64 = 0 ↔ x = 0 := by
  have h := setWidth_inj hn (x := x) (y := 0)
  rwa [BitVec.ofNat_eq_ofNat, BitVec.setWidth_zero] at h

theorem bswap_eq_zero (n : Nat) {x : BitVec (8 * n)} : bswap n x = 0 ↔ x = 0 := by
  have hzero : bswap n 0 = 0 := by
    have h := bswap_and n (0#_) (bswap n (0#_))
    rwa [bswap_bswap, BitVec.and_zero, BitVec.zero_and] at h
  exact ⟨fun h => bswap_injective n (h.trans hzero.symm), fun h => h ▸ hzero⟩

namespace Encoding

variable {e l r : Encoding} (u v : BitVec 64)

theorem load_eq_number (h : e.isPlain = true) : e.load u = e.number u := by
  cases e with
  | plain bits => rfl
  | swapped | vid => cases h

theorem load_swapped (bytes : Nat) :
    (swapped bytes).load u = (u.setWidth (8 * bytes)).setWidth 64 := rfl

theorem load_eq_zero (hbits : e.bits ≤ 64) (hvid : e ≠ vid) : e.load u = 0 ↔ e.number u = 0 := by
  cases e with
  | plain bits => exact Iff.rfl
  | vid => exact absurd rfl hvid
  | swapped bytes =>
    have hbytes : 8 * bytes ≤ 64 := hbits
    rw [load_swapped, number, setWidth_eq_zero hbytes, setWidth_eq_zero hbytes, bswap_eq_zero]

theorem isShort_iff : e.isShort = true ↔ e ≠ vid ∧ e.bits ≤ 32 := by
  rw [isShort, Bool.and_eq_true, bne_iff_ne, decide_eq_true_eq]

theorem toNat_lt_of_isShort (h : e.isShort = true) :
    (e.load u).toNat < 2 ^ 32 ∧ (e.number u).toNat < 2 ^ 32 := by
  obtain ⟨hvid, hbits⟩ := isShort_iff.mp h
  have hlt (x : BitVec e.bits) : (x.setWidth 64).toNat < 2 ^ 32 := by
    rw [BitVec.toNat_setWidth_of_le (by omega)]
    exact x.isLt.trans_le (Nat.pow_le_pow_right (by omega) hbits)
  cases e with
  | plain bits => exact ⟨hlt _, hlt _⟩
  | vid => exact absurd rfl hvid
  | swapped bytes => exact ⟨hlt _, hlt _⟩

theorem load_inj_swapped {bytes : Nat} (hbytes : 8 * bytes ≤ 64) :
    (swapped bytes).load u = (swapped bytes).load v ↔
      (swapped bytes).number u = (swapped bytes).number v := by
  rw [load_swapped, load_swapped, number, number, setWidth_inj hbytes, setWidth_inj hbytes]
  exact ⟨fun h => congrArg (bswap bytes) h, fun h => bswap_injective bytes h⟩

theorem load_and_swapped {bytes : Nat} (hbytes : 8 * bytes ≤ 64) :
    (swapped bytes).load u &&& (swapped bytes).load v = 0 ↔
      (swapped bytes).number u &&& (swapped bytes).number v = 0 := by
  have hload : (swapped bytes).load u &&& (swapped bytes).load v =
      (u.setWidth (8 * bytes) &&& v.setWidth (8 * bytes)).setWidth 64 := BitVec.setWidth_and.symm
  have hnumber : (swapped bytes).number u &&& (swapped bytes).number v =
      (bswap bytes (u.setWidth (8 * bytes) &&& v.setWidth (8 * bytes))).setWidth 64 := by
    rw [bswap_and, BitVec.setWidth_and]
    rfl
  rw [hload, hnumber, setWidth_eq_zero hbytes, setWidth_eq_zero hbytes, bswap_eq_zero]

end Encoding

theorem add_eq_zero_of_short {a b : BitVec 64} (ha : a.toNat < 2 ^ 32) (hb : b.toNat < 2 ^ 32) :
    a + b = 0 ↔ a = 0 ∧ b = 0 := by
  rw [← BitVec.toNat_inj, ← BitVec.toNat_inj, ← BitVec.toNat_inj, BitVec.toNat_add]
  have hzero : (0 : BitVec 64).toNat = 0 := rfl
  rw [hzero]
  omega

theorem or_eq_zero {a b : BitVec 64} : a ||| b = 0 ↔ a = 0 ∧ b = 0 := BitVec.or_eq_zero_iff

/-- On the same words, only the two operators without a case are wrong. -/
theorem getEvent_eq_holds {op : Oprator} {w : BitVec 32} (hop : Oprator.ofWord w = some op)
    (hsub : op ≠ .sub) (hxor : op ≠ .bitwise) (a b : BitVec 64) :
    getEvent a b w = op.holds a b := by
  rw [getEvent, hop]
  cases op
  case sub => exact absurd rfl hsub
  case bitwise => exact absurd rfl hxor
  all_goals rfl

theorem bne_zero_congr {a b : BitVec 64} (h : a = 0 ↔ b = 0) : (a != 0) = (b != 0) := by
  rw [Bool.eq_iff_iff, bne_iff_ne, bne_iff_ne]
  exact not_congr h

/-- Two parameters of the same encoding that is not plain. -/
theorem exists_swapped {l r : Encoding} (h : (l == r && l != .vid) = true)
    (hl : l.isPlain = false) : ∃ bytes, l = .swapped bytes ∧ r = .swapped bytes := by
  obtain ⟨rfl, hvid⟩ : l = r ∧ l ≠ .vid := by
    simpa only [Bool.and_eq_true, beq_iff_eq, bne_iff_ne] using h
  cases l with
  | plain bits => cases hl
  | vid => exact absurd rfl hvid
  | swapped bytes => exact ⟨bytes, rfl, rfl⟩

theorem holds_of_keeps {op : Oprator} {l r : Encoding} (hl : l.bits ≤ 64) (hr : r.bits ≤ 64)
    (h : op.keeps l r = true) (u v : BitVec 64) :
    op.holds (l.load u) (r.load v) = op.holds (l.number u) (r.number v) := by
  by_cases hplain : l.isPlain = true ∧ r.isPlain = true
  · rw [Encoding.load_eq_number u hplain.1, Encoding.load_eq_number v hplain.2]
  have hand : (l.isPlain && r.isPlain) = false := by
    rw [← Bool.not_eq_true, Bool.and_eq_true]
    exact hplain
  have hsame (hs : (l == r && l != .vid) = true) :
      ∃ bytes, l = .swapped bytes ∧ r = .swapped bytes := by
    refine exists_swapped hs ?_
    obtain ⟨rfl, -⟩ : l = r ∧ l ≠ .vid := by
      simpa only [Bool.and_eq_true, beq_iff_eq, bne_iff_ne] using hs
    rwa [Bool.and_self] at hand
  cases op with
  | non => rfl
  | sub | bitwise => cases h
  | greater | less | equalgreater | equalless => exact absurd (hand.symm.trans h) (by decide)
  | isequal =>
    rw [Oprator.keeps, hand, Bool.false_or] at h
    obtain ⟨bytes, rfl, rfl⟩ := hsame h
    rw [Oprator.holds, Oprator.holds, Bool.eq_iff_iff, beq_iff_eq, beq_iff_eq]
    exact Encoding.load_inj_swapped u v hl
  | bitand =>
    rw [Oprator.keeps, hand, Bool.false_or] at h
    obtain ⟨bytes, rfl, rfl⟩ := hsame h
    exact bne_zero_congr (Encoding.load_and_swapped u v hl)
  | bitor =>
    obtain ⟨hlv, hrv⟩ : l ≠ .vid ∧ r ≠ .vid := by
      simpa only [Oprator.keeps, Bool.and_eq_true, bne_iff_ne] using h
    apply bne_zero_congr
    rw [or_eq_zero, or_eq_zero, Encoding.load_eq_zero u hl hlv, Encoding.load_eq_zero v hr hrv]
  | add =>
    rw [Oprator.keeps, hand, Bool.false_or, Bool.and_eq_true] at h
    obtain ⟨hul, hun⟩ := Encoding.toNat_lt_of_isShort u h.1
    obtain ⟨hvl, hvn⟩ := Encoding.toNat_lt_of_isShort v h.2
    apply bne_zero_congr
    rw [add_eq_zero_of_short hul hvl, add_eq_zero_of_short hun hvn,
      Encoding.load_eq_zero u hl (Encoding.isShort_iff.mp h.1).1,
      Encoding.load_eq_zero v hr (Encoding.isShort_iff.mp h.2).1]

/-- A parameter and itself. -/
theorem holds_of_keepsSelf {op : Oprator} {e : Encoding} (he : e.bits ≤ 64)
    (h : op.keepsSelf e = true) (u : BitVec 64) :
    op.holds (e.load u) (e.load u) = op.holds (e.number u) (e.number u) := by
  cases op with
  | bitand =>
    refine holds_of_keeps he he ?_ u u
    rw [Oprator.keeps, beq_self_eq_true, Bool.true_and]
    exact Bool.or_eq_true_iff.mpr (.inr h)
  | bitor =>
    refine holds_of_keeps he he ?_ u u
    exact Bool.and_eq_true_iff.mpr ⟨h, h⟩
  | add =>
    refine holds_of_keeps he he ?_ u u
    exact Bool.or_eq_true_iff.mpr (.inr (Bool.and_eq_true_iff.mpr ⟨h, h⟩))
  | non => rfl
  | isequal | sub | bitwise | greater | less | equalgreater | equalless =>
    simp [Oprator.holds, BitVec.ult, BitVec.ule]

/-! ## Words of a flow -/

theorem bits_le {t : ParamType} : t.encoding.bits ≤ 64 := by
  cases t <;> decide

section

variable {t : ParamType} {w : BitVec 32} (hw : ParamType.ofWord w = some t)
include hw

theorem eventOperand_eq (fl : Flow) (tcpFlags : BitVec 16) (value : BitVec 64) :
    eventOperand fl tcpFlags w value =
      if t = .const then value else getEventParam fl tcpFlags w := by
  rw [eventOperand, hw]
  by_cases hconst : t = .const
  · rw [if_pos hconst, if_pos (congrArg some hconst)]
  · rw [if_neg hconst, if_neg fun h => hconst (Option.some.inj h)]

/-- The operand is loaded with the bits of the parameter, and its number is decoded from it. -/
theorem operand_decoded (ht : t ∈ ParamType.numbers) (fl : Flow) (tcpFlags : BitVec 16)
    (value : BitVec 64) :
    t.encoding.load (eventOperand fl tcpFlags w value) = eventOperand fl tcpFlags w value ∧
      t.encoding.number (eventOperand fl tcpFlags w value) = t.number fl tcpFlags value := by
  have hset {n : Nat} (hn : n ≤ 64) (x : BitVec n) : (x.setWidth 64).setWidth n = x :=
    (BitVec.setWidth_setWidth_of_le x hn).trans (BitVec.setWidth_eq x)
  rw [eventOperand_eq hw, getEventParam, hw]
  cases t
  case non | dlVlanPcp | dlSrc | dlDst => exact absurd ht (by decide)
  all_goals
    simp [ParamType.encoding, Encoding.load, Encoding.number, Encoding.bits, ParamType.number, hset]

end

theorem eventsMeant_of_faithful {lt rt : ParamType} {op : Oprator} (hl : lt ∈ ParamType.numbers)
    (hr : rt ∈ ParamType.numbers) (h : Faithful lt op rt = true) : EventsMeant lt op rt := by
  intro e hlw how hrw fl tcpFlags
  obtain ⟨hll, hln⟩ := operand_decoded hlw hl fl tcpFlags e.paramLeft
  obtain ⟨hrl, hrn⟩ := operand_decoded hrw hr fl tcpFlags e.paramRight
  rw [SttMatchEntry.event, ← hln, ← hrn]
  rw [Faithful] at h
  by_cases hself : lt = rt ∧ lt ≠ .const
  · obtain ⟨rfl, hconst⟩ := hself
    rw [if_pos ⟨rfl, hconst⟩] at h
    have hsame : eventOperand fl tcpFlags e.paramRightType e.paramRight =
        eventOperand fl tcpFlags e.paramLeftType e.paramLeft := by
      rw [eventOperand_eq hlw, eventOperand_eq hrw, if_neg hconst, if_neg hconst, getEventParam,
        getEventParam, hlw, hrw]
    rw [hsame, ← holds_of_keepsSelf bits_le h, hll]
    -- Neither a difference nor an exclusive or of a number and itself is ever true.
    by_cases hnocase : op = .sub ∨ op = .bitwise
    · rcases hnocase with rfl | rfl
      · rw [getEvent, how, Oprator.holds, BitVec.sub_self]
        rfl
      · rw [getEvent, how, Oprator.holds, BitVec.xor_self]
        rfl
    · exact getEvent_eq_holds how (fun h => hnocase (.inl h)) (fun h => hnocase (.inr h)) _ _
  · rw [if_neg hself] at h
    rw [← holds_of_keeps bits_le bits_le h, hll, hrl]
    refine getEvent_eq_holds how ?_ ?_ _ _
    · rintro rfl
      cases h
    · rintro rfl
      cases h

/-! ## Operators that do not -/

def ParamType.toWord : ParamType → BitVec 32
  | .non => 0 | .inPort => 1 | .dlVlan => 2 | .dlVlanPcp => 3 | .dlType => 4 | .nwTos => 5
  | .nwProto => 6 | .tpSrc => 7 | .tpDst => 8 | .tpFlag => 9 | .dlSrc => 10 | .dlDst => 11
  | .nwSrc => 12 | .nwDst => 13 | .metadata => 14 | .const => 15

def Oprator.toWord : Oprator → BitVec 32
  | .non => 0 | .isequal => 1 | .add => 2 | .sub => 3 | .bitand => 4 | .bitor => 5 | .bitwise => 6
  | .greater => 7 | .less => 8 | .equalgreater => 9 | .equalless => 10

theorem ParamType.ofWord_toWord (t : ParamType) : ParamType.ofWord t.toWord = some t := by
  cases t <;> rfl

theorem Oprator.ofWord_toWord (op : Oprator) : Oprator.ofWord op.toWord = some op := by
  cases op <;> rfl

/-- A flow with a given word in each field that is a parameter. -/
def flowOf (val : ParamType → BitVec 64) : Flow := fun f => match f with
  | .inPort => (val .inPort).setWidth 16
  | .vlanTci => (val .dlVlan).setWidth 16
  | .dlType => (val .dlType).setWidth 16
  | .nwTos => (val .nwTos).setWidth 8
  | .nwProto => (val .nwProto).setWidth 8
  | .tpSrc => (val .tpSrc).setWidth 16
  | .tpDst => (val .tpDst).setWidth 16
  | .nwSrc => (val .nwSrc).setWidth 32
  | .nwDst => (val .nwDst).setWidth 32
  | .metadata => val .metadata
  | _ => 0

/-- Words that tell the encodings apart. -/
def samples : List (BitVec 64 × BitVec 64) :=
  [(0x10, 0x10), (0x12, 0x110), (0x10, 0x1), (0x2, 0xfffffffffffffffe), (0x0, 0x10), (0x10, 0x0),
    (0xfffffffffffffffe, 0x2), (0x80, 0x80)]

def Encoding.all : List Encoding :=
  [.plain 8, .plain 16, .plain 64, .swapped 2, .swapped 4, .swapped 8, .vid]

def Oprator.all : List Oprator :=
  [.non, .isequal, .add, .sub, .bitand, .bitor, .bitwise, .greater, .less, .equalgreater,
    .equalless]

/-- The words of two parameters show that an operator does not keep their meaning. -/
def shows (op : Oprator) (l r : Encoding) (u v : BitVec 64) : Bool :=
  getEvent (l.load u) (r.load v) op.toWord != op.holds (l.number u) (r.number v)

theorem samples_show : ∀ op ∈ Oprator.all, ∀ l ∈ Encoding.all, ∀ r ∈ Encoding.all,
    op.keeps l r = false → samples.any (fun x => shows op l r x.1 x.2) = true := by
  decide +kernel

theorem samples_showSelf : ∀ op ∈ Oprator.all, ∀ e ∈ Encoding.all, e ≠ .plain 64 →
    op.keepsSelf e = false → samples.any (fun x => shows op e e x.1 x.1) = true := by
  decide +kernel

theorem Oprator.mem_all (op : Oprator) : op ∈ Oprator.all := by
  cases op <;> decide

theorem ParamType.encoding_mem_all {t : ParamType} (ht : t ∈ ParamType.numbers) :
    t.encoding ∈ Encoding.all := by
  revert ht
  cases t <;> decide

/-- What `flowOf` puts into a field is what is loaded from it. -/
theorem operand_flowOf {t : ParamType} (ht : t ∈ ParamType.numbers) (val : ParamType → BitVec 64)
    (value : BitVec 64) :
    eventOperand (flowOf val) ((val .tpFlag).setWidth 16) t.toWord value =
      t.encoding.load (if t = .const then value else val t) := by
  rw [eventOperand_eq t.ofWord_toWord, getEventParam, t.ofWord_toWord]
  cases t
  case non | dlVlanPcp | dlSrc | dlDst => exact absurd ht (by decide)
  all_goals simp [ParamType.encoding, Encoding.load, Encoding.bits, flowOf]

theorem number_flowOf {t : ParamType} (ht : t ∈ ParamType.numbers) (val : ParamType → BitVec 64)
    (value : BitVec 64) :
    t.number (flowOf val) ((val .tpFlag).setWidth 16) value =
      t.encoding.number (if t = .const then value else val t) := by
  cases t
  case non | dlVlanPcp | dlSrc | dlDst => exact absurd ht (by decide)
  all_goals simp [ParamType.encoding, Encoding.number, ParamType.number, flowOf]

/-- Words that show a difference are found in a packet and the constants of an entry. -/
theorem not_shows_of_eventsMeant {lt rt : ParamType} {op : Oprator} (hl : lt ∈ ParamType.numbers)
    (hr : rt ∈ ParamType.numbers) (h : EventsMeant lt op rt) (val : ParamType → BitVec 64)
    (u v : BitVec 64) :
    shows op lt.encoding rt.encoding (if lt = .const then u else val lt)
      (if rt = .const then v else val rt) = false := by
  have hevent := h ⟨lt.toWord, u, op.toWord, rt.toWord, v, 0, 0⟩ lt.ofWord_toWord
    op.ofWord_toWord rt.ofWord_toWord (flowOf val) ((val .tpFlag).setWidth 16)
  rw [SttMatchEntry.event, operand_flowOf hl, operand_flowOf hr, number_flowOf hl,
    number_flowOf hr] at hevent
  rw [shows, hevent, bne_self_eq_false]

theorem faithful_of_eventsMeant {lt rt : ParamType} {op : Oprator} (hl : lt ∈ ParamType.numbers)
    (hr : rt ∈ ParamType.numbers) (h : EventsMeant lt op rt) : Faithful lt op rt = true := by
  have hnot := not_shows_of_eventsMeant hl hr h
  rw [Faithful]
  by_contra hbad
  rw [Bool.not_eq_true] at hbad
  by_cases hself : lt = rt ∧ lt ≠ .const
  · obtain ⟨rfl, hconst⟩ := hself
    rw [if_pos ⟨rfl, hconst⟩] at hbad
    have hfield : lt.encoding ≠ .plain 64 := by
      revert hconst
      cases lt <;> decide
    obtain ⟨x, -, hx⟩ := List.any_eq_true.mp
      (samples_showSelf op op.mem_all _ (ParamType.encoding_mem_all hl) hfield hbad)
    have hsame := hnot (fun _ => x.1) 0 0
    rw [if_neg hconst] at hsame
    exact absurd (hsame.symm.trans hx) (by decide)
  · rw [if_neg hself] at hbad
    obtain ⟨x, -, hx⟩ := List.any_eq_true.mp (samples_show op op.mem_all _
      (ParamType.encoding_mem_all hl) _ (ParamType.encoding_mem_all hr) hbad)
    have hpair := hnot (fun t => if t = lt then x.1 else x.2) x.1 x.2
    have hleft : (if lt = .const then x.1 else if lt = lt then x.1 else x.2) = x.1 := by
      rw [if_pos rfl, ite_self]
    have hright : (if rt = .const then x.2 else if rt = lt then x.1 else x.2) = x.2 := by
      by_cases hconst : rt = .const
      · rw [if_pos hconst]
      · rw [if_neg hconst, if_neg fun heq : rt = lt => hself ⟨heq.symm, heq ▸ hconst⟩]
    rw [hleft, hright] at hpair
    exact absurd (hpair.symm.trans hx) (by decide)

/-- Exactly these events mean what the controller wrote, for all constants and packets. -/
theorem eventsMeant_iff_faithful (lt rt : ParamType) (op : Oprator) (hl : lt ∈ ParamType.numbers)
    (hr : rt ∈ ParamType.numbers) : EventsMeant lt op rt ↔ Faithful lt op rt = true :=
  ⟨faithful_of_eventsMeant hl hr, eventsMeant_of_faithful hl hr⟩

/-- The protocol number may be compared with a constant. -/
theorem eventsMeant_proto : Faithful .nwProto .isequal .const = true ∧
    EventsMeant .nwProto .isequal .const :=
  ⟨by decide, (eventsMeant_iff_faithful _ _ _ (by decide) (by decide)).mpr (by decide)⟩

/-- The event of the reflection defence: the source port is 53. -/
def fromDnsPort : SttMatchEntry := ⟨7, 1, 1, 15, 53, 2, 1⟩

def udpFromPort (port : BitVec 16) : Flow := fun f => match f with
  | .dlType => htons 0x0800
  | .nwProto => 17
  | .tpSrc => htons port
  | _ => 0

/-- It does not occur for a packet from port 53, and it occurs for one from port 13568. -/
theorem dns_event_swapped :
    ParamType.tpSrc.number (udpFromPort 53) 0 0 = 53 ∧ fromDnsPort.event (udpFromPort 53) 0 = false ∧
      ParamType.tpSrc.number (udpFromPort 13568) 0 0 = 13568 ∧
        fromDnsPort.event (udpFromPort 13568) 0 = true := by
  decide

end Sdpa.Switch
