import Mathlib.Tactic.IntervalCases
import Sdpa.Controller.SfaUtil
import Sdpa.Switch.MatchKeys
import Sdpa.Switch.Ofpact

/-!
# Flow keys on both sides

The controller files a connection under the two strings it computes from a
packet-in, and the switch looks packets up under the string of `parse_match`. Both
print the addresses alike, but not ports, the Ethernet type and reserved input
ports: the switch prints the bytes of a network-order field as they lie, unsigned,
and stops before the destination port; the controller prints signed values, and
ports of TCP only. Nor do they agree on when a fragment has ports.
-/
namespace Sdpa.Protocol

open Sdpa.Lib.Endian
open Sdpa.Lib.Decimal
open Sdpa.Controller
open Sdpa.Switch

/-- An IPv4 packet that carries TCP, or else UDP, or a fragment of one. The ports are the
first words of its payload, whatever they are in a later fragment. -/
structure TransportPacket where
  nwSrc : BitVec 32
  nwDst : BitVec 32
  isTcp : Bool
  dontFragment : Bool := false
  moreFragments : Bool := false
  fragmentOffset : BitVec 13 := 0
  tpSrc : BitVec 16
  tpDst : BitVec 16
  deriving DecidableEq

namespace TransportPacket

def reply (p : TransportPacket) : TransportPacket :=
  { p with nwSrc := p.nwDst, nwDst := p.nwSrc, tpSrc := p.tpDst, tpDst := p.tpSrc }

/-- `IP_IS_FRAGMENT`. -/
def ipIsFragment (p : TransportPacket) : Bool := p.moreFragments || p.fragmentOffset != 0

/-- `IPv4.isFragment`: a packet that must not be fragmented is taken for none. -/
def isFragment (p : TransportPacket) : Bool := !p.dontFragment && p.ipIsFragment

/-- What the controller parses from the payload of the packet-in. Fragments are `Data`. -/
def toEthernet (p : TransportPacket) (srcMAC dstMAC : BitVec 48) : Ethernet where
  sourceMAC := srcMAC
  destinationMAC := dstMAC
  etherType := 0x0800
  payload := some ⟨p.nwSrc, p.nwDst,
    if p.isFragment then .other
    else if p.isTcp then .tcp p.tpSrc p.tpDst else .udp p.tpSrc p.tpDst⟩

/-- The switch has the ports of the packet: `flow_extract` leaves out those of later fragments,
and `xlate_actions` those of all fragments where the bridge handles them as `normal`. -/
def hasPorts (p : TransportPacket) (frag : FragHandling) : Bool :=
  p.fragmentOffset == 0 && !(p.ipIsFragment && frag == .normal)

/-- What the switch has of the packet. The fields that are of no concern here are those of
`base`. -/
def toFlow (p : TransportPacket) (frag : FragHandling) (base : Flow) (inPort : BitVec 16) : Flow
  | .inPort => inPort
  | .dlType => htons 0x0800
  | .nwSrc => htonl p.nwSrc
  | .nwDst => htonl p.nwDst
  | .nwProto => if p.isTcp then 6 else 17
  | .tpSrc => if p.hasPorts frag then htons p.tpSrc else 0
  | .tpDst => if p.hasPorts frag then htons p.tpDst else 0
  | f => base f

/-- The controller has ports to print. -/
def printsPorts (p : TransportPacket) : Bool := !p.isFragment && p.isTcp

end TransportPacket

/-- The bitmap selects fields that both sides implement with well-defined code. -/
def OverBothSides (bitmap : BitVec 64) : Prop :=
  ∀ i, bitmap.getLsbD i = true → i ∈ [5, 8, 15, 16, 25, 26]

/-- A text that is there if its bit is. -/
def opt (b : Bool) (text : List Byte) : List Byte := if b then text else []

@[simp] theorem opt_true (text : List Byte) : opt true text = text := rfl
@[simp] theorem opt_false (text : List Byte) : opt false text = [] := rfl

section

variable {bitmap : BitVec 64}

theorem OverBothSides.wellDefined (h : OverBothSides bitmap) : WellDefined bitmap := by
  intro i hi
  have hall : ∀ j ∈ [5, 8, 15, 16, 25, 26], (bitField j).isSome = true := by decide
  exact hall i (h i hi)

theorem OverBothSides.eq_false (h : OverBothSides bitmap) {i : Nat}
    (hi : i ∉ [5, 8, 15, 16, 25, 26]) : bitmap.getLsbD i = false := by
  cases hb : bitmap.getLsbD i with
  | false => rfl
  | true => exact absurd (h i hb) hi

/-- The string of the switch, field by field. -/
theorem switch_text (h : OverBothSides bitmap) (text : Nat → List Byte) :
    (selected bitmap).flatMap text =
      opt (bitmap.getLsbD 5) (text 5) ++ (opt (bitmap.getLsbD 8) (text 8) ++
        (opt (bitmap.getLsbD 15) (text 15) ++ (opt (bitmap.getLsbD 16) (text 16) ++
          opt (bitmap.getLsbD 25) (text 25)))) := by
  have hsel : (selected bitmap).flatMap text =
      (selected bitmap).flatMap (fun i => opt (bitmap.getLsbD i) (text i)) := by
    apply List.flatMap_congr
    intro i hi
    rw [(mem_selected.mp hi).2, opt_true]
  have hbits : (List.range 26).filter (fun i => decide (i ∈ [5, 8, 15, 16, 25, 26])) =
      [5, 8, 15, 16, 25] := by decide
  rw [hsel, selected, flatMap_filter_of_nil _ (fun i _ hi => by rw [hi, opt_false]),
    ← flatMap_filter_of_nil (fun i => decide (i ∈ [5, 8, 15, 16, 25, 26]))
      (fun i _ hi => by rw [h.eq_false (of_decide_eq_false hi), opt_false]), hbits]
  simp

/-- The string of the controller, field by field. -/
theorem controller_text (h : OverBothSides bitmap) (inPort : BitVec 32) (etherType : BitVec 16)
    (d : Direction) :
    directionData bitmap inPort etherType d =
      opt (bitmap.getLsbD 5) (directionField inPort etherType d 5) ++
        (opt (bitmap.getLsbD 8) (directionField inPort etherType d 8) ++
          (opt (bitmap.getLsbD 15) (directionField inPort etherType d 15) ++
            (opt (bitmap.getLsbD 16) (directionField inPort etherType d 16) ++
              (opt (bitmap.getLsbD 25) (directionField inPort etherType d 25) ++
                opt (bitmap.getLsbD 26) (directionField inPort etherType d 26))))) := by
  have hbits : (List.range 64).filter (fun i => decide (i ∈ [5, 8, 15, 16, 25, 26])) =
      [5, 8, 15, 16, 25, 26] := by decide
  have hnone : ∀ i ∈ List.range 64, decide (i ∈ [5, 8, 15, 16, 25, 26]) = false →
      (if bitSet bitmap i then directionField inPort etherType d i else []) = [] := by
    intro i _ hi
    have hmem := of_decide_eq_false hi
    by_cases hmac : i = 6 ∨ i = 7
    · rw [bitSet_eq_getLsbD bitmap (by omega), h.eq_false hmem]
      rfl
    · have hfield : directionField inPort etherType d i = [] := by
        simp only [List.mem_cons, List.not_mem_nil, or_false, not_or] at hmem
        unfold directionField
        split <;> first | omega | rfl
      rw [hfield, ite_self]
  rw [directionData, ← flatMap_filter_of_nil _ hnone, hbits]
  simp only [List.flatMap_cons, List.flatMap_nil, List.append_nil,
    bitSet_eq_getLsbD bitmap (by decide : 5 < 31), bitSet_eq_getLsbD bitmap (by decide : 8 < 31),
    bitSet_eq_getLsbD bitmap (by decide : 15 < 31), bitSet_eq_getLsbD bitmap (by decide : 16 < 31),
    bitSet_eq_getLsbD bitmap (by decide : 25 < 31), bitSet_eq_getLsbD bitmap (by decide : 26 < 31)]
  rfl

end

/-! ## Ports -/

/-- A port that both sides print alike: its two bytes are equal and not negative. -/
def SwapsToItself (port : BitVec 16) : Prop := port.toNat < 32768 ∧ htons port = port

instance (port : BitVec 16) : Decidable (SwapsToItself port) := inferInstanceAs (Decidable (_ ∧ _))

theorem htons_toNat (v : BitVec 16) :
    (htons v).toNat = v.toNat / 256 + 256 * (v.toNat % 256) := by
  have hlt := v.isLt
  have h := bswap_toNat 2 v
  simp only [beBytes, leBytes, List.reverse_cons, List.reverse_nil, List.nil_append,
    List.cons_append, leNat, BitVec.toNat_ofNat] at h
  change (bswap 2 v).toNat = _
  rw [h]
  omega

theorem valueOf_of_lt {w : Nat} {v : BitVec w} (h : 2 * v.toNat < 2 ^ w) :
    valueOf v = decimal v.toNat := by
  rw [valueOf, BitVec.toInt_eq_toNat_of_lt h]
  rfl

theorem valueOf_of_ge {w : Nat} {v : BitVec w} (h : 2 ^ w ≤ 2 * v.toNat) :
    ∃ t, valueOf v = 45 :: t := by
  have hneg : v.toInt < 0 := by
    rw [BitVec.toInt_eq_toNat_cond, if_neg (by omega)]
    have := v.isLt
    omega
  obtain ⟨n, hn⟩ := Int.eq_negSucc_of_lt_zero hneg
  exact ⟨decimal (n + 1), by rw [valueOf, hn, intDecimal]⟩

/-- A minus sign is not the start of an unsigned number. -/
theorem decimal_append_ne_minus (n : Nat) (l l' : List Byte) : decimal n ++ l ≠ 45 :: l' := by
  intro h
  obtain ⟨b, bs, hb⟩ := List.exists_cons_of_ne_nil (decimal_ne_nil n)
  rw [hb, List.cons_append] at h
  have hdigit : IsDigit b := isDigit_of_mem_decimal (n := n) (hb ▸ List.mem_cons_self)
  rw [List.head_eq_of_cons_eq h] at hdigit
  exact absurd hdigit.1 (by decide)

theorem swapped_eq_iff (port : BitVec 16) :
    decimal (htons port).toNat = valueOf port ↔ SwapsToItself port := by
  by_cases hlt : port.toNat < 32768
  · rw [valueOf_of_lt (by omega)]
    constructor
    · intro h
      exact ⟨hlt, BitVec.eq_of_toNat_eq (decimal_injective h)⟩
    · rintro ⟨-, h⟩
      rw [h]
  · obtain ⟨t, ht⟩ := valueOf_of_ge (v := port) (by omega)
    rw [ht]
    constructor
    · intro h
      rw [← List.append_nil (decimal _)] at h
      exact absurd h (decimal_append_ne_minus _ _ _)
    · rintro ⟨h, -⟩
      exact absurd h hlt

/-- The arithmetic of a swapped port that starts with the digits of the port. -/
private theorem swap_shift_ne {a b k r : Nat} (ha : a < 256) (hb : b < 256) (hpos : 0 < 256 * a + b)
    (hk : 1 ≤ k) (hr : r < 10 ^ k) : a + 256 * b ≠ (256 * a + b) * 10 ^ k + r := by
  intro h
  have hle : 10 ^ k ≤ (256 * a + b) * 10 ^ k := Nat.le_mul_of_pos_left _ hpos
  have hk4 : k < 5 := by
    by_contra hge
    have hpow : 10 ^ 5 ≤ 10 ^ k := Nat.pow_le_pow_right (by omega) (by omega)
    omega
  obtain rfl | rfl | rfl | rfl : k = 1 ∨ k = 2 ∨ k = 3 ∨ k = 4 := by omega
  · have ha24 : a ≤ 24 := by omega
    interval_cases a <;> omega
  · have ha1 : a ≤ 1 := by omega
    interval_cases a <;> omega
  · omega
  · omega

/-- A swapped port never continues the digits of the port. -/
theorem swapped_ne_append (port : BitVec 16) {l : List Byte} (hl : l ≠ []) :
    decimal (htons port).toNat ≠ valueOf port ++ l := by
  intro h
  by_cases hlt : port.toNat < 32768
  · rw [valueOf_of_lt (by omega)] at h
    by_cases h0 : port.toNat = 0
    · rw [htons_toNat, h0] at h
      exact hl (List.append_right_eq_self.mp h.symm)
    · obtain ⟨hval, hbound⟩ := decimal_eq_append h
      rw [htons_toNat] at hval
      apply swap_shift_ne (a := port.toNat / 256) (b := port.toNat % 256) (k := l.length)
        (r := value l) (by omega) (by omega) (by omega) (List.length_pos_iff.mpr hl) hbound
      have hport : 256 * (port.toNat / 256) + port.toNat % 256 = port.toNat := by omega
      rw [hport]
      exact hval
  · obtain ⟨t, ht⟩ := valueOf_of_ge (v := port) (by omega)
    rw [ht, ← List.append_nil (decimal _)] at h
    exact decimal_append_ne_minus _ _ _ h

theorem valueOf_ne_nil (port : BitVec 16) : valueOf port ≠ [] := by
  intro h
  by_cases hlt : port.toNat < 32768
  · rw [valueOf_of_lt (by omega)] at h
    exact decimal_ne_nil _ h
  · obtain ⟨t, ht⟩ := valueOf_of_ge (v := port) (by omega)
    rw [ht] at h
    cases h

/-- The switch prints the bytes of a port, or 0 if it has none. -/
def portText (hasPorts : Bool) (port : BitVec 16) : List Byte :=
  decimal (if hasPorts then htons port else 0).toNat

/-- The two sides print the port alike. -/
def PrintedAlike (hasPorts : Bool) (port : BitVec 16) : Prop :=
  if hasPorts then SwapsToItself port else port = 0

instance (hasPorts : Bool) (port : BitVec 16) : Decidable (PrintedAlike hasPorts port) := by
  unfold PrintedAlike
  infer_instance

theorem portText_ne_nil (hasPorts : Bool) (port : BitVec 16) : portText hasPorts port ≠ [] :=
  decimal_ne_nil _

theorem portText_false (port : BitVec 16) : portText false port = [48] := by
  change decimal 0 = [48]
  decide

theorem portText_eq_iff (hasPorts : Bool) (port : BitVec 16) :
    portText hasPorts port = valueOf port ↔ PrintedAlike hasPorts port := by
  cases hasPorts with
  | true => exact swapped_eq_iff port
  | false =>
    have hzero : [48] = valueOf (0 : BitVec 16) := by decide
    rw [portText_false, hzero]
    constructor
    · intro h
      have hread := congrArg readInt h
      rw [valueOf, valueOf, readInt_intDecimal, readInt_intDecimal] at hread
      exact (BitVec.eq_of_toInt_eq (Option.some.inj hread)).symm
    · intro h
      rw [show port = 0 from h]

theorem portText_ne_append (hasPorts : Bool) (port : BitVec 16) {l : List Byte} (hl : l ≠ []) :
    portText hasPorts port ≠ valueOf port ++ l := by
  cases hasPorts with
  | true => exact swapped_ne_append port hl
  | false =>
    intro h
    have hlen := congrArg List.length h
    have hport := List.length_pos_iff.mpr (valueOf_ne_nil port)
    have hrest := List.length_pos_iff.mpr hl
    rw [portText_false, List.length_singleton, List.length_append] at hlen
    omega

theorem inPortText_of_lt {port : BitVec 16} (h : port.toNat < 0xff00) :
    valueOf (ofputilPortToOfp11 port) = decimal port.toNat := by
  have hn : (port.setWidth 32).toNat = port.toNat := by
    rw [BitVec.toNat_setWidth]
    omega
  rw [ofputilPortToOfp11, if_pos h, valueOf_of_lt (by rw [hn]; omega), hn]

theorem inPortText_of_ge {port : BitVec 16} (h : 0xff00 ≤ port.toNat) :
    ∃ t, valueOf (ofputilPortToOfp11 port) = 45 :: t := by
  have hlt := port.isLt
  rw [ofputilPortToOfp11, if_neg (by omega)]
  apply valueOf_of_ge
  rw [BitVec.toNat_add, BitVec.toNat_setWidth]
  change _ ≤ 2 * ((port.toNat % 2 ^ 32 + 4294901760) % 2 ^ 32)
  omega

theorem inPortText_opt {b : Bool} {port : BitVec 16} (h : b = true → port.toNat < 0xff00) :
    opt b (valueOf (ofputilPortToOfp11 port)) = opt b (decimal port.toNat) := by
  cases b with
  | true => rw [inPortText_of_lt (h rfl)]
  | false => rfl

/-! ## The two directions -/

/-- The keys of a packet and of its reply, on both sides. The reply arrives on a
port of its own. -/
def KeysAgree (bitmap : BitVec 64) (p : TransportPacket) (frag : FragHandling)
    (inPort replyPort : BitVec 16) (base replyBase : Flow) (srcMAC dstMAC : BitVec 48) : Prop :=
  parseMatch (p.toFlow frag base inPort) bitmap = .ok (some (getFDirectionDataFromPktIn bitmap
      (ofputilPortToOfp11 inPort) (p.toEthernet srcMAC dstMAC))) ∧
  parseMatch (p.reply.toFlow frag replyBase replyPort) bitmap = .ok (some (getBDirectionDataFromPktIn
      bitmap (ofputilPortToOfp11 inPort) (p.toEthernet srcMAC dstMAC)))

theorem addressText (addr : BitVec 32) : inetNtoa (htonl addr) = fromIPv4Address addr := by
  have h := leBytes_bswap 4 addr
  exact congrArg dotted h

section

variable {bitmap : BitVec 64} (hb : OverBothSides bitmap) (p : TransportPacket)
  (frag : FragHandling) (base : Flow) (srcMAC dstMAC : BitVec 48)
include hb

theorem switchKey_eq (inPort : BitVec 16) :
    (selected bitmap).flatMap (fieldText (p.toFlow frag base inPort)) =
      opt (bitmap.getLsbD 5) (decimal inPort.toNat) ++ (opt (bitmap.getLsbD 8) [56] ++
        (opt (bitmap.getLsbD 15) (fromIPv4Address p.nwSrc) ++
          (opt (bitmap.getLsbD 16) (fromIPv4Address p.nwDst) ++
            opt (bitmap.getLsbD 25) (portText (p.hasPorts frag) p.tpSrc)))) := by
  have h8 : fieldText (p.toFlow frag base inPort) 8 = [56] := by
    change decimal (htons 0x0800).toNat = _
    decide
  rw [switch_text hb, h8, ← addressText, ← addressText]
  rfl

theorem forwardKey_eq (inPort : BitVec 32) :
    getFDirectionDataFromPktIn bitmap inPort (p.toEthernet srcMAC dstMAC) =
      opt (bitmap.getLsbD 5) (valueOf inPort) ++ (opt (bitmap.getLsbD 8) [50, 48, 52, 56] ++
        (opt (bitmap.getLsbD 15) (fromIPv4Address p.nwSrc) ++
          (opt (bitmap.getLsbD 16) (fromIPv4Address p.nwDst) ++
            (opt (bitmap.getLsbD 25) (opt p.printsPorts (valueOf p.tpSrc)) ++
              opt (bitmap.getLsbD 26) (opt p.printsPorts (valueOf p.tpDst)))))) := by
  have h8 : valueOf (0x0800 : BitVec 16) = [50, 48, 52, 56] := by decide
  rw [getFDirectionDataFromPktIn, controller_text hb]
  simp only [directionField, forward, TransportPacket.toEthernet, tcpPorts, h8,
    TransportPacket.printsPorts]
  cases p.isFragment <;> cases p.isTcp <;> rfl

theorem backwardKey_eq (inPort : BitVec 32) :
    getBDirectionDataFromPktIn bitmap inPort (p.toEthernet srcMAC dstMAC) =
      opt (bitmap.getLsbD 5) (valueOf inPort) ++ (opt (bitmap.getLsbD 8) [50, 48, 52, 56] ++
        (opt (bitmap.getLsbD 15) (fromIPv4Address p.nwDst) ++
          (opt (bitmap.getLsbD 16) (fromIPv4Address p.nwSrc) ++
            (opt (bitmap.getLsbD 25) (opt p.printsPorts (valueOf p.tpDst)) ++
              opt (bitmap.getLsbD 26) (opt p.printsPorts (valueOf p.tpSrc)))))) := by
  have h8 : valueOf (0x0800 : BitVec 16) = [50, 48, 52, 56] := by decide
  rw [getBDirectionDataFromPktIn, controller_text hb]
  simp only [directionField, backward, TransportPacket.toEthernet, tcpPorts, h8,
    TransportPacket.printsPorts]
  cases p.isFragment <;> cases p.isTcp <;> rfl

theorem selected_ne_nil_iff : selected bitmap ≠ [] ↔
    bitmap.getLsbD 5 = true ∨ bitmap.getLsbD 8 = true ∨ bitmap.getLsbD 15 = true ∨
      bitmap.getLsbD 16 = true ∨ bitmap.getLsbD 25 = true := by
  constructor
  · intro h
    obtain ⟨i, hi⟩ := List.exists_mem_of_ne_nil _ h
    obtain ⟨hlt, hbit⟩ := mem_selected.mp hi
    have hmem := hb i hbit
    simp only [List.mem_cons, List.not_mem_nil, or_false] at hmem
    obtain rfl | rfl | rfl | rfl | rfl | rfl := hmem
    · exact .inl hbit
    · exact .inr (.inl hbit)
    · exact .inr (.inr (.inl hbit))
    · exact .inr (.inr (.inr (.inl hbit)))
    · exact .inr (.inr (.inr (.inr hbit)))
    · omega
  · intro h
    obtain ⟨i, hlt, hbit⟩ : ∃ i, i < 26 ∧ bitmap.getLsbD i = true := by
      obtain h | h | h | h | h := h
      · exact ⟨5, by omega, h⟩
      · exact ⟨8, by omega, h⟩
      · exact ⟨15, by omega, h⟩
      · exact ⟨16, by omega, h⟩
      · exact ⟨25, by omega, h⟩
    exact List.ne_nil_of_mem (mem_selected.mpr ⟨hlt, hbit⟩)

end

/-- Neither side prints a transport port of the packet, or both print `port` alike. -/
def PortsAlike (bitmap : BitVec 64) (p : TransportPacket) (frag : FragHandling)
    (port : BitVec 16) : Prop :=
  (bitmap.getLsbD 25 = false ∧ (bitmap.getLsbD 26 = true → p.printsPorts = false)) ∨
    (bitmap.getLsbD 25 = true ∧ bitmap.getLsbD 26 = false ∧ p.printsPorts = true ∧
      PrintedAlike (p.hasPorts frag) port)

instance (bitmap : BitVec 64) (p : TransportPacket) (frag : FragHandling) (port : BitVec 16) :
    Decidable (PortsAlike bitmap p frag port) := by
  unfold PortsAlike
  infer_instance

theorem portsAlike_iff (bitmap : BitVec 64) (p : TransportPacket) (frag : FragHandling)
    (src dst : BitVec 16) :
    opt (bitmap.getLsbD 25) (portText (p.hasPorts frag) src) =
        opt (bitmap.getLsbD 25) (opt p.printsPorts (valueOf src)) ++
          opt (bitmap.getLsbD 26) (opt p.printsPorts (valueOf dst)) ↔
      PortsAlike bitmap p frag src := by
  have hsrc := portText_eq_iff (p.hasPorts frag) src
  have hlong := portText_ne_append (p.hasPorts frag) src (valueOf_ne_nil dst)
  have hdec := portText_ne_nil (p.hasPorts frag) src
  unfold PortsAlike
  cases bitmap.getLsbD 25 <;> cases bitmap.getLsbD 26 <;> cases p.printsPorts <;>
    simp [hsrc, hlong, hdec, Ne.symm (valueOf_ne_nil dst)]

/-- A text that starts with an address. -/
theorem addresses_text {b15 b16 : Bool} (h : b15 = true ∨ b16 = true) (a₁ a₂ : BitVec 32) :
    ∃ n r, ∀ l, opt b15 (fromIPv4Address a₁) ++ (opt b16 (fromIPv4Address a₂) ++ l) =
      decimal n ++ 46 :: (r ++ l) := by
  have hquad : ∀ a : BitVec 32, ∃ n r, fromIPv4Address a = decimal n ++ 46 :: r :=
    fun a => ⟨_, _, rfl⟩
  obtain ⟨n₁, r₁, h₁⟩ := hquad a₁
  obtain ⟨n₂, r₂, h₂⟩ := hquad a₂
  cases b15 with
  | true =>
    refine ⟨n₁, r₁ ++ opt b16 (fromIPv4Address a₂), fun l => ?_⟩
    rw [opt_true, h₁]
    simp only [List.append_assoc, List.cons_append]
  | false =>
    obtain rfl : b16 = true := h.resolve_left Bool.false_ne_true
    refine ⟨n₂, r₂, fun l => ?_⟩
    rw [opt_false, opt_true, h₂]
    simp only [List.nil_append, List.append_assoc, List.cons_append]

/-- The first dot shows where an address begins after a number. -/
theorem number_before_address {m m' n : Nat} {r r' : List Byte}
    (h : decimal m ++ (decimal n ++ 46 :: r) = decimal m' ++ (decimal n ++ 46 :: r')) :
    m = m' ∧ r = r' := by
  have hdot : ∀ k : Nat, (46 : Byte) ∉ decimal k ++ decimal n := by
    intro k hk
    rcases List.mem_append.mp hk with hk | hk
    · exact not_mem_decimal not_isDigit_dot hk
    · exact not_mem_decimal not_isDigit_dot hk
  rw [← List.append_assoc, ← List.append_assoc] at h
  obtain ⟨hl, hr⟩ := append_sep_inj (hdot m) (hdot m') h
  exact ⟨decimal_injective (List.append_cancel_right hl), hr⟩

/-- The input port and what follows the addresses can be told apart, if there is an address
between them or nothing behind. -/
theorem inPort_addresses_inj {b5 b15 b16 : Bool} {m n : BitVec 16} {l l' : List Byte}
    (hsep : b5 = true → (b15 = true ∨ b16 = true) ∨ l = l') (a₁ a₂ : BitVec 32) :
    opt b5 (decimal m.toNat) ++
        (opt b15 (fromIPv4Address a₁) ++ (opt b16 (fromIPv4Address a₂) ++ l)) =
      opt b5 (decimal n.toNat) ++
        (opt b15 (fromIPv4Address a₁) ++ (opt b16 (fromIPv4Address a₂) ++ l')) ↔
      (b5 = true → n = m) ∧ l = l' := by
  constructor
  · intro h
    cases b5 with
    | false =>
      refine ⟨fun hb => absurd hb Bool.false_ne_true, ?_⟩
      exact List.append_cancel_left (List.append_cancel_left (List.append_cancel_left h))
    | true =>
      rw [opt_true, opt_true] at h
      rcases hsep rfl with haddr | hl
      · obtain ⟨k, r, htext⟩ := addresses_text haddr a₁ a₂
        rw [htext, htext] at h
        obtain ⟨hport, hrest⟩ := number_before_address h
        exact ⟨fun _ => BitVec.eq_of_toNat_eq hport.symm, List.append_cancel_left hrest⟩
      · rw [hl] at h
        have hport := decimal_injective (List.append_cancel_right h)
        exact ⟨fun _ => BitVec.eq_of_toNat_eq hport.symm, hl⟩
  · rintro ⟨hport, rfl⟩
    cases b5 with
    | false => rfl
    | true => rw [hport rfl]

section

variable {bitmap : BitVec 64} (hb : OverBothSides bitmap) (p : TransportPacket)
  (frag : FragHandling) (base : Flow) (srcMAC dstMAC : BitVec 48) (inPort replyPort : BitVec 16)
include hb

/-- The forward texts agree exactly if nothing is selected that the two sides print
differently for this packet. -/
theorem forwardKey_iff :
    (selected bitmap).flatMap (fieldText (p.toFlow frag base inPort)) =
        getFDirectionDataFromPktIn bitmap (ofputilPortToOfp11 inPort) (p.toEthernet srcMAC dstMAC) ↔
      (bitmap.getLsbD 5 = true → inPort.toNat < 0xff00) ∧ bitmap.getLsbD 8 = false ∧
        PortsAlike bitmap p frag p.tpSrc := by
  rw [switchKey_eq hb, forwardKey_eq hb, ← portsAlike_iff bitmap p frag p.tpSrc p.tpDst]
  have htype : ∀ l l' : List Byte, opt (bitmap.getLsbD 8) [56] ++ l =
      opt (bitmap.getLsbD 8) [50, 48, 52, 56] ++ l' ↔ bitmap.getLsbD 8 = false ∧ l = l' := by
    intro l l'
    cases bitmap.getLsbD 8 <;> simp
  by_cases hin : bitmap.getLsbD 5 = true → inPort.toNat < 0xff00
  · rw [inPortText_opt hin, List.append_right_inj, htype, List.append_right_inj, List.append_right_inj]
    exact ⟨fun h => ⟨hin, h⟩, fun h => h.2⟩
  · have h5 : bitmap.getLsbD 5 = true := by
      by_contra h
      exact hin (fun h' => absurd h' h)
    have hge : 0xff00 ≤ inPort.toNat := by
      by_contra h
      exact hin (fun _ => by omega)
    obtain ⟨t, ht⟩ := inPortText_of_ge hge
    rw [h5, opt_true, opt_true, ht, List.cons_append]
    constructor
    · intro h
      exact absurd h (decimal_append_ne_minus _ _ _)
    · intro h
      exact absurd (fun _ => h.1 rfl) hin

/-- The texts of the reply agree if the same holds of it and it arrives where the packet did. The
converse holds where the digits of the input port do not run into those of another port. -/
theorem backwardKey_iff (h8 : bitmap.getLsbD 8 = false)
    (hin : bitmap.getLsbD 5 = true → inPort.toNat < 0xff00)
    (hsep : bitmap.getLsbD 5 = true → (bitmap.getLsbD 15 = true ∨ bitmap.getLsbD 16 = true) ∨
      PortsAlike bitmap p frag p.tpDst) :
    (selected bitmap).flatMap (fieldText (p.reply.toFlow frag base replyPort)) =
        getBDirectionDataFromPktIn bitmap (ofputilPortToOfp11 inPort) (p.toEthernet srcMAC dstMAC) ↔
      (bitmap.getLsbD 5 = true → inPort = replyPort) ∧ PortsAlike bitmap p frag p.tpDst := by
  rw [switchKey_eq hb, backwardKey_eq hb, inPortText_opt hin, h8, opt_false, opt_false,
    List.nil_append, List.nil_append, ← portsAlike_iff bitmap p frag p.tpDst p.tpSrc]
  rw [← portsAlike_iff bitmap p frag p.tpDst p.tpSrc] at hsep
  exact inPort_addresses_inj hsep p.nwDst p.nwSrc

end

/-- What the bitmap and the packet must be for the two sides to compute one key. -/
structure SameKeys (bitmap : BitVec 64) (p : TransportPacket) (frag : FragHandling)
    (inPort replyPort : BitVec 16) : Prop where
  some_field : bitmap.getLsbD 5 = true ∨ bitmap.getLsbD 15 = true ∨ bitmap.getLsbD 16 = true ∨
    bitmap.getLsbD 25 = true
  no_type : bitmap.getLsbD 8 = false
  physical_port : bitmap.getLsbD 5 = true → inPort.toNat < 0xff00
  reply_port : bitmap.getLsbD 5 = true → inPort = replyPort
  ports : PortsAlike bitmap p frag p.tpSrc
  reply_ports : PortsAlike bitmap p frag p.tpDst

/-- The key does not print the input port and the source port as one run of digits. -/
def Separated (bitmap : BitVec 64) : Prop :=
  bitmap.getLsbD 5 = true → bitmap.getLsbD 25 = true →
    bitmap.getLsbD 15 = true ∨ bitmap.getLsbD 16 = true

/-- Port 1204 before port 80 reads like port 1 before the swapped port. -/
example : decimal 1 ++ portText true 80 = decimal 1204 ++ valueOf (80 : BitVec 16) := by decide

/-- The controller's two strings for a packet-in are those under which the switch looks up the
packet and its reply if `SameKeys` holds, and only if it does where ports are separated. -/
theorem keysAgree_iff {bitmap : BitVec 64} (hb : OverBothSides bitmap) (p : TransportPacket)
    (frag : FragHandling) (inPort replyPort : BitVec 16) (base replyBase : Flow)
    (srcMAC dstMAC : BitVec 48) :
    (SameKeys bitmap p frag inPort replyPort →
      KeysAgree bitmap p frag inPort replyPort base replyBase srcMAC dstMAC) ∧
    (Separated bitmap → KeysAgree bitmap p frag inPort replyPort base replyBase srcMAC dstMAC →
      SameKeys bitmap p frag inPort replyPort) := by
  have hwd := hb.wellDefined
  rw [KeysAgree, parseMatch_eq_some hwd, parseMatch_eq_some hwd, selected_ne_nil_iff hb,
    forwardKey_iff hb]
  constructor
  · intro h
    have hfield := h.some_field.imp_right (Or.inr (a := bitmap.getLsbD 8 = true))
    refine ⟨⟨hfield, h.physical_port, h.no_type, h.ports⟩, hfield, ?_⟩
    exact (backwardKey_iff hb p frag replyBase srcMAC dstMAC inPort replyPort h.no_type
      h.physical_port fun _ => .inr h.reply_ports).mpr ⟨h.reply_port, h.reply_ports⟩
  · rintro hsep ⟨⟨hsome, hin, h8, hports⟩, -, hreply⟩
    rw [h8] at hsome
    have hfield := hsome.imp_right (Or.resolve_left · (by decide))
    -- where no port is printed, there is nothing to tell apart
    have htold : bitmap.getLsbD 5 = true → (bitmap.getLsbD 15 = true ∨ bitmap.getLsbD 16 = true) ∨
        PortsAlike bitmap p frag p.tpDst := by
      intro h5
      rcases hports with hnone | hprinted
      · exact .inr (.inl hnone)
      · exact .inl (hsep h5 hprinted.1)
    obtain ⟨hport, hdst⟩ :=
      (backwardKey_iff hb p frag replyBase srcMAC dstMAC inPort replyPort h8 hin htold).mp hreply
    exact ⟨hfield, h8, hin, hport, hports, hdst⟩

theorem overBothSides_of_forall {bitmap : BitVec 64}
    (h : ∀ i : Fin 64, bitmap.getLsbD i.val = true → i.val ∈ [5, 8, 15, 16, 25, 26]) :
    OverBothSides bitmap :=
  fun i hi => h ⟨i, BitVec.lt_of_getLsbD hi⟩ hi

/-- From 10.0.0.1, port 80, to 10.0.0.2, port 1024. -/
def webReply : TransportPacket where
  nwSrc := 0x0a000001
  nwDst := 0x0a000002
  isTcp := true
  tpSrc := 80
  tpDst := 1024

/-- Its first fragment. -/
def webFragment : TransportPacket := { webReply with moreFragments := true }

theorem keysAgree_iff_firewall :
    KeysAgree firewallBitMap webReply .normal 1 2 (fun _ => 0) (fun _ => 0) 0xaa 0xbb ∧
      KeysAgree firewallBitMap webFragment .normal 1 2 (fun _ => 0) (fun _ => 0) 0xaa 0xbb :=
  ⟨(keysAgree_iff (overBothSides_of_forall (by decide)) webReply .normal 1 2 _ _ 0xaa 0xbb).1
      ⟨by decide, by decide, by decide, by decide, by decide, by decide⟩,
    (keysAgree_iff (overBothSides_of_forall (by decide)) webFragment .normal 1 2 _ _ 0xaa 0xbb).1
      ⟨by decide, by decide, by decide, by decide, by decide, by decide⟩⟩

/-- The rule may also name the source port. -/
def sourcePortBitMap : BitVec 64 := firewallBitMap ||| BitVec.twoPow 64 25

/-- The controller ends the key of `webReply` with 80, the switch with 20480. -/
theorem sourcePort_keys_differ :
    OverBothSides sourcePortBitMap ∧
      getFDirectionDataFromPktIn sourcePortBitMap (ofputilPortToOfp11 1)
          (webReply.toEthernet 0xaa 0xbb) =
        fromIPv4Address 0x0a000001 ++ fromIPv4Address 0x0a000002 ++ [56, 48] ∧
      parseMatch (webReply.toFlow .normal (fun _ => 0) 1) sourcePortBitMap =
        .ok (some (fromIPv4Address 0x0a000001 ++ fromIPv4Address 0x0a000002 ++
          [50, 48, 52, 56, 48])) ∧
      ¬ KeysAgree sourcePortBitMap webReply .normal 1 2 (fun _ => 0) (fun _ => 0) 0xaa 0xbb := by
  have hb : OverBothSides sourcePortBitMap := overBothSides_of_forall (by decide)
  have hkey : getFDirectionDataFromPktIn sourcePortBitMap (ofputilPortToOfp11 1)
      (webReply.toEthernet 0xaa 0xbb) =
        fromIPv4Address 0x0a000001 ++ fromIPv4Address 0x0a000002 ++ [56, 48] := by
    rw [forwardKey_eq hb]
    decide
  have hmatch : parseMatch (webReply.toFlow .normal (fun _ => 0) 1) sourcePortBitMap =
      .ok (some (fromIPv4Address 0x0a000001 ++ fromIPv4Address 0x0a000002 ++
        [50, 48, 52, 56, 48])) := by
    rw [parseMatch_eq_some hb.wellDefined, switchKey_eq hb]
    decide
  refine ⟨hb, hkey, hmatch, fun h => ?_⟩
  have heq := h.1
  rw [hkey, hmatch] at heq
  exact absurd heq (by decide)

end Sdpa.Protocol
