import Mathlib.Algebra.Group.Nat.Defs
import Sdpa.Controller.FirewallRule

/-!
# What a firewall rule matches

A rule for IPv4 should match the packets that agree with it field by field. The
comparison of the ports is never passed, and a prefix of length zero is compared in
full, since Java shifts by 32 places as by none.
-/
namespace Sdpa.Controller.Firewall

open Lib.Checks

/-! ## Prefixes -/

/-- The addresses agree on the top `bits` bits. -/
def TopBitsAgree (bits : Nat) (x y : BitVec 32) : Prop :=
  ∀ i, 32 - bits ≤ i → i < 32 → x.getLsbD i = y.getLsbD i

theorem shifts_eq_iff (x y : BitVec 32) {c : Nat} :
    x.sshiftRight c <<< c = y.sshiftRight c <<< c ↔
      ∀ i, c ≤ i → i < 32 → x.getLsbD i = y.getLsbD i := by
  have hbit : ∀ (z : BitVec 32) i, c ≤ i → i < 32 →
      (z.sshiftRight c <<< c).getLsbD i = z.getLsbD i := by
    intro z i hc hi
    have hback : c + (i - c) = i := by omega
    rw [BitVec.getLsbD_shiftLeft, BitVec.getLsbD_sshiftRight, hback]
    simp [hi, Nat.not_lt.mpr hc]
    omega
  constructor
  · intro h i hc hi
    rw [← hbit x i hc hi, ← hbit y i hc hi, h]
  · intro h
    refine BitVec.eq_of_getLsbD_eq fun i hi => ?_
    by_cases hc : c ≤ i
    · rw [hbit x i hc hi, hbit y i hc hi, h i hc hi]
    · simp [BitVec.getLsbD_shiftLeft, Nat.not_le.mp hc]

theorem topBitsAgree_full {x y : BitVec 32} : TopBitsAgree 32 x y ↔ x = y := by
  constructor
  · intro h
    exact BitVec.eq_of_getLsbD_eq fun i hi => h i (by omega) hi
  · intro h i _ _
    rw [h]

theorem matchIPAddress_iff {rulePrefix ruleBits packetAddress : BitVec 32}
    (h : ruleBits.toNat ≤ 32) :
    matchIPAddress rulePrefix ruleBits packetAddress = true ↔
      TopBitsAgree ruleBits.toNat rulePrefix packetAddress ∧
        (ruleBits = 0 → rulePrefix = packetAddress) := by
  have hrng : (32 - ruleBits).toNat = 32 - ruleBits.toNat := by
    rw [BitVec.toNat_sub]
    simp
    omega
  have hpos : (0 : BitVec 32).slt (32 - ruleBits) = decide (ruleBits.toNat < 32) := by
    rw [BitVec.slt_eq_decide, BitVec.toInt_eq_toNat_of_lt (x := 32 - ruleBits) (by omega), hrng,
      decide_eq_decide]
    show (0 : Int) < ((32 - ruleBits.toNat : Nat) : Int) ↔ _
    omega
  unfold matchIPAddress
  simp only [hpos, hrng]
  by_cases hzero : ruleBits = 0
  · subst hzero
    have htrivial : TopBitsAgree 0 rulePrefix packetAddress := fun i hi hlt => by omega
    simp [htrivial]
  · have hne : ruleBits.toNat ≠ 0 := by
      intro hz
      exact hzero (BitVec.eq_of_toNat_eq hz)
    rw [and_iff_left (absurd · hzero)]
    by_cases hlt : ruleBits.toNat < 32
    · have hmod : (32 - ruleBits.toNat) % 32 = 32 - ruleBits.toNat := by omega
      simp only [hlt, decide_true, if_true, hmod, beq_iff_eq]
      exact shifts_eq_iff rulePrefix packetAddress
    · have hfull : ruleBits.toNat = 32 := by omega
      simp [hfull, topBitsAgree_full]

/-! ## Agreement field by field -/

def Segment.ports : Segment → Option (BitVec 16 × BitVec 16)
  | .tcp sourcePort destinationPort => some (sourcePort, destinationPort)
  | .udp sourcePort destinationPort => some (sourcePort, destinationPort)
  | .icmp => none
  | .data => none

/-- A packet of TCP, UDP or ICMP. -/
inductive Ip.Parsed : Ip → Prop
  | tcp (src dst : BitVec 32) (sourcePort destinationPort : BitVec 16) :
    Ip.Parsed ⟨protocolTCP, src, dst, .tcp sourcePort destinationPort⟩
  | udp (src dst : BitVec 32) (sourcePort destinationPort : BitVec 16) :
    Ip.Parsed ⟨protocolUDP, src, dst, .udp sourcePort destinationPort⟩
  | icmp (src dst : BitVec 32) : Ip.Parsed ⟨protocolICMP, src, dst, .icmp⟩

/-- The payloads are of the classes that the frame and the protocol call for. -/
structure Ethernet.Parsed (eth : Ethernet) : Prop where
  arp : eth.etherType = typeARP → ∃ p, eth.payload = .arp p
  ipv4 : eth.etherType = typeIPv4 → ∃ p, eth.payload = .ipv4 p ∧
    (p.protocol = protocolTCP → ∃ src dst, p.payload = .tcp src dst) ∧
    (p.protocol = protocolUDP → ∃ src dst, p.payload = .udp src dst)

theorem Ip.Parsed.ethernet {ip : Ip} (h : ip.Parsed) (sourceMAC destinationMAC : BitVec 48) :
    (⟨sourceMAC, destinationMAC, typeIPv4, .ipv4 ip⟩ : Ethernet).Parsed := by
  have htype : typeIPv4 ≠ typeARP := by decide
  have hudp : protocolUDP ≠ protocolTCP := by decide
  have hicmp : protocolICMP ≠ protocolTCP ∧ protocolICMP ≠ protocolUDP := by decide
  refine ⟨fun harp => absurd harp htype, fun _ => ⟨ip, rfl, ?_⟩⟩
  cases h with
  | tcp src dst sourcePort destinationPort =>
    exact ⟨fun _ => ⟨sourcePort, destinationPort, rfl⟩, fun hp => absurd hp.symm hudp⟩
  | udp src dst sourcePort destinationPort =>
    exact ⟨fun hp => absurd hp hudp, fun _ => ⟨sourcePort, destinationPort, rfl⟩⟩
  | icmp src dst => exact ⟨fun hp => absurd hp hicmp.1, fun hp => absurd hp hicmp.2⟩

namespace FirewallRule

/-! ## Verdicts -/

theorem protoChecks_verdict (r : FirewallRule) {ip : Ip}
    (htcp : ip.protocol = protocolTCP → ∃ src dst, ip.payload = .tcp src dst)
    (hudp : ip.protocol = protocolUDP → ∃ src dst, ip.payload = .udp src dst) :
    ∀ c ∈ r.protoChecks ip, c.verdict ≠ none := by
  unfold protoChecks
  split_ifs with hrule hother hrule' hother'
  · simp [protoCheck]
  · obtain ⟨src, dst, hp⟩ := htcp (not_not.mp hother)
    simp [hp, protoCheck, portChecks]
  · simp [protoCheck]
  · obtain ⟨src, dst, hp⟩ := hudp (not_not.mp hother')
    simp [hp, protoCheck, portChecks]
  · simp [protoCheck]

/-- No check goes wrong on a packet with payloads of the classes called for. -/
theorem checks_verdict (r : FirewallRule) {eth : Ethernet} (h : eth.Parsed) (switchDpid : BitVec 64)
    (inPort : BitVec 32) : ∀ c ∈ r.checks switchDpid inPort eth, c.verdict ≠ none := by
  have htype : ∀ c ∈ r.typeChecks eth, c.verdict ≠ none := by
    unfold typeChecks
    split_ifs with hwild harp hother hip hother' hproto
    · simp
    · simp [check]
    · obtain ⟨p, hp⟩ := h.arp (not_not.mp hother)
      simp [hp, check, addressChecks]
    · simp [check]
    · obtain ⟨p, hp, -⟩ := h.ipv4 (not_not.mp hother')
      simp [hp, check, addressChecks]
    · obtain ⟨p, hp, htcp, hudp⟩ := h.ipv4 (not_not.mp hother')
      have hrest := r.protoChecks_verdict htcp hudp
      simpa [hp, check, addressChecks] using hrest
    · simp [check]
  rw [checks]
  refine List.forall_mem_append.mpr ⟨List.forall_mem_append.mpr ⟨?_, htype⟩, ?_⟩
  · simp [check]
  · simp [check]

/-- The rule is for TCP or for UDP. -/
def ForPorts (r : FirewallRule) : Prop :=
  r.wildcardNwProto = false ∧
    (r.nwProto = protocolTCP.signExtend 16 ∨ r.nwProto = protocolUDP.signExtend 16)

/-- A rule for IPv4, with prefixes of at most 32 bits. -/
structure ForIPv4 (r : FirewallRule) : Prop where
  typed : r.wildcardDlType = false
  dlType : r.dlType = typeIPv4
  nwProto : r.wildcardNwProto = true ∨ r.nwProto = protocolTCP.signExtend 16 ∨
    r.nwProto = protocolUDP.signExtend 16 ∨ r.nwProto = protocolICMP.signExtend 16
  srcBits : r.nwSrcMaskbits.toNat ≤ 32
  dstBits : r.nwDstMaskbits.toNat ≤ 32

/-- The packet agrees with the rule wherever the rule has no wildcard. -/
structure AgreesWith (r : FirewallRule) (switchDpid : BitVec 64) (inPort : BitVec 32)
    (sourceMAC destinationMAC : BitVec 48) (ip : Ip) : Prop where
  dpid : r.wildcardDpid = false → r.dpid = switchDpid
  inPort : r.wildcardInPort = false → r.inPort.toInt = inPort.toInt
  dlSrc : r.wildcardDlSrc = false → r.dlSrc.toNat = sourceMAC.toNat
  dlDst : r.wildcardDlDst = false → r.dlDst.toNat = destinationMAC.toNat
  nwSrc : r.wildcardNwSrc = false →
    TopBitsAgree r.nwSrcMaskbits.toNat r.nwSrcPrefix ip.sourceAddress
  nwDst : r.wildcardNwDst = false →
    TopBitsAgree r.nwDstMaskbits.toNat r.nwDstPrefix ip.destinationAddress
  nwProto : r.wildcardNwProto = false → r.nwProto.toInt = ip.protocol.toInt
  ports : r.ForPorts → ∃ tpSrc tpDst, ip.payload.ports = some (tpSrc, tpDst) ∧
    (r.wildcardTpSrc = false → r.tpSrc = tpSrc) ∧ (r.wildcardTpDst = false → r.tpDst = tpDst)

theorem map_fst_matchesFlow (r : FirewallRule) (switchDpid : BitVec 64) (inPort : BitVec 32)
    (packet : Ethernet) (n : NonWildcardsPair) :
    (r.matchesFlow switchDpid inPort packet n).map Prod.fst =
      verdict (r.checks switchDpid inPort packet) := by
  rw [matchesFlow_eq, run_eq, Option.map_map]
  exact Option.map_id'

/-! ## The checks of a rule for IPv4 -/

theorem not_and_ne_iff {α : Type} [BEq α] [LawfulBEq α] {w : Bool} {x y : α} :
    (some !(!w && x != y)) = some true ↔ (w = false → x = y) := by
  cases w <;> simp

theorem protoChecks_pass_iff {r : FirewallRule} {ip : Ip} (hip : ip.Parsed)
    (hproto : r.nwProto = protocolTCP.signExtend 16 ∨ r.nwProto = protocolUDP.signExtend 16 ∨
      r.nwProto = protocolICMP.signExtend 16) :
    (∀ c ∈ r.protoChecks ip, c.verdict = some true) ↔
      r.nwProto = protocolICMP.signExtend 16 ∧ r.nwProto.toInt = ip.protocol.toInt := by
  rcases hproto with h | h | h <;> cases hip <;>
    simp [protoChecks, protoCheck, portChecks, h, protocolTCP, protocolUDP, protocolICMP]

/-- What the packet has to have for the checks to be passed. -/
structure Passes (r : FirewallRule) (switchDpid : BitVec 64) (inPort : BitVec 32)
    (sourceMAC destinationMAC : BitVec 48) (ip : Ip) : Prop where
  dpid : r.wildcardDpid = false → r.dpid = switchDpid
  inPort : r.wildcardInPort = false → r.inPort.signExtend 32 = inPort
  dlSrc : r.wildcardDlSrc = false → r.dlSrc = sourceMAC.setWidth 64
  dlDst : r.wildcardDlDst = false → r.dlDst = destinationMAC.setWidth 64
  nwSrc : r.wildcardNwSrc = false →
    matchIPAddress r.nwSrcPrefix r.nwSrcMaskbits ip.sourceAddress = true
  nwDst : r.wildcardNwDst = false →
    matchIPAddress r.nwDstPrefix r.nwDstMaskbits ip.destinationAddress = true
  nwProto : r.wildcardNwProto = false →
    r.nwProto = protocolICMP.signExtend 16 ∧ r.nwProto.toInt = ip.protocol.toInt

theorem passes_iff {r : FirewallRule} (h : r.ForIPv4) {ip : Ip} (hip : ip.Parsed)
    {switchDpid : BitVec 64} {inPort : BitVec 32} {sourceMAC destinationMAC : BitVec 48} :
    (∀ c ∈ r.checks switchDpid inPort ⟨sourceMAC, destinationMAC, typeIPv4, .ipv4 ip⟩,
        c.verdict = some true) ↔
      r.Passes switchDpid inPort sourceMAC destinationMAC ip := by
  have harp : typeIPv4 ≠ typeARP := by decide
  have hproto : (∀ c ∈ if r.wildcardNwProto then [] else r.protoChecks ip, c.verdict = some true) ↔
      (r.wildcardNwProto = false →
        r.nwProto = protocolICMP.signExtend 16 ∧ r.nwProto.toInt = ip.protocol.toInt) := by
    cases hwild : r.wildcardNwProto with
    | true => simp
    | false =>
      have hone := h.nwProto.resolve_left (by simp [hwild])
      simpa using protoChecks_pass_iff hip hone
  rw [checks, typeChecks, h.typed, h.dlType, if_neg harp, if_pos rfl]
  simp only [ne_eq, not_true_eq_false, if_false, List.forall_mem_append, List.forall_mem_cons,
    List.not_mem_nil, false_implies, implies_true, and_true, check, hproto, addressChecks,
    not_and_ne_iff, Bool.false_eq_true]
  constructor
  · intro hall
    obtain ⟨⟨⟨hdpid, hport, hsrc, hdst⟩, ⟨-, ⟨hnwSrc, hnwDst⟩, hnwProto⟩⟩, -⟩ := hall
    refine ⟨hdpid, hport, hsrc, hdst, fun hw => ?_, fun hw => ?_, hnwProto⟩
    · simpa [hw] using hnwSrc
    · simpa [hw] using hnwDst
  · intro hp
    refine ⟨⟨⟨hp.dpid, hp.inPort, hp.dlSrc, hp.dlDst⟩, rfl, ⟨?_, ?_⟩, hp.nwProto⟩, rfl⟩
    · cases hw : r.wildcardNwSrc with
      | true => rfl
      | false => simp [hp.nwSrc hw]
    · cases hw : r.wildcardNwDst with
      | true => rfl
      | false => simp [hp.nwDst hw]

/-- The packet agrees with the addresses in full where the prefix has no bits. -/
def AgreesInFull (r : FirewallRule) (ip : Ip) : Prop :=
  (r.wildcardNwSrc = false → r.nwSrcMaskbits = 0 → r.nwSrcPrefix = ip.sourceAddress) ∧
    (r.wildcardNwDst = false → r.nwDstMaskbits = 0 → r.nwDstPrefix = ip.destinationAddress)

theorem signExtend_eq_iff {x : BitVec 16} {y : BitVec 32} :
    x.signExtend 32 = y ↔ x.toInt = y.toInt := by
  rw [← BitVec.toInt_inj, BitVec.toInt_signExtend_of_le (by decide)]

theorem eq_setWidth_iff {x : BitVec 64} {y : BitVec 48} :
    x = y.setWidth 64 ↔ x.toNat = y.toNat := by
  rw [BitVec.toNat_eq, BitVec.toNat_setWidth_of_le (by decide)]

theorem passes_iff_agreesWith {r : FirewallRule} (h : r.ForIPv4) {ip : Ip} {switchDpid : BitVec 64}
    {inPort : BitVec 32} {sourceMAC destinationMAC : BitVec 48} :
    r.Passes switchDpid inPort sourceMAC destinationMAC ip ↔
      r.AgreesWith switchDpid inPort sourceMAC destinationMAC ip ∧ ¬ r.ForPorts ∧
        r.AgreesInFull ip := by
  constructor
  · intro hp
    have hports : ¬ r.ForPorts := by
      intro hfor
      have hicmp := (hp.nwProto hfor.1).1
      rcases hfor.2 with htcp | hudp
      · exact absurd (htcp.symm.trans hicmp) (by decide)
      · exact absurd (hudp.symm.trans hicmp) (by decide)
    have hsrc := fun hw => (matchIPAddress_iff h.srcBits).mp (hp.nwSrc hw)
    have hdst := fun hw => (matchIPAddress_iff h.dstBits).mp (hp.nwDst hw)
    exact ⟨⟨hp.dpid, fun hw => signExtend_eq_iff.mp (hp.inPort hw),
      fun hw => eq_setWidth_iff.mp (hp.dlSrc hw), fun hw => eq_setWidth_iff.mp (hp.dlDst hw),
      fun hw => (hsrc hw).1, fun hw => (hdst hw).1, fun hw => (hp.nwProto hw).2,
      fun hfor => absurd hfor hports⟩, hports, fun hw => (hsrc hw).2, fun hw => (hdst hw).2⟩
  · intro ⟨ha, hports, hsrc, hdst⟩
    refine ⟨ha.dpid, fun hw => signExtend_eq_iff.mpr (ha.inPort hw),
      fun hw => eq_setWidth_iff.mpr (ha.dlSrc hw), fun hw => eq_setWidth_iff.mpr (ha.dlDst hw),
      fun hw => (matchIPAddress_iff h.srcBits).mpr ⟨ha.nwSrc hw, hsrc hw⟩,
      fun hw => (matchIPAddress_iff h.dstBits).mpr ⟨ha.nwDst hw, hdst hw⟩,
      fun hw => ⟨?_, ha.nwProto hw⟩⟩
    rcases h.nwProto with hwild | htcp | hudp | hicmp
    · exact absurd hwild (by simp [hw])
    · exact absurd ⟨hw, Or.inl htcp⟩ hports
    · exact absurd ⟨hw, Or.inr hudp⟩ hports
    · exact hicmp

/-! ## When matching is field by field -/

/-- `matchesFlow` is true for the packet exactly if it agrees with the rule. -/
def FieldWise (r : FirewallRule) (switchDpid : BitVec 64) (inPort : BitVec 32)
    (sourceMAC destinationMAC : BitVec 48) (ip : Ip) : Prop :=
  ∀ n : NonWildcardsPair,
    ∃ b n', r.matchesFlow switchDpid inPort ⟨sourceMAC, destinationMAC, typeIPv4, .ipv4 ip⟩ n =
        some (b, n') ∧
      (b = true ↔ r.AgreesWith switchDpid inPort sourceMAC destinationMAC ip)

theorem matchesFlow_iff {r : FirewallRule} (h : r.ForIPv4) {ip : Ip} (hip : ip.Parsed)
    (switchDpid : BitVec 64) (inPort : BitVec 32) (sourceMAC destinationMAC : BitVec 48)
    (n : NonWildcardsPair) :
    ∃ b n', r.matchesFlow switchDpid inPort ⟨sourceMAC, destinationMAC, typeIPv4, .ipv4 ip⟩ n =
        some (b, n') ∧
      (b = true ↔ r.AgreesWith switchDpid inPort sourceMAC destinationMAC ip ∧ ¬ r.ForPorts ∧
        r.AgreesInFull ip) := by
  rw [matchesFlow_eq, run_eq, ← passes_iff_agreesWith h, ← passes_iff h hip, ← verdict_eq_true]
  have hsome := verdict_isSome
    (r.checks_verdict (hip.ethernet sourceMAC destinationMAC) switchDpid inPort)
  obtain ⟨b, hb⟩ := Option.ne_none_iff_exists'.mp hsome
  exact ⟨b, _, by rw [hb]; rfl, by rw [hb, Option.some_inj]⟩

/-- A rule for IPv4 is matched field by field except against the packets that agree with it where
it is for TCP or UDP, or where it has a prefix of length zero that is not their address. -/
theorem fieldWise_iff {r : FirewallRule} (h : r.ForIPv4) {ip : Ip} (hip : ip.Parsed)
    {switchDpid : BitVec 64} {inPort : BitVec 32} {sourceMAC destinationMAC : BitVec 48} :
    r.FieldWise switchDpid inPort sourceMAC destinationMAC ip ↔
      (r.AgreesWith switchDpid inPort sourceMAC destinationMAC ip →
        ¬ r.ForPorts ∧ r.AgreesInFull ip) := by
  have hmatches := matchesFlow_iff h hip switchDpid inPort sourceMAC destinationMAC
  constructor
  · intro hall hagrees
    obtain ⟨b, n', hrun, hb⟩ := hall {}
    obtain ⟨b', n'', hrun', hb'⟩ := hmatches {}
    rw [hrun] at hrun'
    cases hrun'
    exact (hb'.mp (hb.mpr hagrees)).2
  · intro hwhen n
    obtain ⟨b, n', hrun, hb⟩ := hmatches n
    exact ⟨b, n', hrun, hb.trans ⟨And.left, fun hagrees => ⟨hagrees, hwhen hagrees⟩⟩⟩

/-- ICMP from one network, which its packets match. -/
theorem fieldWise_icmp :
    ({ wildcardDlType := false, dlType := typeIPv4, wildcardNwProto := false,
       nwProto := protocolICMP.signExtend 16, wildcardNwSrc := false, nwSrcPrefix := 0x0a000000,
       nwSrcMaskbits := 8 } : FirewallRule).FieldWise 1 1 3 4 ⟨protocolICMP, 0x0a010203, 2, .icmp⟩ :=
  (fieldWise_iff ⟨rfl, rfl, by decide, by decide, by decide⟩ (.icmp 0x0a010203 2)).mpr fun _ => by
    refine ⟨?_, ?_, ?_⟩
    · rintro ⟨-, h | h⟩ <;> exact absurd h (by decide)
    · intro _ h
      exact absurd h (by decide)
    · intro h
      exact absurd h (by decide)

/-- A rule that allows TCP from and to everywhere. -/
def anyTcp : FirewallRule :=
  { wildcardDlType := false, dlType := typeIPv4, wildcardNwProto := false,
    nwProto := protocolTCP.signExtend 16 }

/-- It does not match a packet that agrees with it. -/
theorem anyTcp_missed :
    anyTcp.ForIPv4 ∧ (⟨protocolTCP, 1, 2, .tcp 1000 80⟩ : Ip).Parsed ∧
      anyTcp.AgreesWith 1 1 3 4 ⟨protocolTCP, 1, 2, .tcp 1000 80⟩ ∧
      (anyTcp.matchesFlow 1 1 ⟨3, 4, typeIPv4, .ipv4 ⟨protocolTCP, 1, 2, .tcp 1000 80⟩⟩ {}).map
        Prod.fst = some false := by
  refine ⟨⟨rfl, rfl, by decide, by decide, by decide⟩, .tcp 1 2 1000 80, ?_, by decide⟩
  refine ⟨?_, ?_, ?_, ?_, ?_, ?_, ?_, fun _ => ⟨1000, 80, rfl, ?_, ?_⟩⟩ <;> intro h <;>
    first | exact absurd h (by decide) | decide

end FirewallRule

end Sdpa.Controller.Firewall
