import Sdpa.Hardware.HeaderParser
import Sdpa.Lib.Frames

/-!
# One flow entry for each packet

`entryWord` is the data word of a packet with which its flow entry is complete. If
every packet is long enough to have that word, the parser is at the same word of
the same packet as the stream, and `flow_entry_vld` is high in the cycle after the
entry word of a packet and in no other.
-/
namespace Sdpa.Hardware

open Lib.Clocked Lib.Frames

namespace Packet

variable (pk : Packet)

def isIp : Bool := (pk.word 1).extractLsb' 16 16 = ethTypeIp

def isArp : Bool := (pk.word 1).extractLsb' 16 16 = ethTypeArp

def ipHdrLen : BitVec 4 := (pk.word 1).extractLsb' 8 4

def isTcpUdp : Bool :=
  pk.isIp && ((pk.word 2).extractLsb' 0 8 = ipProtoTcp || (pk.word 2).extractLsb' 0 8 = ipProtoUdp)

def isIcmp : Bool := pk.isIp && (pk.word 2).extractLsb' 0 8 = ipProtoIcmp

/-- The data word with which the flow entry is complete. -/
def entryWord : Nat :=
  if pk.isIp && pk.ipHdrLen < 5 then 2
  else if pk.isTcpUdp then 5 + (pk.ipHdrLen.toNat - 4) / 2
  else if pk.isIcmp then 4 + (pk.ipHdrLen.toNat - 4) / 2
  else if pk.isArp then 5
  else 4

/-- The packet has its entry word. -/
def HeaderInside : Prop := pk.entryWord < pk.data.length

theorem isArp_of_isIp (h : pk.isIp = true) : pk.isArp = false := by
  rw [isIp, decide_eq_true_eq] at h
  rw [isArp, h]
  rfl

theorem isIp_of_isTcpUdp (h : pk.isTcpUdp = true) : pk.isIp = true := by
  rw [isTcpUdp, Bool.and_eq_true] at h
  exact h.1

theorem isIp_of_isIcmp (h : pk.isIcmp = true) : pk.isIp = true := by
  rw [isIcmp, Bool.and_eq_true] at h
  exact h.1

theorem isTcpUdp_of_not_isIp (h : pk.isIp = false) : pk.isTcpUdp = false := by
  rw [isTcpUdp, h, Bool.false_and]

theorem isIcmp_of_not_isIp (h : pk.isIp = false) : pk.isIcmp = false := by
  rw [isIcmp, h, Bool.false_and]

/-- A header length that the parser goes on with. -/
def Valid : Prop := (pk.isIp && decide (pk.ipHdrLen < 5)) = false

variable {pk}

theorem Valid.five_le (h : pk.Valid) (hip : pk.isIp = true) : 5 ≤ pk.ipHdrLen.toNat := by
  rw [Valid, hip, Bool.true_and, decide_eq_false_iff_not, BitVec.not_lt] at h
  exact BitVec.le_def.mp h

theorem entryWord_of_not_valid (h : ¬ pk.Valid) : pk.entryWord = 2 := by
  rw [Valid, Bool.not_eq_false] at h
  rw [entryWord, h, if_pos rfl]

theorem entryWord_of_tcpUdp (h : pk.Valid) (hports : pk.isTcpUdp = true) :
    pk.entryWord = 5 + (pk.ipHdrLen.toNat - 4) / 2 := by
  rw [entryWord, h, hports]
  rfl

theorem entryWord_of_icmp (h : pk.Valid) (hports : pk.isTcpUdp = false)
    (hicmp : pk.isIcmp = true) : pk.entryWord = 4 + (pk.ipHdrLen.toNat - 4) / 2 := by
  rw [entryWord, h, hports, hicmp]
  rfl

theorem entryWord_of_other (h : pk.Valid) (hports : pk.isTcpUdp = false)
    (hicmp : pk.isIcmp = false) : pk.entryWord = if pk.isArp then 5 else 4 := by
  rw [entryWord, h, hports, hicmp]
  rfl

theorem two_le_entryWord (pk : Packet) : 2 ≤ pk.entryWord := by
  rw [entryWord]
  split
  · exact Nat.le_refl 2
  · split
    · omega
    · split
      · omega
      · split <;> omega

/-- The header has at most fifteen words. -/
theorem entryWord_le (pk : Packet) : pk.entryWord ≤ 10 := by
  have := pk.ipHdrLen.isLt
  rw [entryWord]
  split
  · decide
  · split
    · omega
    · split
      · omega
      · split <;> decide

theorem Valid.four_le_entryWord (h : pk.Valid) : 4 ≤ pk.entryWord := by
  cases hports : pk.isTcpUdp with
  | true =>
    rw [entryWord_of_tcpUdp h hports]
    omega
  | false =>
    cases hicmp : pk.isIcmp with
    | true =>
      rw [entryWord_of_icmp h hports hicmp]
      omega
    | false =>
      rw [entryWord_of_other h hports hicmp]
      split <;> omega

end Packet

/-- The state machine after `d` data words, before the flow entry is complete. -/
inductive InHeader (pk : Packet) (s : ParserFsm) : Nat → Prop
  | first (counter : s.counter = 1) : InHeader pk s 1
  | second (counter : s.counter = 2) (isIp : s.isIp = pk.isIp) (isArp : s.isArp = pk.isArp)
      (ipHdrLen : s.ipHdrLen = pk.ipHdrLen) : InHeader pk s 2
  | third (counter : s.counter = 3) (valid : pk.Valid) (isIp : s.isIp = pk.isIp)
      (isArp : s.isArp = pk.isArp) (ipHdrLen : s.ipHdrLen = pk.ipHdrLen)
      (isTcpUdp : s.isTcpUdp = pk.isTcpUdp) (isIcmp : s.isIcmp = pk.isIcmp) : InHeader pk s 3
  /-- `m` words of options were passed. -/
  | ports (m : Nat) (counter : s.counter = 4) (valid : pk.Valid) (notArp : pk.isArp = false)
      (ipHdrLen : s.ipHdrLen.toNat + 2 * m = pk.ipHdrLen.toNat)
      (isTcpUdp : s.isTcpUdp = pk.isTcpUdp) (isIcmp : s.isIcmp = pk.isIcmp)
      (options : 0 < m → (pk.isTcpUdp || pk.isIcmp) = true ∧ 4 ≤ s.ipHdrLen.toNat) :
      InHeader pk s (4 + m)
  | snAck (counter : s.counter = 7) : InHeader pk s pk.entryWord
  | arpHi (counter : s.counter = 5) (entry : pk.entryWord = 5) : InHeader pk s 4
  | arpLo (counter : s.counter = 6) (entry : pk.entryWord = 5) : InHeader pk s 5

namespace InHeader

variable {pk : Packet} {s : ParserFsm} {d : Nat} {w : Word}

/-- `flow_entry_vld` is not part of it. -/
theorem lowered (h : InHeader pk s d) : InHeader pk { s with flowEntryVld := false } d := by
  cases h <;> constructor <;> assumption

/-- The header ends with the entry word. -/
theorem le_entryWord (h : InHeader pk s d) : d ≤ pk.entryWord := by
  cases h with
  | first => exact Nat.le_of_succ_le pk.two_le_entryWord
  | second => exact pk.two_le_entryWord
  | third _ valid => exact Nat.le_of_succ_le valid.four_le_entryWord
  | ports m _ valid _ ipHdrLen _ _ options =>
    rcases Nat.eq_zero_or_pos m with rfl | hm
    · exact valid.four_le_entryWord
    obtain ⟨hports, hlen⟩ := options hm
    cases htcp : pk.isTcpUdp with
    | true =>
      rw [Packet.entryWord_of_tcpUdp valid htcp]
      omega
    | false =>
      rw [htcp, Bool.false_or] at hports
      rw [Packet.entryWord_of_icmp valid htcp hports]
      omega
  | snAck => exact Nat.le_refl _
  | arpHi _ entry => omega
  | arpLo _ entry => omega

/-- What a data word does: the entry word raises `flow_entry_vld`, any other one takes the state
machine further into the header. -/
inductive Moves (pk : Packet) (w : Word) (d : Nat) (s : ParserFsm) : Prop
  | announced (entry : d = pk.entryWord) (vld : s.flowEntryVld = true)
      (state : s.state = if w.ctrl ≠ 0 then .resetFlowEntry else .waitEop)
  | passed (entry : d ≠ pk.entryWord) (vld : s.flowEntryVld = false) (state : s.state = .pktWords)
      (header : InHeader pk s (d + 1))

/-- The ports are a matter of the entry alone. -/
theorem transpPorts_eq (w : Word) (s : ParserFsm) :
    ∃ entry queryId, ParserFsm.transpPorts w s =
      { s with flowEntry := entry, queryId := queryId } := by
  rw [ParserFsm.transpPorts]
  split
  · split
    · exact ⟨_, _, rfl⟩
    · split
      · exact ⟨_, _, rfl⟩
      · split <;> exact ⟨_, _, rfl⟩
  · split
    · split
      · exact ⟨_, _, rfl⟩
      · split <;> exact ⟨_, _, rfl⟩
    · exact ⟨_, _, rfl⟩

theorem moves_announce (hd : d = pk.entryWord) (s : ParserFsm) :
    Moves pk w d (ParserFsm.announce w s) := .announced hd rfl rfl

/-- Two words of options less to pass. -/
theorem ports_more {s' : ParserFsm} {m : Nat} (counter : s'.counter = 4) (valid : pk.Valid)
    (notArp : pk.isArp = false) (ipHdrLen : s.ipHdrLen.toNat + 2 * m = pk.ipHdrLen.toNat)
    (hnext : s'.ipHdrLen = s.ipHdrLen - 2) (hmore : 6 ≤ s.ipHdrLen.toNat)
    (isTcpUdp : s'.isTcpUdp = pk.isTcpUdp) (isIcmp : s'.isIcmp = pk.isIcmp)
    (hports : (pk.isTcpUdp || pk.isIcmp) = true) : InHeader pk s' (4 + m + 1) := by
  have hsub : s'.ipHdrLen.toNat = s.ipHdrLen.toNat - 2 := by
    rw [hnext]
    exact BitVec.toNat_sub_of_le (BitVec.le_def.mpr (Nat.le_trans (by decide) hmore))
  exact .ports (m + 1) counter valid notArp (by omega) isTcpUdp isIcmp
    fun _ => ⟨hports, by omega⟩

/-- The words from the ports on: the parser stays there until the options are passed. -/
theorem ports_step {m : Nat} (hstate : s.state = .pktWords) (hvld : s.flowEntryVld = false)
    (counter : s.counter = 4) (valid : pk.Valid) (notArp : pk.isArp = false)
    (ipHdrLen : s.ipHdrLen.toNat + 2 * m = pk.ipHdrLen.toNat)
    (isTcpUdp : s.isTcpUdp = pk.isTcpUdp) (isIcmp : s.isIcmp = pk.isIcmp)
    (options : 0 < m → (pk.isTcpUdp || pk.isIcmp) = true ∧ 4 ≤ s.ipHdrLen.toNat) :
    Moves pk w (4 + m) (ParserFsm.ipDstLoTranspPortsWord w s) := by
  rw [ParserFsm.ipDstLoTranspPortsWord]
  obtain ⟨entry, queryId, hports⟩ := transpPorts_eq w { s with
    flowEntry := if s.isIp then putBits 40 (w.data.extractLsb' 48 16) s.flowEntry
      else s.flowEntry }
  rw [hports]
  have hend : (s.ipHdrLen = 5 || s.ipHdrLen = 4) = true ↔
      s.ipHdrLen.toNat = 5 ∨ s.ipHdrLen.toNat = 4 := by
    rw [Bool.or_eq_true, decide_eq_true_eq, decide_eq_true_eq, BitVec.toNat_eq, BitVec.toNat_eq]
    rfl
  have hmore : 5 ≤ pk.ipHdrLen.toNat → ¬ (s.ipHdrLen.toNat = 5 ∨ s.ipHdrLen.toNat = 4) →
      6 ≤ s.ipHdrLen.toNat := by
    intro hfive hlen
    rcases Nat.eq_zero_or_pos m with rfl | hm
    · omega
    · have := (options hm).2
      omega
  cases htcp : pk.isTcpUdp with
  | true =>
    have hfive := valid.five_le (pk.isIp_of_isTcpUdp htcp)
    have hword := Packet.entryWord_of_tcpUdp valid htcp
    rw [isTcpUdp, htcp, Bool.true_and, Bool.true_or, Bool.not_true, Bool.false_or, Bool.true_and]
    by_cases hlen : s.ipHdrLen.toNat = 5 ∨ s.ipHdrLen.toNat = 4
    · rw [if_pos (hend.mpr hlen)]
      have hlast : 4 + m + 1 = pk.entryWord := by omega
      exact .passed (by omega) hvld hstate (hlast ▸ .snAck rfl)
    · rw [if_neg (hend.not.mpr hlen), if_neg (hend.not.mpr hlen)]
      have hlong := hmore hfive hlen
      exact .passed (by omega) hvld hstate (ports_more counter valid notArp ipHdrLen rfl hlong
        htcp.symm isIcmp (by rw [htcp, Bool.true_or]))
  | false =>
    rw [isTcpUdp, htcp, Bool.false_and, if_neg Bool.false_ne_true, Bool.false_or]
    cases hicmp : pk.isIcmp with
    | true =>
      have hfive := valid.five_le (pk.isIp_of_isIcmp hicmp)
      have hword := Packet.entryWord_of_icmp valid htcp hicmp
      rw [isIcmp, hicmp, Bool.not_true, Bool.false_or, Bool.true_and]
      by_cases hlen : s.ipHdrLen.toNat = 5 ∨ s.ipHdrLen.toNat = 4
      · rw [if_pos (hend.mpr hlen)]
        exact moves_announce (by omega) _
      · rw [if_neg (hend.not.mpr hlen)]
        have hlong := hmore hfive hlen
        exact .passed (by omega) hvld hstate (ports_more counter valid notArp ipHdrLen rfl hlong
          htcp.symm hicmp.symm (by rw [hicmp, Bool.or_true]))
    | false =>
      have hword := Packet.entryWord_of_other valid htcp hicmp
      have hm : m = 0 := by
        rcases Nat.eq_zero_or_pos m with hm | hm
        · exact hm
        · have := (options hm).1
          rw [htcp, hicmp] at this
          cases this
      rw [notArp] at hword
      rw [isIcmp, hicmp, Bool.not_false, Bool.true_or, if_pos rfl]
      exact moves_announce (by rw [hm, hword]; rfl) _

theorem step (h : InHeader pk s d) (hstate : s.state = .pktWords) (hvld : s.flowEntryVld = false)
    (hw : w.data = pk.word d) (hearly : d = 2 → w.ctrl = 0) :
    Moves pk w d (ParserFsm.pktWord w s) := by
  cases h with
  | first counter =>
    have hpkt : ParserFsm.pktWord w s = ParserFsm.macSrcLoEthertypeWord w s := by
      rw [ParserFsm.pktWord, counter]
      rfl
    have hlate := pk.two_le_entryWord
    rw [hpkt]
    refine .passed (by omega) hvld hstate (.second ?_ ?_ ?_ ?_)
    · show s.counter + 1 = 2
      rw [counter]
      rfl
    · rw [Packet.isIp, ← hw]
      rfl
    · rw [Packet.isArp, ← hw]
      rfl
    · rw [Packet.ipHdrLen, ← hw]
      rfl
  | second counter isIp isArp ipHdrLen =>
    have hpkt : ParserFsm.pktWord w s = ParserFsm.ipProtWord w s := by
      rw [ParserFsm.pktWord, counter]
      rfl
    have hnext : s.counter + 1 = 3 := by
      rw [counter]
      rfl
    rw [hpkt, ParserFsm.ipProtWord]
    by_cases valid : pk.Valid
    · have hlate := valid.four_le_entryWord
      have hports : (s.isIp && (decide (w.data.extractLsb' 0 8 = ipProtoTcp) ||
          decide (w.data.extractLsb' 0 8 = ipProtoUdp))) = pk.isTcpUdp := by
        rw [isIp, hw]
        rfl
      have hicmp : (s.isIp && decide (w.data.extractLsb' 0 8 = ipProtoIcmp)) = pk.isIcmp := by
        rw [isIp, hw]
        rfl
      split
      · rename_i hip
        have hlen : ¬ s.ipHdrLen < 5 := by
          rw [Packet.Valid, ← isIp, hip, Bool.true_and, decide_eq_false_iff_not] at valid
          rwa [ipHdrLen]
        rw [if_neg hlen]
        exact .passed (by omega) hvld hstate (.third hnext valid isIp isArp ipHdrLen hports hicmp)
      · split
        · exact .passed (by omega) hvld hstate
            (.third hnext valid isIp isArp ipHdrLen hports hicmp)
        · exact .passed (by omega) hvld hstate
            (.third hnext valid isIp isArp ipHdrLen hports hicmp)
    · rw [Packet.Valid, Bool.not_eq_false, Bool.and_eq_true, decide_eq_true_eq] at valid
      rw [isIp, valid.1, ipHdrLen, if_pos rfl, if_pos valid.2]
      refine .announced (Packet.entryWord_of_not_valid ?_).symm rfl ?_
      · rw [Packet.Valid, valid.1, decide_eq_true valid.2]
        decide
      · rw [hearly rfl]
        rfl
  | third counter valid isIp isArp ipHdrLen isTcpUdp isIcmp =>
    have hpkt : ParserFsm.pktWord w s = ParserFsm.ipSrcDstHiWord w s := by
      rw [ParserFsm.pktWord, counter]
      rfl
    have hlate := valid.four_le_entryWord
    have hnext : s.counter + 1 = 4 := by
      rw [counter]
      rfl
    rw [hpkt, ParserFsm.ipSrcDstHiWord]
    split
    · rename_i hip
      exact .passed (by omega) hvld hstate (.ports 0 hnext valid (pk.isArp_of_isIp (isIp ▸ hip))
        (by rw [← ipHdrLen]; rfl) isTcpUdp isIcmp fun hm => absurd hm (Nat.lt_irrefl 0))
    · rename_i hip
      rw [isIp, Bool.not_eq_true] at hip
      split
      · rename_i harp
        refine .passed (by omega) hvld hstate (.arpHi ?_ ?_)
        · show s.counter + 2 = 5
          rw [counter]
          rfl
        · rw [Packet.entryWord_of_other valid (pk.isTcpUdp_of_not_isIp hip)
            (pk.isIcmp_of_not_isIp hip), ← isArp, harp]
          rfl
      · rename_i harp
        exact .passed (by omega) hvld hstate (.ports 0 hnext valid
          (by rwa [← isArp, ← Bool.not_eq_true]) (by rw [← ipHdrLen]; rfl) isTcpUdp isIcmp
          fun hm => absurd hm (Nat.lt_irrefl 0))
  | ports m counter valid notArp ipHdrLen isTcpUdp isIcmp options =>
    have hpkt : ParserFsm.pktWord w s = ParserFsm.ipDstLoTranspPortsWord w s := by
      rw [ParserFsm.pktWord, counter]
      rfl
    rw [hpkt]
    exact ports_step hstate hvld counter valid notArp ipHdrLen isTcpUdp isIcmp options
  | snAck counter =>
    have hpkt : ParserFsm.pktWord w s = ParserFsm.transpSnAck w s := by
      rw [ParserFsm.pktWord, counter]
      rfl
    rw [hpkt]
    exact moves_announce rfl _
  | arpHi counter entry =>
    have hpkt : ParserFsm.pktWord w s = ParserFsm.arpDstHiWord w s := by
      rw [ParserFsm.pktWord, counter]
      rfl
    rw [hpkt]
    refine .passed (by omega) hvld hstate (.arpLo ?_ entry)
    show s.counter + 1 = 6
    rw [counter]
    rfl
  | arpLo counter entry =>
    have hpkt : ParserFsm.pktWord w s = ParserFsm.arpDstLoWord w s := by
      rw [ParserFsm.pktWord, counter]
      rfl
    rw [hpkt]
    exact moves_announce entry.symm _

end InHeader

/-- The state machine when the next word is word `j` of the packet. -/
inductive Parsing (pk : Packet) (s : ParserFsm) : Nat → Prop
  | hdrs {j : Nat} (state : s.state = .moduleHdrs) (hj : j ≤ pk.hdrs.length) : Parsing pk s j
  | reset (state : s.state = .resetFlowEntry) : Parsing pk s 0
  | header {d : Nat} (state : s.state = .pktWords) (header : InHeader pk s d) :
      Parsing pk s (pk.hdrs.length + d)
  | eop {j : Nat} (state : s.state = .waitEop) (hj : pk.hdrs.length + pk.entryWord < j) :
      Parsing pk s j

/-- It waits for a packet. -/
def ParserFsm.Waits (s : ParserFsm) : Prop := s.state = .moduleHdrs ∨ s.state = .resetFlowEntry

theorem ParserFsm.Waits.parsing {s : ParserFsm} (h : s.Waits) (pk : Packet) : Parsing pk s 0 := by
  rcases h with hstate | hstate
  · exact .hdrs hstate (Nat.zero_le _)
  · exact .reset hstate

namespace Parsing

variable {pk : Packet} {s : ParserFsm} {w : Word} {j : Nat}

/-- A cycle without a word. -/
theorem idle (h : Parsing pk s j) (w : Word) :
    (s.step w false false).flowEntryVld = false ∧ Parsing pk (s.step w false false) j := by
  cases h with
  | hdrs state hj =>
    rw [ParserFsm.step_idle (by rw [state]; decide)]
    exact ⟨rfl, .hdrs state hj⟩
  | reset state =>
    rw [ParserFsm.step_resetFlowEntry state]
    exact ⟨rfl, .hdrs rfl (Nat.zero_le _)⟩
  | header state header =>
    rw [ParserFsm.step_idle (by rw [state]; decide)]
    exact ⟨rfl, .header state header.lowered⟩
  | eop state hj =>
    rw [ParserFsm.step_idle (by rw [state]; decide)]
    exact ⟨rfl, .eop state hj⟩

theorem moduleHdr_keeps (w : Word) (s : ParserFsm) :
    (ParserFsm.moduleHdr w s).state = s.state ∧
      (ParserFsm.moduleHdr w s).flowEntryVld = s.flowEntryVld := by
  rw [ParserFsm.moduleHdr]
  split
  · exact ⟨rfl, rfl⟩
  · split <;> exact ⟨rfl, rfl⟩

/-- What one word of a packet does to the parser. The last word of a packet without its entry word
leaves it in the header. -/
structure Tracks (pk : Packet) (j : Nat) (s : ParserFsm) : Prop where
  vld : s.flowEntryVld = decide (j = pk.hdrs.length + pk.entryWord)
  parsing : j + 1 < pk.words.length → Parsing pk s (j + 1)
  waits : j + 1 = pk.words.length → (s.Waits ↔ pk.HeaderInside)

/-- A module header. -/
theorem tracks_hdr (hj : j < pk.hdrs.length) (hstate : s.state = .moduleHdrs)
    (hvld : s.flowEntryVld = false) : Tracks pk j s := by
  have hlen := pk.length_words
  have hdata := pk.length_data_ge
  refine ⟨?_, fun _ => .hdrs hstate hj, fun hlast => by omega⟩
  rw [hvld, decide_eq_false (by omega)]

theorem tracks (h : Parsing pk s j) (hw : pk.words[j]? = some w) :
    Tracks pk j (s.step w false true) := by
  have hlen := pk.length_words
  have hdata := pk.length_data_ge
  have hentry := pk.two_le_entryWord
  cases h with
  | hdrs state hj =>
    rcases Nat.lt_or_eq_of_le hj with hlt | heq
    · obtain ⟨hstate, hvld⟩ := moduleHdr_keeps w { s with flowEntryVld := false }
      rw [ParserFsm.step_moduleHdrs state, if_neg (Packet.ctrl_of_hdr hlt hw)]
      exact tracks_hdr hlt (hstate.trans state) hvld
    · have hctrl : w.ctrl = 0 :=
        (Packet.ctrl_eq_zero_iff (Nat.le_of_eq heq.symm) hw).mpr (by omega)
      rw [ParserFsm.step_moduleHdrs state, if_pos hctrl]
      refine ⟨(decide_eq_false (by omega)).symm, fun _ => ?_, fun hlast => by omega⟩
      subst heq
      exact .header rfl (.first rfl)
  | reset state =>
    obtain ⟨hstate, hvld⟩ := moduleHdr_keeps w
      { s with flowEntryVld := false, flowEntry := ParserFsm.flowEntryDefault,
               state := .moduleHdrs }
    rw [ParserFsm.step_resetFlowEntry state]
    exact tracks_hdr pk.length_hdrs_pos hstate hvld
  | @header d state header =>
    have hctrl := Packet.ctrl_eq_zero_iff (Nat.le_add_right _ d) hw
    have hmoves := header.lowered.step state rfl (Packet.data_eq_word hw)
      fun hd => hctrl.mpr (by omega)
    rw [ParserFsm.step_pktWords state]
    cases hmoves with
    | announced entry vld state =>
      refine ⟨by rw [vld, entry, decide_eq_true rfl], fun hlt => ?_, fun hlast => ?_⟩
      · rw [if_neg (not_not.mpr (hctrl.mpr hlt))] at state
        exact .eop state (by omega)
      · rw [if_pos (hctrl.not.mpr (by omega))] at state
        have hinside : pk.entryWord < pk.data.length := by omega
        exact ⟨fun _ => hinside, fun _ => .inr state⟩
    | passed entry vld state header =>
      have hle := header.le_entryWord
      refine ⟨by rw [vld, decide_eq_false (by omega)], fun _ => .header state header,
        fun hlast => ⟨fun hwaits => ?_, fun hinside => ?_⟩⟩
      · rw [ParserFsm.Waits, state] at hwaits
        rcases hwaits with hwaits | hwaits <;> cases hwaits
      · rw [Packet.HeaderInside] at hinside
        omega
  | eop state hj =>
    have hctrl := Packet.ctrl_eq_zero_iff (by omega) hw
    by_cases hlt : j + 1 < pk.words.length
    · rw [ParserFsm.step_waitEop state, if_neg (not_not.mpr (hctrl.mpr hlt))]
      exact ⟨(decide_eq_false (by omega)).symm, fun _ => .eop state (by omega),
        fun hlast => by omega⟩
    · rw [ParserFsm.step_waitEop state, if_pos (hctrl.not.mpr hlt)]
      refine ⟨(decide_eq_false (by omega)).symm, fun h => absurd h hlt, fun hlast => ?_⟩
      have hinside : pk.entryWord < pk.data.length := by omega
      exact ⟨fun _ => hinside, fun _ => .inl rfl⟩

/-- At the first word of a packet the parser waits for it. -/
theorem waits (h : Parsing pk s j) (hj : j = 0) : s.Waits := by
  have hpos := pk.length_hdrs_pos
  cases h with
  | hdrs state => exact .inl state
  | reset state => exact .inr state
  | header => omega
  | eop => omega

end Parsing

/-! ## Streams of packets -/

/-- The lengths of the packets of a stream. -/
def lengths (pkts : Nat → Packet) (k : Nat) : Nat := (pkts k).words.length

/-- The words that come in the cycles of `wr` are those of the packets, in order. -/
def Carries (pkts : Nat → Packet) (wr : Nat → Bool) (w : Nat → Word) : Prop :=
  ∀ t k j, wr t = true → IsAt (lengths pkts) (count wr t) k j → (pkts k).words[j]? = some (w t)

/-- The number of the entry word of packet `k` in the stream. -/
def entryAt (pkts : Nat → Packet) (k : Nat) : Nat :=
  start (lengths pkts) k + ((pkts k).hdrs.length + (pkts k).entryWord)

theorem strictMono_entryAt {pkts : Nat → Packet} (hin : ∀ k, (pkts k).HeaderInside) :
    StrictMono (entryAt pkts) := by
  refine strictMono_mark fun k => ?_
  have := hin k
  rw [lengths, Packet.length_words]
  rw [Packet.HeaderInside] at this
  omega

/-- One packet over and over. -/
def repeated (pk : Packet) (wr : Nat → Bool) (t : Nat) : Word :=
  pk.words.getD (count wr t % pk.words.length) ⟨0, 0⟩

theorem carries_repeated (pk : Packet) (wr : Nat → Bool) :
    Carries (fun _ => pk) wr (repeated pk wr) := by
  intro t k j _ hat
  have hcount : count wr t = pk.words.length * k + j := by
    rw [← start_const]
    exact hat.eq
  have hj : j < pk.words.length := hat.lt
  rw [repeated, hcount, Nat.mul_add_mod, Nat.mod_eq_of_lt hj, List.getD_eq_getElem?_getD,
    List.getElem?_eq_getElem hj]
  rfl

section Stream

variable {pkts : Nat → Packet} {wr : Nat → Bool} {w : Nat → Word} {f : Nat → ParserFsm}
  (hfsm : ∀ t, f (t + 1) = (f t).step (w t) false (wr t)) (hstart : (f 0).Waits)
  (hwords : Carries pkts wr w)

include hfsm hstart hwords

/-- The parser is where the stream is, if the packets sent have their entry words. -/
theorem parsing_of_sent (t : Nat)
    (hin : ∀ k, start (lengths pkts) (k + 1) ≤ count wr t → (pkts k).HeaderInside) :
    ∃ k j, IsAt (lengths pkts) (count wr t) k j ∧ Parsing (pkts k) (f t) j := by
  induction t with
  | zero => exact ⟨0, 0, isAt_zero (pkts 0).length_pos, hstart.parsing _⟩
  | succ t ih =>
    obtain ⟨k, j, hat, hparsing⟩ := ih fun k hk =>
      hin k (Nat.le_trans hk (count_mono wr (Nat.le_succ t)))
    rw [hfsm t, count_succ]
    cases hwr : wr t with
    | false => exact ⟨k, j, hat, (hparsing.idle _).2⟩
    | true =>
      have htracks := hparsing.tracks (hwords t k j hwr hat)
      by_cases hlt : j + 1 < (pkts k).words.length
      · exact ⟨k, j + 1, hat.succ hlt, htracks.parsing hlt⟩
      · have hlast : j + 1 = (pkts k).words.length := by
          have : j < (pkts k).words.length := hat.lt
          omega
        have hnext := hat.next hlast (pkts (k + 1)).length_pos
        have hinside : (pkts k).HeaderInside := by
          refine hin k (Nat.le_of_eq ?_)
          rw [count_succ, hwr]
          exact hnext.eq.symm
        exact ⟨k + 1, 0, hnext, ((htracks.waits hlast).mpr hinside).parsing _⟩

/-- Then `flow_entry_vld` has come once for each of them, and for the packet under way if its entry
word has come. -/
theorem count_of_sent (hvld : (f 0).flowEntryVld = false) (t : Nat)
    (hin : ∀ k, start (lengths pkts) (k + 1) ≤ count wr t → (pkts k).HeaderInside) {k j : Nat}
    (hat : IsAt (lengths pkts) (count wr t) k j) :
    count (fun t => (f t).flowEntryVld) (t + 1) =
      k + (decide ((pkts k).hdrs.length + (pkts k).entryWord < j)).toNat := by
  induction t generalizing k j with
  | zero =>
    obtain ⟨rfl, rfl⟩ := hat.unique (isAt_zero (pkts 0).length_pos)
    rw [count_succ, hvld]
    simp
  | succ t ih =>
    have hbefore : ∀ k, start (lengths pkts) (k + 1) ≤ count wr t → (pkts k).HeaderInside :=
      fun k hk => hin k (Nat.le_trans hk (count_mono wr (Nat.le_succ t)))
    obtain ⟨k₀, j₀, hat₀, hparsing⟩ := parsing_of_sent hfsm hstart hwords t hbefore
    have hcount := ih hbefore hat₀
    rw [count_succ, hcount, hfsm t]
    rw [count_succ] at hat
    cases hwr : wr t with
    | false =>
      rw [hwr] at hat
      obtain ⟨rfl, rfl⟩ := hat.unique hat₀
      rw [(hparsing.idle (w t)).1]
      rfl
    | true =>
      have htracks := hparsing.tracks (hwords t k₀ j₀ hwr hat₀)
      rw [hwr] at hat
      rw [htracks.vld]
      by_cases hlt : j₀ + 1 < (pkts k₀).words.length
      · obtain ⟨rfl, rfl⟩ := hat.unique (hat₀.succ hlt)
        rcases Nat.lt_trichotomy ((pkts k).hdrs.length + (pkts k).entryWord) j₀ with h | h | h
        · rw [decide_eq_true h, decide_eq_false (by omega), decide_eq_true (by omega)]
          rfl
        · rw [decide_eq_false (by omega), decide_eq_true h.symm, decide_eq_true (by omega)]
          rfl
        · rw [decide_eq_false (by omega), decide_eq_false (by omega), decide_eq_false (by omega)]
          rfl
      · have hlast : j₀ + 1 = (pkts k₀).words.length := by
          have : j₀ < (pkts k₀).words.length := hat₀.lt
          omega
        have hnext := hat₀.next hlast (pkts (k₀ + 1)).length_pos
        have hinside := hin k₀ (by rw [count_succ, hwr]; exact Nat.le_of_eq hnext.eq.symm)
        obtain ⟨rfl, rfl⟩ := hat.unique hnext
        rw [Packet.HeaderInside] at hinside
        have hlen := (pkts k₀).length_words
        rcases Nat.lt_or_eq_of_le
          (show (pkts k₀).hdrs.length + (pkts k₀).entryWord ≤ j₀ by omega) with h | h
        · rw [decide_eq_true h, decide_eq_false (by omega), decide_eq_false (Nat.not_lt_zero _)]
          rfl
        · rw [decide_eq_false (by omega), decide_eq_true h.symm, decide_eq_false (Nat.not_lt_zero _)]
          rfl

variable (hin : ∀ k, (pkts k).HeaderInside)

include hin

/-- The parser is where the stream is. -/
theorem parsing_of_carries (t : Nat) :
    ∃ k j, IsAt (lengths pkts) (count wr t) k j ∧ Parsing (pkts k) (f t) j :=
  parsing_of_sent hfsm hstart hwords t fun k _ => hin k

/-- `flow_entry_vld` follows the entry words. -/
theorem flowEntryVld_iff (t : Nat) :
    (f (t + 1)).flowEntryVld = true ↔ wr t = true ∧ ∃ k, count wr t = entryAt pkts k := by
  obtain ⟨k, j, hat, hparsing⟩ := parsing_of_carries hfsm hstart hwords hin t
  rw [hfsm t]
  cases hwr : wr t with
  | false => simp [(hparsing.idle (w t)).1]
  | true =>
    rw [(hparsing.tracks (hwords t k j hwr hat)).vld, decide_eq_true_eq]
    constructor
    · intro hj
      exact ⟨rfl, k, by rw [hat.eq, hj]; rfl⟩
    · rintro ⟨-, k', hk'⟩
      have hentry : IsAt (lengths pkts) (count wr t) k'
          ((pkts k').hdrs.length + (pkts k').entryWord) := by
        refine ⟨hk', ?_⟩
        have := hin k'
        rw [lengths, Packet.length_words]
        rw [Packet.HeaderInside] at this
        omega
      obtain ⟨rfl, hj⟩ := hat.unique hentry
      exact hj

/-- So there are as many flow entries as entry words. -/
theorem lt_count_flowEntryVld (hvld : (f 0).flowEntryVld = false) (t k : Nat) :
    k < count (fun t => (f t).flowEntryVld) (t + 1) ↔ entryAt pkts k < count wr t := by
  have hago : (fun t => (f t).flowEntryVld) = ago 1 fun t => (f (t + 1)).flowEntryVld :=
    funext (eq_ago_succ hvld fun t => (ago_zero (fun t => (f (t + 1)).flowEntryVld) t).symm)
  rw [hago, count_ago, Nat.add_sub_cancel]
  exact lt_count_iff (strictMono_entryAt hin) (flowEntryVld_iff hfsm hstart hwords hin) t k

/-- The flow entry of packet `k` comes in the cycle after its entry word. -/
theorem isNth_of_flowEntryVld (hvld : (f 0).flowEntryVld = false) {k T : Nat}
    (hT : IsNth (fun t => (f t).flowEntryVld) k T) :
    ∃ E, T = E + 1 ∧ IsNth wr (entryAt pkts k) E := by
  cases T with
  | zero =>
    have := hT.pulse
    rw [hvld] at this
    cases this
  | succ E =>
    obtain ⟨hwr, k', hk'⟩ := (flowEntryVld_iff hfsm hstart hwords hin E).mp hT.pulse
    have hmono := strictMono_entryAt hin
    have hlt : ∀ m, m < k ↔ m < k' := by
      intro m
      have := lt_count_flowEntryVld hfsm hstart hwords hin hvld E m
      rwa [hT.before, hk', hmono.lt_iff_lt] at this
    obtain rfl : k = k' := Nat.le_antisymm (Nat.le_of_not_lt fun h => Nat.lt_irrefl _ ((hlt _).mp h))
      (Nat.le_of_not_lt fun h => Nat.lt_irrefl _ ((hlt _).mpr h))
    exact ⟨E, rfl, hwr, hk'⟩

end Stream

/-- A stream of packets is presented to the parser. -/
structure Presented (pkts : Nat → Packet) (i : Nat → ParserIn) (s : Nat → HeaderParser) : Prop where
  follows : Follows HeaderParser.step i s
  reset : ∀ t, (i t).reset = false
  waits : (s 0).fsm.Waits
  vld : (s 0).fsm.flowEntryVld = false
  carries : Carries pkts (fun t => (i t).inWr) fun t => (i t).word

/-- `flow_entry_vld` comes once for each packet, after its first word and at the latest in the cycle
after its last one, and the parser waits for the next packet. -/
structure OneFlowEntry (pkts : Nat → Packet) (i : Nat → ParserIn) (s : Nat → HeaderParser) :
    Prop where
  counted : ∀ t k j, IsAt (lengths pkts) (count (fun t => (i t).inWr) t) k j →
    count (fun t => (s t).fsm.flowEntryVld) (t + 1) = k ∨
      0 < j ∧ count (fun t => (s t).fsm.flowEntryVld) (t + 1) = k + 1
  waits : ∀ t k, count (fun t => (i t).inWr) t = start (lengths pkts) k → (s t).fsm.Waits

namespace Presented

variable {pkts : Nat → Packet} {i : Nat → ParserIn} {s : Nat → HeaderParser}

theorem fsm (h : Presented pkts i s) (t : Nat) :
    (s (t + 1)).fsm = (s t).fsm.step (i t).word false (i t).inWr := by
  rw [h.follows t, ← h.reset t]
  rfl

theorem oneFlowEntry_of_sent (h : Presented pkts i s)
    (hin : ∀ k t, start (lengths pkts) (k + 1) ≤ count (fun t => (i t).inWr) t →
      (pkts k).HeaderInside) : OneFlowEntry pkts i s where
  counted t k j hat := by
    have hcount := count_of_sent (f := fun t => (s t).fsm) h.fsm h.waits h.carries h.vld t
      (fun k => hin k t) hat
    by_cases hj : (pkts k).hdrs.length + (pkts k).entryWord < j
    · rw [decide_eq_true hj] at hcount
      exact .inr ⟨by omega, hcount⟩
    · rw [decide_eq_false hj] at hcount
      exact .inl hcount
  waits t k hk := by
    obtain ⟨k', j, hat, hparsing⟩ := parsing_of_sent (f := fun t => (s t).fsm) h.fsm h.waits
      h.carries t fun k => hin k t
    obtain ⟨rfl, hj⟩ := hat.unique ⟨hk, (pkts k).length_pos⟩
    exact hparsing.waits hj

/-- The first packet without its entry word leaves the parser in the header. -/
theorem headerInside_of_sent (h : Presented pkts i s) (hone : OneFlowEntry pkts i s) (k : Nat) :
    ∀ t, start (lengths pkts) (k + 1) ≤ count (fun t => (i t).inWr) t →
      (pkts k).HeaderInside := by
  induction k using Nat.strong_induction_on with
  | _ k ih =>
    intro t ht
    have hpos := (pkts k).length_pos
    have hstart : start (lengths pkts) (k + 1) =
        start (lengths pkts) k + (pkts k).words.length := rfl
    have hlt : start (lengths pkts) k + ((pkts k).words.length - 1) <
        count (fun t => (i t).inWr) t := by
      omega
    obtain ⟨u, -, hwr, hu⟩ := exists_nth hlt
    have hat : IsAt (lengths pkts) (count (fun t => (i t).inWr) u) k
        ((pkts k).words.length - 1) := ⟨hu, Nat.sub_lt hpos Nat.one_pos⟩
    have hbefore : ∀ k', start (lengths pkts) (k' + 1) ≤ count (fun t => (i t).inWr) u →
        (pkts k').HeaderInside := by
      intro k' hk'
      refine ih k' (Nat.lt_of_not_le fun hle => ?_) u hk'
      have : start (lengths pkts) (k + 1) ≤ start (lengths pkts) (k' + 1) :=
        start_mono (lengths pkts) (Nat.succ_le_succ hle)
      omega
    obtain ⟨k₀, j, hat₀, hparsing⟩ := parsing_of_sent (f := fun t => (s t).fsm) h.fsm h.waits
      h.carries u hbefore
    obtain ⟨rfl, rfl⟩ := hat.unique hat₀
    have htracks := hparsing.tracks (h.carries u k _ hwr hat)
    have hwaits : (s (u + 1)).fsm.Waits := by
      refine hone.waits (u + 1) (k + 1) ?_
      rw [count_succ, hwr, hu, hstart, if_pos rfl]
      omega
    rw [h.fsm u, hwr] at hwaits
    exact (htracks.waits (by omega)).mp hwaits

end Presented

/-! The header of the input queue alone before a packet, and a last word. -/

theorem ctrl_of_ioq : ∀ w ∈ [(⟨ioQueueStageNum, 0⟩ : Word)], w.ctrl ≠ 0 := by decide

theorem ioq_mem : ∃ w ∈ [(⟨ioQueueStageNum, 0⟩ : Word)], w.ctrl = ioQueueStageNum :=
  ⟨_, List.mem_singleton_self _, rfl⟩

theorem ctrl_of_last : (⟨1, 0⟩ : Word).ctrl ≠ 0 := by decide

/-- A UDP packet of eight data words whose IP header has the given length. -/
def udpOf (ipHdrLen : BitVec 4) : Packet where
  hdrs := [⟨ioQueueStageNum, 0⟩]
  body := [⟨0, 0⟩, ⟨0, 0x08004#52 ++ ipHdrLen ++ 0#8⟩, ⟨0, 0x11⟩, ⟨0, 0⟩, ⟨0, 0⟩, ⟨0, 0⟩, ⟨0, 0⟩]
  last := ⟨1, 0⟩
  hdrs_ctrl := ctrl_of_ioq
  ioq := ioq_mem
  body_ctrl := by simp
  last_ctrl := ctrl_of_last
  size := Nat.le_refl 7

/-- A packet over and over, a word in each cycle of `wr`. -/
def ParserIn.repeating (pk : Packet) (wr : Nat → Bool) (t : Nat) : ParserIn :=
  ⟨repeated pk wr t, wr t, ⟨false, false, false, 0, 0, 0⟩, false⟩

theorem presented_repeating (pk : Packet) (wr : Nat → Bool) :
    Presented (fun _ => pk) (.repeating pk wr)
      (run HeaderParser.step .start (.repeating pk wr)) where
  follows := follows_run _ _ _
  reset _ := rfl
  waits := .inl rfl
  vld := rfl
  carries := carries_repeated pk wr

/-- The condition is on the packets that were sent to the end. -/
theorem Presented.oneFlowEntry_iff (h : Presented pkts i s) :
    OneFlowEntry pkts i s ↔
      ∀ k t, start (lengths pkts) (k + 1) ≤ count (fun t => (i t).inWr) t →
        (pkts k).HeaderInside :=
  ⟨h.headerInside_of_sent, h.oneFlowEntry_of_sent⟩

theorem oneFlowEntry_of_udp :
    OneFlowEntry (fun _ => udpOf 5) (.repeating (udpOf 5) fun t => t % 3 != 2)
      (run HeaderParser.step .start (.repeating (udpOf 5) fun t => t % 3 != 2)) :=
  (presented_repeating _ _).oneFlowEntry_iff.mpr fun _ _ _ => by
    show (udpOf 5).entryWord < (udpOf 5).data.length
    decide

/-- The options of a header of fifteen words go beyond the packet. -/
theorem header_beyond_packet :
    let i := ParserIn.repeating (udpOf 15) fun _ => true
    let s := run HeaderParser.step .start i
    Presented (fun _ => udpOf 15) i s ∧ ¬ OneFlowEntry (fun _ => udpOf 15) i s := by
  intro i s
  have h : Presented (fun _ => udpOf 15) i s := presented_repeating _ _
  refine ⟨h, fun hone => ?_⟩
  have hinside : (udpOf 15).entryWord < (udpOf 15).data.length :=
    h.headerInside_of_sent hone 0 9 (by decide)
  exact absurd hinside (by decide)

end Sdpa.Hardware
