import Sdpa.Hardware.HeaderRewrites

/-!
# The second state machine word by word

`PostAt n` describes the registers when the packet has moved on by `n` data words: what is
known of the sums and where the two counters stand. A word more brings it to
`PostAt (n + 1)`, and the word that leaves is the one that the action makes of it.
-/
namespace Sdpa.Hardware

open OplAction Lib.OnesComplement

/-- The data word in which the transport header begins. -/
def Packet.tpIdx (pk : Packet) : Nat := pk.tpAt / 4

/-- How far the counter of the transport header is from `TP_HDR_WAIT`. -/
def TpHdrCntr.rank : TpHdrCntr → Nat
  | .wait => 0
  | .odd2 | .evn2 => 1
  | .odd3 | .evn3 => 2
  | .odd4 | .evn4 => 3
  | .odd5 | .evn5 => 4
  | .odd6 | .evn6 => 5

namespace OplRewriter

/-! ## The sums of the differences -/

section

variable (a : BitVec 320) (pk : Packet)

def tosDelta : Nat := delta pk (tosWrites a pk)

def srcHDelta : Nat := delta pk (writeIf a ofpatSetNwSrc [(13, (setNwSrc a).extractLsb' 16 16)])

def srcLDelta : Nat := delta pk (writeIf a ofpatSetNwSrc [(14, (setNwSrc a).extractLsb' 0 16)])

def dstHDelta : Nat := delta pk (writeIf a ofpatSetNwDst [(15, (setNwDst a).extractLsb' 16 16)])

def dstLDelta : Nat := delta pk (writeIf a ofpatSetNwDst [(16, (setNwDst a).extractLsb' 0 16)])

def tpSrcDelta : Nat := delta pk (writeIf a ofpatSetTpSrc [(pk.tpAt, setTpSrc a)])

def tpDstDelta : Nat := delta pk (writeIf a ofpatSetTpDst [(pk.tpAt + 1, setTpDst a)])

theorem delta_writeIf_pair (flag : BitVec 16) (v w : Write) :
    delta pk (writeIf a flag [v, w]) =
      delta pk (writeIf a flag [v]) + delta pk (writeIf a flag [w]) := by
  rw [writeIf, writeIf, writeIf]
  split
  · exact delta_append pk [v] [w]
  · rfl

theorem delta_addrWrites :
    delta pk (addrWrites a) =
      srcLDelta a pk + srcHDelta a pk + (dstLDelta a pk + dstHDelta a pk) := by
  rw [addrWrites, delta_append, delta_writeIf_pair, delta_writeIf_pair, srcLDelta, srcHDelta,
    dstLDelta, dstHDelta]
  omega

theorem delta_portWrites : delta pk (portWrites a pk) = tpSrcDelta a pk + tpDstDelta a pk :=
  delta_append pk _ _

end

/-! ## The registers between two words -/

variable (a : BitVec 320) (pk : Packet)

/-- Before the fifth data word. -/
inductive HeadAt (n : Nat) (r : OplRewriter) : Prop
  | start (lt : n < 2)
  | tos (eq : n = 2 ∨ n = 3) (sum : r.nwChksumNew.toNat = fold (tosDelta a pk))
  | diffs (eq : n = 4)
      (sum : r.nwChksumNew.toNat = fold (tosDelta a pk + (65535 - (pk.half 12).toNat)))
      (srcH : r.nwSrcHDiff.toNat = fold (srcHDelta a pk))
      (srcL : r.nwSrcLDiff.toNat = fold (srcLDelta a pk))
      (dstH : r.nwDstHDiff.toNat = fold (dstHDelta a pk))

/-- The IP header, from the fifth data word on. -/
inductive IpAt (n : Nat) (r : OplRewriter) : Prop
  | rest1 (eq : n = 5) (cntr : r.ipHdrCntr = .rest1)
      (sum : r.nwChksumNew.toNat =
        fold (tosDelta a pk + (65535 - (pk.half 12).toNat) + dstHDelta a pk))
      (src : r.nwSrcDiff.toNat = fold (srcLDelta a pk + srcHDelta a pk))
      (dstL : r.nwDstLDiff.toNat = fold (dstLDelta a pk))
      (dstH : r.nwDstHDiff.toNat = fold (dstHDelta a pk))
  | rest2 (eq : n = 6) (cntr : r.ipHdrCntr = .rest2)
      (sum : carry r.nwChksumNew.toNat =
        fold (65535 - (pk.half 12).toNat + delta pk (tosWrites a pk ++ addrWrites a)))
      (src : r.nwSrcDiff.toNat = fold (srcLDelta a pk + srcHDelta a pk))
      (dst : r.nwDstDiff.toNat = fold (dstLDelta a pk + dstHDelta a pk))
  | rest3 (eq : n = 7) (cntr : r.ipHdrCntr = .rest3)
      (all : r.nwAllDiff.toNat = fold (delta pk (addrWrites a)))
  | stop (le : 8 ≤ n) (cntr : r.ipHdrCntr = .stop)
      (all : r.nwAllDiff.toNat = fold (delta pk (addrWrites a)))

/-- The counter `d` words behind the word of the transport header, which begins in half `m`. -/
structure Turn (n : Nat) (r : OplRewriter) (d m : Nat) (c : TpHdrCntr) : Prop where
  eq : n = pk.tpIdx + d
  mod : pk.tpAt % 4 = m
  cntr : r.tpHdrCntr = c

/-- Sums that take in words behind the packet are of no account. -/
def SumIs (k : Nat) (r : OplRewriter) (x : Nat) : Prop :=
  k < 4 * pk.data.length → r.tpChksumNew.toNat = fold x

def InvIs (k : Nat) (r : OplRewriter) : Prop :=
  k < 4 * pk.data.length → r.tpChksumOrgInv = ~~~(pk.half k)

def portSum (k : Nat) : Nat := delta pk (portWrites a pk) + (65535 - (pk.half k).toNat)

def allSum (k : Nat) : Nat :=
  65535 - (pk.half k).toNat + delta pk (addrWrites a ++ portWrites a pk)

/-- The transport header of a packet with a checksum in half `k`, from the fifth data word on. It
begins in half 1 of its word, and the counter is then an odd one, or in half 3. -/
inductive TpIn (k n : Nat) (r : OplRewriter) : Prop
  | wait (le : n ≤ pk.tpIdx) (cntr : r.tpHdrCntr = .wait)
  | odd2 (turn : Turn pk n r 1 1 .odd2) (src : r.tpSrcDiff.toNat = fold (tpSrcDelta a pk))
      (dst : r.tpDstDiff.toNat = fold (tpDstDelta a pk))
  | odd3 (turn : Turn pk n r 2 1 .odd3)
      (sum : r.tpChksumNew.toNat = fold (delta pk (portWrites a pk)))
      (inv : pk.isUdp = true → InvIs pk k r)
  | odd4 (turn : Turn pk n r 3 1 .odd4) (sum : SumIs pk k r (portSum a pk k))
  | odd5 (turn : Turn pk n r 4 1 .odd5) (sum : SumIs pk k r (allSum a pk k))
  | odd6 (turn : Turn pk n r 5 1 .odd6) (udp : pk.isUdp = false)
      (sum : SumIs pk k r (allSum a pk k))
  | evn2 (turn : Turn pk n r 1 3 .evn2) (src : r.tpSrcDiff.toNat = fold (tpSrcDelta a pk))
  | evn3 (turn : Turn pk n r 2 3 .evn3) (src : r.tpSrcDiff.toNat = fold (tpSrcDelta a pk))
      (dst : k < 4 * pk.data.length → r.tpDstDiff.toNat = fold (tpDstDelta a pk))
      (inv : pk.isUdp = true → InvIs pk k r)
  | evn4 (turn : Turn pk n r 3 3 .evn4) (sum : SumIs pk k r (delta pk (portWrites a pk)))
      (inv : InvIs pk k r)
  | evn5 (turn : Turn pk n r 4 3 .evn5) (sum : SumIs pk k r (portSum a pk k))
  | evn6 (turn : Turn pk n r 5 3 .evn6) (udp : pk.isUdp = false)
      (sum : SumIs pk k r (allSum a pk k))

/-- The transport header of any packet. -/
inductive TpAt (n : Nat) (r : OplRewriter) : Prop
  | none (no : pk.tpChecksumAt = none) (rank : r.tpHdrCntr.rank + 4 ≤ n)
  | short (ip : pk.isIp = true) (lt : pk.ipHdrLen.toNat < 5) (cntr : r.tpHdrCntr = .wait)
  | outside (ip : pk.isIp = true) (le : pk.data.length ≤ pk.tpIdx)
      (rank : r.tpHdrCntr.rank ≤ n - pk.data.length)
  | inside {k : Nat} (yes : pk.tpChecksumAt = some k) (ge : 5 ≤ pk.ipHdrLen.toNat)
      (lt : pk.tpIdx < pk.data.length) (tp : TpIn a pk k n r)

/-- The registers when the packet has moved on by `n` data words. -/
inductive PostAt (n : Nat) (r : OplRewriter) : Prop
  | head (post : r.postState = .followPrepState) (lt : n < 5) (head : HeadAt a pk n r)
  | rest (post : r.postState = .replaceRest) (le : 5 ≤ n) (ip : IpAt a pk n r)
      (tp : TpAt a pk n r)
  | through (post : r.postState = .followPrepState) (le : 8 ≤ n)
      (done : ∀ h, 4 * (n - 3) ≤ h → (tpWrites a pk).lookup h = none)

/-- The counter of the header before data word `n`. -/
def hdrOf : Nat → HdrReplace
  | 1 => .hdr2nd
  | 2 => .hdr3rd
  | 3 => .hdr4th
  | 4 => .hdr5th
  | _ => .hdr6th

/-- What the first state machine knows of the packet after `n` data words. -/
structure Parsed (n : Nat) (s : OplProcessor) : Prop where
  within : s.state ≠ .writeReplacements
  first : n = 0 → s.state ≠ .hdrCont
  cont : 1 ≤ n → n ≤ 4 → s.state = .hdrCont
  hdr : 1 ≤ n → s.state = .hdrCont → s.hdrReplaceCntr = hdrOf n
  isIp : 2 ≤ n → s.isIp = pk.isIp
  isUdp : 3 ≤ n → s.isUdp = pk.isUdp
  isTcp : 3 ≤ n → s.isTcp = pk.isTcp
  len : pk.isIp = true → 4 ≤ n → n < pk.data.length → n ≤ pk.tpIdx →
    s.ipHdrLen.toNat = pk.ipHdrLen.toNat - 2 * (n - 4)
  lenShort : pk.isIp = true → pk.ipHdrLen.toNat < 5 → 4 ≤ n → s.ipHdrLen = pk.ipHdrLen

variable {a pk} {n : Nat} {r next : OplRewriter} {s : OplProcessor} {w : BitVec 64}

/-! ## The Ethernet header and the IP header -/

theorem headAt_hdr4th (hsum : r.nwChksumNew.toNat = fold (tosDelta a pk)) :
    HeadAt a pk 4 (hdr4th a (pk.word 3) r) :=
  .diffs rfl (toNat_fold18_add hsum (toNat_inv (pk.half 12) (by omega)))
    (toNat_diffIf a pk _ _ 13) (toNat_diffIf a pk _ _ 14) (toNat_diffIf a pk _ _ 15)

theorem toNat_setWidth_fold {x : BitVec 17} {m : Nat} (hx : x.toNat = fold m) :
    (x.setWidth 18).toNat = fold m := by
  have := fold_le m
  rw [BitVec.toNat_setWidth, hx, Nat.mod_eq_of_lt (by omega)]

/-- The registers of the IP header are the same. -/
structure SameNw (r r' : OplRewriter) : Prop where
  cntr : r'.ipHdrCntr = r.ipHdrCntr
  sum : r'.nwChksumNew = r.nwChksumNew
  src : r'.nwSrcDiff = r.nwSrcDiff
  dstL : r'.nwDstLDiff = r.nwDstLDiff
  dstH : r'.nwDstHDiff = r.nwDstHDiff
  dst : r'.nwDstDiff = r.nwDstDiff
  all : r'.nwAllDiff = r.nwAllDiff

theorem IpAt.congr (h : IpAt a pk n r) (hsame : SameNw r next) : IpAt a pk n next := by
  cases h with
  | rest1 eq cntr sum src dstL dstH =>
    exact .rest1 eq (hsame.cntr ▸ cntr) (hsame.sum ▸ sum) (hsame.src ▸ src) (hsame.dstL ▸ dstL)
      (hsame.dstH ▸ dstH)
  | rest2 eq cntr sum src dst =>
    exact .rest2 eq (hsame.cntr ▸ cntr) (hsame.sum ▸ sum) (hsame.src ▸ src) (hsame.dst ▸ dst)
  | rest3 eq cntr all => exact .rest3 eq (hsame.cntr ▸ cntr) (hsame.all ▸ all)
  | stop le cntr all => exact .stop le (hsame.cntr ▸ cntr) (hsame.all ▸ all)

theorem sameNw_startTp : SameNw r (startTp a w s r) := by
  rw [startTp]
  split_ifs <;> exact ⟨rfl, rfl, rfl, rfl, rfl, rfl, rfl⟩

theorem sameNw_tpRest : SameNw next (tpRest a w s r next) := by
  rw [tpRest]
  cases r.tpHdrCntr with
  | wait => exact sameNw_startTp
  | odd5 | evn5 =>
    dsimp only
    split_ifs <;> exact ⟨rfl, rfl, rfl, rfl, rfl, rfl, rfl⟩
  | _ => exact ⟨rfl, rfl, rfl, rfl, rfl, rfl, rfl⟩

theorem ipAt_hdr5th (hsum : r.nwChksumNew.toNat = fold (tosDelta a pk + (65535 - (pk.half 12).toNat)))
    (hsrcH : r.nwSrcHDiff.toNat = fold (srcHDelta a pk))
    (hsrcL : r.nwSrcLDiff.toNat = fold (srcLDelta a pk))
    (hdstH : r.nwDstHDiff.toNat = fold (dstHDelta a pk)) :
    IpAt a pk 5 (hdr5th a (pk.word 4) s r) := by
  refine IpAt.congr ?_ sameNw_startTp
  exact .rest1 rfl rfl (toNat_fold18_add hsum (toNat_setWidth_fold hdstH))
    (toNat_fold17_add hsrcL hsrcH) (toNat_diffIf a pk _ _ 16) hdstH

/-- The last sum may be folded once more. -/
theorem carry_nwChksumNew {x : BitVec 18} {y z : BitVec 17} {l m n : Nat} (hx : x.toNat = fold l)
    (hy : y.toNat = fold m) (hz : z.toNat = fold n) :
    carry (fold18 (x + y.setWidth 18 + z.setWidth 18)).toNat = fold (l + m + n) := by
  have hl := fold_le l
  have hm := fold_le m
  have hn := fold_le n
  have hsum : (x + y.setWidth 18 + z.setWidth 18).toNat = fold l + fold m + fold n := by
    rw [BitVec.toNat_add, BitVec.toNat_add, toNat_setWidth_fold hy, toNat_setWidth_fold hz, hx,
      Nat.mod_eq_of_lt (by omega : fold l + fold m < 2 ^ 18), Nat.mod_eq_of_lt (by omega)]
  rw [toNat_fold18, hsum, carry_eq_fold (by rw [carry]; omega), fold_carry, Nat.add_assoc,
    fold_fold_add, ← Nat.add_assoc, fold_add_fold, Nat.add_right_comm, fold_add_fold,
    Nat.add_right_comm]

theorem IpAt.tick (h : IpAt a pk n r) (hip : s.isIp = pk.isIp)
    (hout : r.outData = pk.word (n - 3)) :
    IpAt a pk (n + 1) (ipRest a s r) ∧ (ipRest a s r).outData = nwWord a pk (n - 3) := by
  cases h with
  | rest1 eq cntr sum src dstL dstH =>
    subst eq
    rw [ipRest, cntr, nwWord_two]
    refine ⟨.rest2 rfl rfl ?_ src (toNat_fold17_add dstL dstH), hout⟩
    rw [carry_nwChksumNew sum dstL src, delta_append, delta_addrWrites]
    congr 1
    rw [tosDelta]
    omega
  | rest2 eq cntr sum src dst =>
    subst eq
    rw [ipRest, cntr, nwWord_three]
    refine ⟨.rest3 rfl rfl ?_, ?_⟩
    · rw [delta_addrWrites, Nat.add_comm]
      exact toNat_fold17_add dst src
    · have hchksum := not_setWidth_eq (toNat_fold18 r.nwChksumNew ▸ sum)
      dsimp only
      rw [hip, hout, hchksum]
      rfl
  | rest3 eq cntr all =>
    subst eq
    rw [ipRest, cntr, nwWord_four]
    refine ⟨.stop (Nat.le_refl 8) rfl all, ?_⟩
    dsimp only
    rw [hip, hout]
  | stop le cntr all =>
    rw [ipRest, cntr, nwWord_of_ge (by omega)]
    exact ⟨.stop (by omega) cntr all, hout⟩

/-! ## The transport header -/

/-- The registers of the transport header are the same. -/
structure SameTp (r r' : OplRewriter) : Prop where
  cntr : r'.tpHdrCntr = r.tpHdrCntr
  src : r'.tpSrcDiff = r.tpSrcDiff
  dst : r'.tpDstDiff = r.tpDstDiff
  inv : r'.tpChksumOrgInv = r.tpChksumOrgInv
  sum : r'.tpChksumNew = r.tpChksumNew

theorem sameTp_ipRest : SameTp r (ipRest a s r) := by
  rw [ipRest]
  cases r.ipHdrCntr <;> exact ⟨rfl, rfl, rfl, rfl, rfl⟩

theorem tpAt_eq (pk : Packet) :
    pk.tpAt = 4 * pk.tpIdx + 1 ∧ pk.tpAt % 4 = 1 ∧ pk.ipHdrLen.toNat = 2 * pk.tpIdx - 3 ∨
      pk.tpAt = 4 * pk.tpIdx + 3 ∧ pk.tpAt % 4 = 3 ∧ pk.ipHdrLen.toNat = 2 * pk.tpIdx - 2 := by
  rw [Packet.tpIdx, Packet.tpAt]
  omega

theorem tpChecksumAt_cases {k : Nat} (hk : pk.tpChecksumAt = some k) :
    pk.isIp = true ∧ (pk.isUdp = true ∧ pk.isTcp = false ∧ k = pk.tpAt + 3 ∨
      pk.isUdp = false ∧ pk.isTcp = true ∧ k = pk.tpAt + 8) := by
  rw [Packet.tpChecksumAt] at hk
  cases hudp : pk.isUdp with
  | true =>
    rw [hudp, if_pos rfl, Option.some_inj] at hk
    rw [Packet.isUdp, Bool.and_eq_true, decide_eq_true_eq] at hudp
    refine ⟨hudp.1, .inl ⟨rfl, ?_, hk.symm⟩⟩
    rw [Packet.isTcp, hudp.2]
    exact Bool.and_false _
  | false =>
    rw [hudp, if_neg Bool.false_ne_true] at hk
    cases htcp : pk.isTcp with
    | false =>
      rw [htcp] at hk
      cases hk
    | true =>
      rw [htcp, if_pos rfl, Option.some_inj] at hk
      rw [Packet.isTcp, Bool.and_eq_true] at htcp
      exact ⟨htcp.1, .inr ⟨rfl, rfl, hk.symm⟩⟩

theorem frame_startTp :
    (startTp a w s r).outData = r.outData ∧ (startTp a w s r).postState = r.postState := by
  rw [startTp]
  split_ifs <;> exact ⟨rfl, rfl⟩

theorem rank_startTp : (startTp a w s r).tpHdrCntr.rank ≤ 1 := by
  rw [startTp]
  split_ifs
  · exact Nat.le_refl 1
  · exact Nat.le_refl 1
  · exact Nat.zero_le 1

theorem startTp_five (h : s.ipHdrLen.toNat = 5) :
    startTp a w s r =
      { r with
        tpSrcDiff := diffIf a ofpatSetTpSrc (setTpSrc a) (w.extractLsb' 32 16)
        tpDstDiff := diffIf a ofpatSetTpDst (setTpDst a) (w.extractLsb' 16 16)
        tpHdrCntr := .odd2 } := if_pos (BitVec.eq_of_toNat_eq h)

theorem startTp_six (h : s.ipHdrLen.toNat = 6) :
    startTp a w s r =
      { r with
        tpSrcDiff := diffIf a ofpatSetTpSrc (setTpSrc a) (w.extractLsb' 0 16)
        tpHdrCntr := .evn2 } := by
  have h5 : s.ipHdrLen ≠ 5 := fun heq => absurd (congrArg BitVec.toNat heq) (by rw [h]; decide)
  rw [startTp, if_neg h5]
  exact if_pos (BitVec.eq_of_toNat_eq h)

theorem startTp_other (h5 : s.ipHdrLen.toNat ≠ 5) (h6 : s.ipHdrLen.toNat ≠ 6) :
    startTp a w s r = { r with tpHdrCntr := .wait } := by
  rw [startTp, if_neg fun heq => h5 (congrArg BitVec.toNat heq),
    if_neg fun heq => h6 (congrArg BitVec.toNat heq)]

/-- The ports are found when the rest of the IP header is five or six words long. -/
theorem tpIn_startTp {k : Nat} (hip : pk.isIp = true) (hge : 5 ≤ pk.ipHdrLen.toNat)
    (hp : Parsed pk n s) (hn : 4 ≤ n) (hlt : n < pk.data.length) (hle : n ≤ pk.tpIdx)
    (hword : w = pk.word n) : TpIn a pk k (n + 1) (startTp a w s r) := by
  have hlen := hp.len hip hn hlt hle
  rcases Nat.lt_or_eq_of_le hle with hbefore | hhere
  · rw [startTp_other]
    · exact .wait hbefore rfl
    · rcases tpAt_eq pk with hat | hat <;> omega
    · rcases tpAt_eq pk with hat | hat <;> omega
  · have hsrc := toNat_diffIf a pk ofpatSetTpSrc (setTpSrc a) pk.tpAt
    have hdst := toNat_diffIf a pk ofpatSetTpDst (setTpDst a) (pk.tpAt + 1)
    rcases tpAt_eq pk with ⟨hat, hmod, hihl⟩ | ⟨hat, hmod, hihl⟩
    · have h1 : w.extractLsb' 32 16 = pk.half pk.tpAt := by
        rw [hat, ← hhere, hword]
        exact half_word pk n (j := 1) (by omega)
      have h2 : w.extractLsb' 16 16 = pk.half (pk.tpAt + 1) := by
        rw [hat, ← hhere, hword]
        exact half_word pk n (j := 2) (by omega)
      rw [startTp_five (by omega), h1, h2]
      exact .odd2 ⟨by omega, hmod, rfl⟩ hsrc hdst
    · have h3 : w.extractLsb' 0 16 = pk.half pk.tpAt := by
        rw [hat, ← hhere, hword]
        exact half_word pk n (j := 3) (by omega)
      rw [startTp_six (by omega), h3]
      exact .evn2 ⟨by omega, hmod, rfl⟩ hsrc

/-- What a word does with the transport header: it goes on or is over. -/
structure TpTick (a : BitVec 320) (pk : Packet) (k n : Nat) (out : BitVec 64) (r : OplRewriter) :
    Prop where
  out : r.outData = putTp a pk (n - 3) out
  goes : r.postState = .replaceRest ∧ TpIn a pk k (n + 1) r ∨
    r.postState = .followPrepState ∧ 8 ≤ n + 1 ∧
      ∀ h, 4 * (n + 1 - 3) ≤ h → (tpWrites a pk).lookup h = none

/-- The last one of the writes. -/
theorem lookup_tpWrites_of_ge {h k : Nat} (hk : pk.tpChecksumAt = some k)
    (hge : 5 ≤ pk.ipHdrLen.toNat) (hh : k < h) : (tpWrites a pk).lookup h = none := by
  have := tpChecksumAt_ge hk
  rw [lookup_tpWrites_eq hk hge, if_neg (by omega), if_neg (by omega), if_neg (by omega)]

/-- The sum with the differences of the addresses is that of the checksum. -/
theorem fold_all {k : Nat} {x y : BitVec 17} (hx : x.toNat = fold (portSum a pk k))
    (hy : y.toNat = fold (delta pk (addrWrites a))) :
    (fold17 (x + y)).toNat = fold (allSum a pk k) := by
  rw [toNat_fold17_add hx hy, portSum, allSum, delta_append]
  congr 1
  omega

/-- A word comes when the packet has moved on by `n` words, after `ipRest` has made `next` of the
registers. From the end of the packet on it is not one of its words. -/
structure Meets (pk : Packet) (k n : Nat) (w : BitVec 64) (s : OplProcessor)
    (r next : OplRewriter) : Prop where
  checksum : pk.tpChecksumAt = some k
  len : 5 ≤ pk.ipHdrLen.toNat
  parsed : Parsed pk n s
  ge : 5 ≤ n
  lt : n < pk.data.length + 3
  word : n < pk.data.length → w = pk.word n
  same : SameTp r next
  post : next.postState = .replaceRest

namespace Meets

variable {k : Nat} (m : Meets pk k n w s r next)

include m

theorem isTp : (s.isUdp || s.isTcp) = true := by
  have hn := m.ge
  rw [m.parsed.isUdp (by omega), m.parsed.isTcp (by omega)]
  obtain ⟨-, ⟨hudp, htcp, -⟩ | ⟨hudp, htcp, -⟩⟩ := tpChecksumAt_cases m.checksum
  · rw [hudp, htcp]
    rfl
  · rw [hudp, htcp]
    rfl

theorem idx : 4 ≤ pk.tpIdx := by
  have := m.len
  rcases tpAt_eq pk with hat | hat <;> omega

theorem untouched (hports : 4 * (n - 3) + 3 < pk.tpAt ∨ pk.tpAt + 1 < 4 * (n - 3))
    (hkm : k < 4 * (n - 3) ∨ 4 * (n - 3) + 3 < k) (v : BitVec 64) :
    v = putTp a pk (n - 3) v := (putTp_of_beside m.checksum m.len hports hkm).symm

theorem half_eq {h j : Nat} (hj : j < 4) (hh : h = 4 * n + j) (hlt : h < 4 * pk.data.length) :
    half w j = pk.half h := by
  rw [m.word (by omega), hh]
  exact half_word pk n hj

/-- The checksum that is to be updated. -/
theorem orgInv_udp {j : Nat} (hj : j < 4) (hh : pk.tpAt + 3 = 4 * n + j) (hudp : pk.isUdp = true)
    (hlt : k < 4 * pk.data.length) : orgInv w r s.isUdp (48 - 16 * j) = ~~~(pk.half k) := by
  have hn := m.ge
  rw [orgInv, m.parsed.isUdp (by omega), hudp, if_pos rfl]
  obtain ⟨-, ⟨-, -, hkeq⟩ | ⟨hno, -, -⟩⟩ := tpChecksumAt_cases m.checksum
  · rw [← m.half_eq hj (hkeq.trans hh) hlt]
    rfl
  · rw [hudp] at hno
    cases hno

theorem orgInv_tcp {j : Nat} (hj : j < 4) (hh : pk.tpAt + 8 = 4 * n + j)
    (hlt : k < 4 * pk.data.length) (hinv : pk.isUdp = true → InvIs pk k r) :
    orgInv w r s.isTcp (48 - 16 * j) = ~~~(pk.half k) := by
  have hn := m.ge
  rw [orgInv, m.parsed.isTcp (by omega)]
  obtain ⟨-, ⟨hudp, htcp, -⟩ | ⟨-, htcp, hkeq⟩⟩ := tpChecksumAt_cases m.checksum
  · rw [htcp, if_neg Bool.false_ne_true, hinv hudp hlt]
  · rw [htcp, if_pos rfl, ← m.half_eq hj (hkeq.trans hh) hlt]
    rfl

theorem tcp_of_not_udp (hudp : pk.isUdp = false) : pk.isTcp = true ∧ k = pk.tpAt + 8 := by
  obtain ⟨-, ⟨hyes, -, -⟩ | ⟨-, htcp, hkeq⟩⟩ := tpChecksumAt_cases m.checksum
  · rw [hudp] at hyes
    cases hyes
  · exact ⟨htcp, hkeq⟩

theorem tick_wait (hle : n ≤ pk.tpIdx) (hlt : pk.tpIdx < pk.data.length)
    (hcntr : r.tpHdrCntr = .wait) : TpTick a pk k n next.outData (tpRest a w s r next) := by
  have hge := m.ge
  have hk3 := tpChecksumAt_ge m.checksum
  have hidx : 4 * pk.tpIdx < pk.tpAt := by rcases tpAt_eq pk with hat | hat <;> omega
  obtain ⟨hout, hpost⟩ := frame_startTp (a := a) (w := w) (s := s) (r := next)
  rw [tpRest, hcntr]
  refine ⟨hout.trans (m.untouched (by omega) (by omega) _), .inl ⟨hpost.trans m.post, ?_⟩⟩
  exact tpIn_startTp (tpChecksumAt_cases m.checksum).1 m.len m.parsed (by omega) (by omega) hle
    (m.word (by omega))

/-- A word that is not the last one. -/
theorem goes_on (hports : 4 * (n - 3) + 3 < pk.tpAt ∨ pk.tpAt + 1 < 4 * (n - 3))
    (hkm : k < 4 * (n - 3) ∨ 4 * (n - 3) + 3 < k) {r' : OplRewriter}
    (hout : r'.outData = next.outData) (hpost : r'.postState = next.postState)
    (htp : TpIn a pk k (n + 1) r') : TpTick a pk k n next.outData r' :=
  ⟨hout.trans (m.untouched hports hkm _), .inl ⟨hpost.trans m.post, htp⟩⟩

theorem place {t c : Nat} {cntr : TpHdrCntr} (turn : Turn pk n r t c cntr) :
    pk.tpAt = 4 * pk.tpIdx + c ∧ n = pk.tpIdx + t ∧ 4 ≤ pk.tpIdx ∧ pk.tpAt + 3 ≤ k ∧
      n < pk.data.length + 3 := by
  have hmod := turn.mod
  refine ⟨?_, turn.eq, m.idx, tpChecksumAt_ge m.checksum, m.lt⟩
  rcases tpAt_eq pk with hat | hat <;> omega

/-! The ports in the halves 1 and 2. -/

theorem tick_odd2 (turn : Turn pk n r 1 1 .odd2) (hsrc : r.tpSrcDiff.toNat = fold (tpSrcDelta a pk))
    (hdst : r.tpDstDiff.toNat = fold (tpDstDelta a pk)) :
    TpTick a pk k n next.outData (tpRest a w s r next) := by
  obtain ⟨hat, heq, hidx, hk3, -⟩ := m.place turn
  rw [tpRest, turn.cntr]
  refine m.goes_on (by omega) (by omega) rfl rfl
    (.odd3 ⟨by omega, turn.mod, rfl⟩ ?_ (m.orgInv_udp (j := 0) (by omega) (by omega)))
  rw [delta_portWrites]
  exact toNat_fold17_add hsrc hdst

theorem tick_odd3 (turn : Turn pk n r 2 1 .odd3)
    (hsum : r.tpChksumNew.toNat = fold (delta pk (portWrites a pk)))
    (hinv : pk.isUdp = true → InvIs pk k r) :
    TpTick a pk k n next.outData (tpRest a w s r next) := by
  obtain ⟨hat, heq, hidx, hk3, -⟩ := m.place turn
  rw [tpRest, turn.cntr]
  refine m.goes_on (by omega) (by omega) rfl rfl (.odd4 ⟨by omega, turn.mod, rfl⟩ fun hlt => ?_)
  have horg := m.orgInv_tcp (j := 1) (by omega) (by omega) hlt hinv
  show (fold17 (r.tpChksumNew + (orgInv w r s.isTcp 32).setWidth 17)).toNat = _
  rw [show orgInv w r s.isTcp 32 = _ from horg]
  exact toNat_fold17_add hsum (toNat_inv _ (by omega))

theorem tick_odd4 (turn : Turn pk n r 3 1 .odd4) (hsum : SumIs pk k r (portSum a pk k))
    (hall : r.nwAllDiff.toNat = fold (delta pk (addrWrites a))) :
    TpTick a pk k n next.outData (tpRest a w s r next) := by
  obtain ⟨hat, heq, -, -, -⟩ := m.place turn
  rw [tpRest, turn.cntr]
  refine ⟨?_, .inl ⟨m.post, .odd5 ⟨by omega, turn.mod, rfl⟩ fun hlt => fold_all (hsum hlt) hall⟩⟩
  dsimp only
  rw [m.isTp, if_pos rfl, putTp_odd_ports m.checksum m.len (by omega)]

/-- The word with the checksum is the last one. -/
theorem ends {j : Nat} (hj : j < 4) (hk : k = 4 * (n - 3) + j) (hports : pk.tpAt + 1 < 4 * (n - 3))
    (hn : 7 ≤ n) {r' : OplRewriter} {x : BitVec 17} (hx : x.toNat = fold (allSum a pk k))
    (hout : r'.outData = putBits (48 - 16 * j) (~~~(x.setWidth 16)) next.outData)
    (hpost : r'.postState = .followPrepState) : TpTick a pk k n next.outData r' := by
  refine ⟨?_, .inr ⟨hpost, by omega, fun h hh => lookup_tpWrites_of_ge m.checksum m.len (by omega)⟩⟩
  rw [hout, putTp_of_checksum m.checksum m.len hj hk hports]
  exact congrArg (putBits (48 - 16 * j) · _) (not_setWidth_eq hx)

theorem tick_odd5 (turn : Turn pk n r 4 1 .odd5) (hsum : SumIs pk k r (allSum a pk k)) :
    TpTick a pk k n next.outData (tpRest a w s r next) := by
  obtain ⟨hat, heq, hidx, -, hend⟩ := m.place turn
  rw [tpRest, turn.cntr]
  dsimp only
  rw [m.parsed.isUdp (by omega)]
  obtain ⟨-, ⟨hudp, -, hkeq⟩ | ⟨hudp, -, hkeq⟩⟩ := tpChecksumAt_cases m.checksum
  · rw [hudp, if_pos rfl]
    exact m.ends (j := 0) (by omega) (by omega) (by omega) (by omega) (hsum (by omega)) rfl rfl
  · rw [hudp, if_neg Bool.false_ne_true]
    rw [SumIs, ← m.same.sum] at hsum
    exact m.goes_on (by omega) (by omega) rfl rfl (.odd6 ⟨by omega, turn.mod, rfl⟩ hudp hsum)

theorem tick_odd6 (turn : Turn pk n r 5 1 .odd6) (hudp : pk.isUdp = false)
    (hsum : SumIs pk k r (allSum a pk k)) :
    TpTick a pk k n next.outData (tpRest a w s r next) := by
  obtain ⟨hat, heq, hidx, -, hend⟩ := m.place turn
  obtain ⟨htcp, hkeq⟩ := m.tcp_of_not_udp hudp
  rw [tpRest, turn.cntr]
  dsimp only
  rw [m.parsed.isTcp (by omega), htcp, if_pos rfl]
  exact m.ends (j := 1) (by omega) (by omega) (by omega) (by omega) (hsum (by omega)) rfl rfl

/-! The source port in half 3. -/

theorem tick_evn2 (turn : Turn pk n r 1 3 .evn2)
    (hsrc : r.tpSrcDiff.toNat = fold (tpSrcDelta a pk)) :
    TpTick a pk k n next.outData (tpRest a w s r next) := by
  obtain ⟨hat, heq, hidx, hk3, -⟩ := m.place turn
  rw [tpRest, turn.cntr]
  rw [← m.same.src] at hsrc
  refine m.goes_on (by omega) (by omega) rfl rfl (.evn3 ⟨by omega, turn.mod, rfl⟩ hsrc
    (fun hlt => ?_) (m.orgInv_udp (j := 2) (by omega) (by omega)))
  have hport := m.half_eq (h := pk.tpAt + 1) (j := 0) (by omega) (by omega) (by omega)
  show (diffIf a ofpatSetTpDst (setTpDst a) (w.extractLsb' 48 16)).toNat = _
  rw [show w.extractLsb' 48 16 = _ from hport]
  exact toNat_diffIf a pk _ _ _

theorem tick_evn3 (turn : Turn pk n r 2 3 .evn3) (hsrc : r.tpSrcDiff.toNat = fold (tpSrcDelta a pk))
    (hdst : k < 4 * pk.data.length → r.tpDstDiff.toNat = fold (tpDstDelta a pk))
    (hinv : pk.isUdp = true → InvIs pk k r) :
    TpTick a pk k n next.outData (tpRest a w s r next) := by
  obtain ⟨hat, heq, hidx, hk3, -⟩ := m.place turn
  rw [tpRest, turn.cntr]
  refine m.goes_on (by omega) (by omega) rfl rfl (.evn4 ⟨by omega, turn.mod, rfl⟩
    (fun hlt => ?_) fun hlt => m.orgInv_tcp (j := 3) (by omega) (by omega) hlt hinv)
  rw [delta_portWrites]
  exact toNat_fold17_add hsrc (hdst hlt)

theorem tick_evn4 (turn : Turn pk n r 3 3 .evn4) (hsum : SumIs pk k r (delta pk (portWrites a pk)))
    (hinv : InvIs pk k r) :
    TpTick a pk k n next.outData (tpRest a w s r next) := by
  obtain ⟨hat, heq, -, -, -⟩ := m.place turn
  rw [tpRest, turn.cntr]
  refine ⟨?_, .inl ⟨m.post, .evn5 ⟨by omega, turn.mod, rfl⟩ fun hlt => ?_⟩⟩
  · dsimp only
    rw [m.isTp, if_pos rfl, putTp_evn_src m.checksum m.len (by omega)]
  · show (fold17 (r.tpChksumNew + r.tpChksumOrgInv.setWidth 17)).toNat = _
    rw [hinv hlt]
    exact toNat_fold17_add (hsum hlt) (toNat_inv _ (by omega))

theorem tick_evn5 (turn : Turn pk n r 4 3 .evn5) (hsum : SumIs pk k r (portSum a pk k))
    (hall : r.nwAllDiff.toNat = fold (delta pk (addrWrites a))) :
    TpTick a pk k n next.outData (tpRest a w s r next) := by
  obtain ⟨hat, heq, hidx, -, hend⟩ := m.place turn
  rw [tpRest, turn.cntr]
  dsimp only
  rw [m.isTp, m.parsed.isUdp (by omega), if_pos rfl]
  obtain ⟨-, ⟨hudp, -, hkeq⟩ | ⟨hudp, -, hkeq⟩⟩ := tpChecksumAt_cases m.checksum
  · rw [hudp, if_pos rfl]
    refine ⟨?_, .inr ⟨rfl, by omega, fun h hh => lookup_tpWrites_of_ge m.checksum m.len (by omega)⟩⟩
    rw [putTp_evn_dst_checksum m.checksum m.len (by omega) (by omega)]
    exact congrArg (putBits 16 · _) (not_setWidth_eq (fold_all (hsum (by omega)) hall))
  · rw [hudp, if_neg Bool.false_ne_true]
    refine ⟨(putTp_evn_dst m.checksum m.len (by omega) (by omega)).symm,
      .inl ⟨m.post, .evn6 ⟨by omega, turn.mod, rfl⟩ hudp fun hlt => fold_all (hsum hlt) hall⟩⟩

theorem tick_evn6 (turn : Turn pk n r 5 3 .evn6) (hudp : pk.isUdp = false)
    (hsum : SumIs pk k r (allSum a pk k)) :
    TpTick a pk k n next.outData (tpRest a w s r next) := by
  obtain ⟨hat, heq, hidx, -, hend⟩ := m.place turn
  obtain ⟨htcp, hkeq⟩ := m.tcp_of_not_udp hudp
  rw [tpRest, turn.cntr]
  dsimp only
  rw [m.parsed.isTcp (by omega), htcp, if_pos rfl]
  exact m.ends (j := 3) (by omega) (by omega) (by omega) (by omega) (hsum (by omega)) rfl rfl

/-- One word and the transport header. -/
theorem tick (htp : TpIn a pk k n r) (hlt : pk.tpIdx < pk.data.length)
    (hall : 7 ≤ n → r.nwAllDiff.toNat = fold (delta pk (addrWrites a))) :
    TpTick a pk k n next.outData (tpRest a w s r next) := by
  have hidx := m.idx
  cases htp with
  | wait le cntr => exact m.tick_wait le hlt cntr
  | odd2 turn src dst => exact m.tick_odd2 turn src dst
  | odd3 turn sum inv => exact m.tick_odd3 turn sum inv
  | odd4 turn sum => exact m.tick_odd4 turn sum (hall (by have := turn.eq; omega))
  | odd5 turn sum => exact m.tick_odd5 turn sum
  | odd6 turn udp sum => exact m.tick_odd6 turn udp sum
  | evn2 turn src => exact m.tick_evn2 turn src
  | evn3 turn src dst inv => exact m.tick_evn3 turn src dst inv
  | evn4 turn sum inv => exact m.tick_evn4 turn sum inv
  | evn5 turn sum => exact m.tick_evn5 turn sum (hall (by have := turn.eq; omega))
  | evn6 turn udp sum => exact m.tick_evn6 turn udp sum

end Meets

/-! ## Packets without a checksum to be updated -/

theorem tpWrites_of_none (h : pk.tpChecksumAt = none) : tpWrites a pk = [] := by
  rw [tpWrites, h]
  split <;> rfl

theorem tpWrites_of_short (h : pk.ipHdrLen.toNat < 5) : tpWrites a pk = [] := if_neg (by omega)

theorem isUdp_of_none (h : pk.tpChecksumAt = none) : pk.isUdp = false ∧ pk.isTcp = false := by
  rw [Packet.tpChecksumAt] at h
  cases hudp : pk.isUdp with
  | true => simp [hudp] at h
  | false =>
    cases htcp : pk.isTcp with
    | true => simp [hudp, htcp] at h
    | false => exact ⟨rfl, rfl⟩

theorem tpRest_of_none (next : OplRewriter) (hudp : s.isUdp = false) (htcp : s.isTcp = false) :
    (tpRest a w s r next).outData = next.outData ∧
      ((tpRest a w s r next).postState = next.postState ∧
          (tpRest a w s r next).tpHdrCntr.rank ≤ r.tpHdrCntr.rank + 1 ∨
        (tpRest a w s r next).postState = .followPrepState ∧ r.tpHdrCntr.rank = 5) := by
  rw [tpRest]
  cases hcntr : r.tpHdrCntr with
  | wait =>
    obtain ⟨hout, hpost⟩ := frame_startTp (a := a) (w := w) (s := s) (r := next)
    exact ⟨hout, .inl ⟨hpost, rank_startTp⟩⟩
  | _ => simp [hudp, htcp, TpHdrCntr.rank]

theorem tpRest_of_rank (next : OplRewriter) (h : r.tpHdrCntr.rank ≤ 2) :
    (tpRest a w s r next).outData = next.outData ∧
      (tpRest a w s r next).postState = next.postState ∧
      (tpRest a w s r next).tpHdrCntr.rank ≤ r.tpHdrCntr.rank + 1 := by
  rw [tpRest]
  cases hcntr : r.tpHdrCntr with
  | wait =>
    obtain ⟨hout, hpost⟩ := frame_startTp (a := a) (w := w) (s := s) (r := next)
    exact ⟨hout, hpost, rank_startTp⟩
  | odd2 | odd3 | evn2 | evn3 => exact ⟨rfl, rfl, Nat.le_refl _⟩
  | _ =>
    rw [hcntr] at h
    exact absurd h (by decide)

theorem putTp_nil {m : Nat} {v : BitVec 64} (h : tpWrites a pk = []) : putTp a pk m v = v :=
  putTp_of_none fun _ _ => by rw [h]; rfl

/-- One word and the transport header of any packet. -/
theorem TpAt.tick (h : TpAt a pk n r) (hp : Parsed pk n s) (hn : 5 ≤ n)
    (hend : n < pk.data.length + 3) (hword : n < pk.data.length → w = pk.word n)
    (hsame : SameTp r next) (hpost : next.postState = .replaceRest)
    (hall : 7 ≤ n → r.nwAllDiff.toNat = fold (delta pk (addrWrites a))) :
    (tpRest a w s r next).outData = putTp a pk (n - 3) next.outData ∧
      ((tpRest a w s r next).postState = .replaceRest ∧ TpAt a pk (n + 1) (tpRest a w s r next) ∨
        (tpRest a w s r next).postState = .followPrepState ∧ 8 ≤ n + 1 ∧
          ∀ h, 4 * (n + 1 - 3) ≤ h → (tpWrites a pk).lookup h = Option.none) := by
  cases h with
  | none no rank =>
    obtain ⟨hudp, htcp⟩ := isUdp_of_none no
    rw [← hp.isUdp (by omega)] at hudp
    rw [← hp.isTcp (by omega)] at htcp
    obtain ⟨hout, hgoes⟩ := tpRest_of_none (a := a) (w := w) (r := r) next hudp htcp
    refine ⟨by rw [hout, putTp_nil (tpWrites_of_none no)], ?_⟩
    rcases hgoes with ⟨hsame, hrank⟩ | ⟨hover, hrank⟩
    · exact .inl ⟨hsame.trans hpost, .none no (by omega)⟩
    · exact .inr ⟨hover, by omega, fun h _ => by rw [tpWrites_of_none no]; rfl⟩
  | short ip lt cntr =>
    have hlen := congrArg BitVec.toNat (hp.lenShort ip lt (by omega))
    rw [tpRest, cntr]
    dsimp only
    rw [startTp_other (by omega) (by omega), putTp_nil (tpWrites_of_short lt)]
    exact ⟨rfl, .inl ⟨hpost, .short ip lt rfl⟩⟩
  | outside ip le rank =>
    obtain ⟨hout, hsame, hrank⟩ :=
      tpRest_of_rank (a := a) (w := w) (s := s) (r := r) next (by omega)
    refine ⟨?_, .inl ⟨hsame.trans hpost, .outside ip le ?_⟩⟩
    · have hidx : 4 * pk.tpIdx < pk.tpAt := by rcases tpAt_eq pk with hat | hat <;> omega
      rw [hout, putTp_of_none fun j hj => lookup_tpWrites_of_lt (by omega)]
    · by_cases hlt : n < pk.data.length
      · -- The countdown has not come to the ports.
        have hwait : r.tpHdrCntr = .wait := by
          have hzero : r.tpHdrCntr.rank = 0 := by omega
          cases hcntr : r.tpHdrCntr with
          | wait => rfl
          | _ =>
            rw [hcntr] at hzero
            cases hzero
        have hlen := hp.len ip (by omega) hlt (by omega)
        rw [tpRest, hwait]
        dsimp only
        rw [startTp_other]
        · exact Nat.zero_le _
        · rcases tpAt_eq pk with hat | hat <;> omega
        · rcases tpAt_eq pk with hat | hat <;> omega
      · omega
  | inside yes ge lt tp =>
    have hmeets : Meets pk _ n w s r next := ⟨yes, ge, hp, hn, hend, hword, hsame, hpost⟩
    obtain ⟨hout, hgoes⟩ := hmeets.tick tp lt hall
    refine ⟨hout, ?_⟩
    rcases hgoes with ⟨hrest, htp⟩ | hover
    · exact .inl ⟨hrest, .inside yes ge lt htp⟩
    · exact .inr hover

/-! ## One cycle -/

theorem HeadAt.congr (h : HeadAt a pk n r) (hsum : next.nwChksumNew = r.nwChksumNew)
    (hsrcH : next.nwSrcHDiff = r.nwSrcHDiff) (hsrcL : next.nwSrcLDiff = r.nwSrcLDiff)
    (hdstH : next.nwDstHDiff = r.nwDstHDiff) : HeadAt a pk n next := by
  cases h with
  | start lt => exact .start lt
  | tos eq sum => exact .tos eq (hsum ▸ sum)
  | diffs eq sum srcH srcL dstH =>
    exact .diffs eq (hsum ▸ sum) (hsrcH ▸ srcH) (hsrcL ▸ srcL) (hdstH ▸ dstH)

theorem IpAt.nwAllDiff_eq (h : IpAt a pk n r) (hn : 7 ≤ n) :
    r.nwAllDiff.toNat = fold (delta pk (addrWrites a)) := by
  cases h with
  | rest1 eq cntr sum src dstL dstH => omega
  | rest2 eq cntr sum src dst => omega
  | rest3 eq cntr all => exact all
  | stop le cntr all => exact all

theorem postState_ipRest : (ipRest a s r).postState = r.postState := by
  rw [ipRest]
  cases r.ipHdrCntr <;> rfl

/-- The transport header when the fifth word is taken. -/
theorem tpAt_startTp (hp : Parsed pk 4 s) : TpAt a pk 5 (startTp a (pk.word 4) s r) := by
  have hrank := rank_startTp (a := a) (w := pk.word 4) (s := s) (r := r)
  have hsize := pk.length_data_ge
  cases hk : pk.tpChecksumAt with
  | none => exact .none hk (by omega)
  | some k =>
    obtain ⟨hip, -⟩ := tpChecksumAt_cases hk
    by_cases hlen : pk.ipHdrLen.toNat < 5
    · have heq := congrArg BitVec.toNat (hp.lenShort hip hlen (Nat.le_refl 4))
      rw [startTp_other (by omega) (by omega)]
      exact .short hip hlen rfl
    · have hidx : 4 ≤ pk.tpIdx := by rcases tpAt_eq pk with hat | hat <;> omega
      by_cases hlt : pk.tpIdx < pk.data.length
      · exact .inside hk (by omega) hlt
          (tpIn_startTp hip (by omega) hp (Nat.le_refl 4) (by omega) hidx rfl)
      · have heq := hp.len hip (Nat.le_refl 4) (by omega) hidx
        rw [startTp_other]
        · exact .outside hip (by omega) (Nat.zero_le _)
        · rcases tpAt_eq pk with hat | hat <;> omega
        · rcases tpAt_eq pk with hat | hat <;> omega

section Step

variable {i : OplIn} (hreset : i.reset = false)

include hreset

theorem step_follow (hpost : r.postState = .followPrepState) :
    step i s r = stepFollowPrepState i s r := by
  rw [step, hreset, hpost]
  rfl

theorem step_replace (hpost : r.postState = .replaceRest) :
    step i s r = stepReplaceRest i s r := by
  rw [step, hreset, hpost]
  rfl

/-- Nothing happens without a word. -/
theorem PostAt.hold (h : PostAt a pk n r) (henb : s.outDataEnb i = false)
    (hstate : s.state ≠ .writeReplacements) : PostAt a pk n (step i s r) := by
  cases h with
  | head post lt head =>
    rw [step_follow hreset post, stepFollowPrepState, henb, Bool.and_false]
    exact .head post lt (head.congr rfl rfl rfl rfl)
  | rest post le ip tp =>
    rw [step_replace hreset post, stepReplaceRest, if_neg hstate, moved, henb]
    exact .rest post le ip tp
  | through post le done =>
    rw [step_follow hreset post, stepFollowPrepState, henb, Bool.and_false]
    exact .through post le done

omit hreset in
theorem PostAt.follow (h : PostAt a pk n r) (hn : n < 5) : r.postState = .followPrepState := by
  cases h with
  | head post lt head => exact post
  | rest post le ip tp => omega
  | through post le done => omega

omit hreset in
/-- Before the data of a packet. -/
theorem postAt_zero (hpost : r.postState = .followPrepState) : PostAt a pk 0 r :=
  .head hpost (by omega) (.start (by omega))

/-- A word that leaves while the headers come, and the first three data words, is as it came. -/
theorem PostAt.tick_early (h : PostAt a pk n r) (hn : n < 3) (hp : Parsed pk n s)
    (henb : s.outDataEnb i = true) : (step i s r).outData = s.inFifoDataD3 := by
  rw [step_follow hreset (h.follow (by omega)), stepFollowPrepState, moved, henb, Bool.and_true,
    if_pos rfl]
  have hcases : n = 0 ∨ n = 1 ∨ n = 2 := by omega
  rcases hcases with rfl | rfl | rfl
  · rw [decide_eq_false (hp.first rfl)]
    rfl
  · have hstate := hp.cont (by omega) (by omega)
    rw [decide_eq_true hstate, hp.hdr (by omega) hstate]
    rfl
  · have hstate := hp.cont (by omega) (by omega)
    rw [decide_eq_true hstate, hp.hdr (by omega) hstate]
    rfl

/-- A header is pushed. -/
theorem PostAt.tick_hdr (h : PostAt a pk 0 r) (hstate : s.state ≠ .hdrCont) :
    PostAt a pk 0 (step i s r) := by
  have hpost := h.follow (by omega)
  refine postAt_zero ?_
  rw [step_follow hreset hpost, stepFollowPrepState, decide_eq_false hstate]
  exact hpost

/-- Before a packet the second state machine is ready for it. -/
theorem postAt_of_writeReplacements (hstate : s.state = .writeReplacements) :
    PostAt a pk 0 (step i s r) := by
  refine postAt_zero ?_
  cases hpost : r.postState with
  | followPrepState =>
    rw [step_follow hreset hpost, stepFollowPrepState, hstate]
    exact hpost
  | replaceRest =>
    rw [step_replace hreset hpost, stepReplaceRest, if_pos hstate]

variable (hp : Parsed pk n s) (henb : s.outDataEnb i = true) (ha : i.resultFifoDout.2 = a)
  (hword : n < pk.data.length → i.inFifo.data = pk.word n)
  (hd3 : 3 ≤ n → s.inFifoDataD3 = pk.word (n - 3))

include hp henb ha hword hd3

/-- The first five words. -/
theorem PostAt.tick_head (hpost : r.postState = .followPrepState) (hlt : n < 5)
    (hhead : HeadAt a pk n r) :
    PostAt a pk (n + 1) (step i s r) ∧
      (3 ≤ n → (step i s r).outData = newWord a pk (n - 3)) := by
  have hsize := pk.length_data_ge
  have hdata := hword (by omega)
  rw [step_follow hreset hpost, stepFollowPrepState, moved, henb, ha, hdata, Bool.and_true,
    if_pos rfl]
  by_cases hzero : n = 0
  · subst hzero
    rw [decide_eq_false (hp.first rfl)]
    exact ⟨.head hpost (by omega) (.start (by omega)), fun h3 => by omega⟩
  · have hstate := hp.cont (by omega) (by omega)
    rw [decide_eq_true hstate, hp.hdr (by omega) hstate]
    dsimp only
    rw [if_pos rfl]
    cases hhead with
    | start lt =>
      obtain rfl : n = 1 := by omega
      exact ⟨.head hpost (by omega) (.tos (.inl rfl) (toNat_hdr2nd a pk _)), fun h3 => by omega⟩
    | tos eq sum =>
      rcases eq with rfl | rfl
      · exact ⟨.head hpost (by omega) (.tos (.inr rfl) sum), fun h3 => by omega⟩
      · refine ⟨.head hpost (by omega) (headAt_hdr4th sum), fun _ => ?_⟩
        rw [newWord_of_lt (by omega), nwWord_zero, ← hd3 (Nat.le_refl 3)]
        rfl
    | diffs eq sum srcH srcL dstH =>
      subst eq
      refine ⟨.rest (frame_startTp.2.trans rfl) (Nat.le_refl 5) (ipAt_hdr5th sum srcH srcL dstH)
        (tpAt_startTp hp), fun _ => ?_⟩
      rw [newWord_of_lt (by omega), nwWord_one, ← hd3 (by omega), ← hp.isIp (by omega)]
      exact frame_startTp.1

/-- A word of a packet that has moved on by `n` words. -/
theorem PostAt.tick (h : PostAt a pk n r) (hend : n < pk.data.length + 3) :
    PostAt a pk (n + 1) (step i s r) ∧
      (3 ≤ n → (step i s r).outData = newWord a pk (n - 3)) := by
  cases h with
  | head post lt head => exact tick_head hreset hp henb ha hword hd3 post lt head
  | rest post le ip tp =>
    have hmoved : (moved i s r).outData = pk.word (n - 3) := by
      rw [moved, henb, ← hd3 (by omega)]
      rfl
    have hip : IpAt a pk n (moved i s r) := ip.congr ⟨rfl, rfl, rfl, rfl, rfl, rfl, rfl⟩
    obtain ⟨hip', hout⟩ := hip.tick (s := s) (hp.isIp (by omega)) hmoved
    have hrest := sameTp_ipRest (a := a) (s := s) (r := moved i s r)
    have hsame : SameTp r (ipRest a s (moved i s r)) :=
      ⟨hrest.cntr, hrest.src, hrest.dst, hrest.inv, hrest.sum⟩
    obtain ⟨hout', hgoes⟩ := tp.tick hp le hend hword hsame (postState_ipRest.trans post)
      ip.nwAllDiff_eq
    rw [step_replace hreset post, stepReplaceRest, if_neg hp.within, if_pos henb, ha]
    refine ⟨?_, fun _ => by rw [hout', hout, newWord_eq]⟩
    rcases hgoes with ⟨hrest, htp⟩ | ⟨hover, hge, hdone⟩
    · exact .rest hrest (by omega) (hip'.congr sameNw_tpRest) htp
    · exact .through hover hge hdone
  | through post le done =>
    have hstep : step i s r = { moved i s r with tpHdrCntr := .odd2, ipHdrCntr := .rest1 } := by
      rw [step_follow hreset post, stepFollowPrepState, henb, Bool.and_true]
      by_cases hstate : s.state = .hdrCont
      · have hcntr : s.hdrReplaceCntr = .hdr6th := by
          obtain ⟨m, rfl⟩ : ∃ m, n = m + 5 := ⟨n - 5, by omega⟩
          exact hp.hdr (by omega) hstate
        rw [decide_eq_true hstate, hcntr]
        rfl
      · rw [decide_eq_false hstate]
        rfl
    rw [hstep]
    refine ⟨.through post (by omega) fun h hh => done h (by omega), fun _ => ?_⟩
    rw [newWord_eq, nwWord_of_ge (by omega), putTp_of_none fun j hj => done _ (by omega),
      ← hd3 (by omega), moved, henb]
    rfl

end Step

end OplRewriter

end Sdpa.Hardware
