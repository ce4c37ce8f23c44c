import Sdpa.Hardware.PacketReads
import Sdpa.Hardware.RewriteTicks

/-!
# The first state machine word by word

While a packet is sent, each word that moves on is pushed into the three registers behind
which it leaves, and three times the registers move on without one at the end. `Phase j t`
is the state when `j` words of the packet were taken and the registers have moved on `t`
times since the first of them. The words pushed are `pushed`, the headers as the action
has them and the data as they are.
-/
namespace Sdpa.Hardware

open OplAction OplRewriter

namespace OplAction

variable (a : BitVec 320)

/-- A header with the output ports. -/
def withPorts (w : Word) : Word := ⟨ioQueueStageNum, putBits 48 (forwardBitmask a) w.data⟩

/-- A VLAN header is changed or, if it is stripped, marked as one that no module looks at. -/
def changeVlan (w : Word) : Word :=
  if hasFlag a ofpatStripVlan then ⟨0xef, w.data⟩ else ⟨w.ctrl, setVlan a w.data⟩

/-- The header of the input queue, behind a new VLAN header if one is set and none was there. -/
def ioqHdrs (seen : Bool) (w : Word) : List Word :=
  if !seen && (hasFlag a ofpatSetVlanVid || hasFlag a ofpatSetVlanPcp) then
    [⟨vlanCtrlWord, setVlan a 0⟩, withPorts a w]
  else [withPorts a w]

/-- The headers that are sent; `seen` if there was a VLAN header before these. -/
def sentHdrs : Bool → List Word → List Word
  | _, [] => []
  | seen, w :: ws =>
    if w.ctrl = vlanCtrlWord then changeVlan a w :: sentHdrs true ws
    else if w.ctrl = ioQueueStageNum then ioqHdrs a seen w ++ ws
    else w :: sentHdrs seen ws

/-- The words pushed for a packet. -/
def pushed (pk : Packet) : List Word := sentHdrs a false pk.hdrs ++ pk.data

/-- The words sent for a packet. -/
def sentWords (pk : Packet) : List Word :=
  sentHdrs a false pk.hdrs ++
    (List.range pk.data.length).map fun n => ⟨(pk.data.getD n ⟨0, 0⟩).ctrl, newWord a pk n⟩

theorem sentHdrs_ctrl {seen : Bool} {ws : List Word} (h : ∀ w ∈ ws, w.ctrl ≠ 0) :
    ∀ w ∈ sentHdrs a seen ws, w.ctrl ≠ 0 := by
  induction ws generalizing seen with
  | nil => simp [sentHdrs]
  | cons v ws ih =>
    have htail : ∀ w ∈ ws, w.ctrl ≠ 0 := fun w hw => h w (List.mem_cons_of_mem v hw)
    have hv := h v List.mem_cons_self
    intro w hw
    rw [sentHdrs] at hw
    split at hw
    · rcases List.mem_cons.mp hw with rfl | hw
      · rw [changeVlan]
        split
        · exact (by decide : (0xef : BitVec 8) ≠ 0)
        · exact hv
      · exact ih htail w hw
    · split at hw
      · rcases List.mem_append.mp hw with hw | hw
        · rw [ioqHdrs] at hw
          split at hw
          · simp only [List.mem_cons, List.not_mem_nil, or_false] at hw
            rcases hw with rfl | rfl
            · exact (by decide : vlanCtrlWord ≠ 0)
            · exact (by decide : ioQueueStageNum ≠ 0)
          · rw [List.mem_singleton.mp hw]
            exact (by decide : ioQueueStageNum ≠ 0)
        · exact htail w hw
      · rcases List.mem_cons.mp hw with rfl | hw
        · exact hv
        · exact ih htail w hw

theorem sentHdrs_cons (seen : Bool) (w : Word) (ws : List Word) :
    ∃ v vs, sentHdrs a seen (w :: ws) = v :: vs := by
  rw [sentHdrs, ioqHdrs]
  split_ifs <;> exact ⟨_, _, rfl⟩

theorem hasFlag_eq (i : OplIn) (flag : BitVec 16) :
    hasFlag i.resultFifoDout.2 flag = i.hasFlag flag := rfl

theorem length_pushed (pk : Packet) :
    (pushed a pk).length = (sentHdrs a false pk.hdrs).length + pk.data.length := List.length_append

end OplAction

/-! ## The registers on the way out -/

namespace OplProcessor

variable {i : OplIn} {s s' : OplProcessor}

def slot1 (s : OplProcessor) : Word := ⟨s.inFifoCtrlD1, s.inFifoDataD1⟩

def slot2 (s : OplProcessor) : Word := ⟨s.inFifoCtrlD2, s.inFifoDataD2⟩

def slot3 (s : OplProcessor) : Word := ⟨s.inFifoCtrlD3, s.inFifoDataD3⟩

/-- Word `w` comes in and the words before it move on. -/
structure Pushes (w : Word) (s s' : OplProcessor) : Prop where
  prep1 : s'.outWrPrep1 = true
  prep2 : s'.outWrPrep2 = s.outWrPrep1
  prep3 : s'.outWrPrep3 = s.outWrPrep2
  wr : s'.outWr = s.outWrPrep3
  slot1 : s'.slot1 = w
  slot2 : s'.slot2 = s.slot1
  slot3 : s'.slot3 = s.slot2
  ctrl : s'.outCtrl = s.inFifoCtrlD3

/-- The words move on at the end of the packet. -/
structure Flushes (s s' : OplProcessor) : Prop where
  prep1 : s'.outWrPrep1 = false
  prep2 : s'.outWrPrep2 = false
  prep3 : s'.outWrPrep3 = false
  wr : s'.outWr = true
  slot2 : s'.slot2 = s.slot1
  slot3 : s'.slot3 = s.slot2
  ctrl : s'.outCtrl = s.inFifoCtrlD3

theorem flushes_stepWriteLastWord : Flushes s (stepWriteLastWord i s) :=
  ⟨rfl, rfl, rfl, rfl, rfl, rfl, rfl⟩

theorem Pushes.stepOptions {w : Word} (h : Pushes w s s') (short : Bool) :
    Pushes w s (stepOptions i s short s') := by
  rw [OplProcessor.stepOptions]
  split_ifs
  · exact h
  · exact ⟨h.prep1, h.prep2, h.prep3, h.wr, h.slot1, h.slot2, h.slot3, h.ctrl⟩
  · exact ⟨h.prep1, h.prep2, h.prep3, h.wr, h.slot1, h.slot2, h.slot3, h.ctrl⟩

theorem pushes_stepHdr1st : Pushes i.inFifo s (stepHdr1st i s) := by
  rw [stepHdr1st]
  split_ifs <;> exact ⟨rfl, rfl, rfl, rfl, rfl, rfl, rfl, rfl⟩

theorem pushes_stepHdrCont : Pushes i.inFifo s (stepHdrCont i s) := by
  have hnext : Pushes i.inFifo s { push s i.inFifo.ctrl i.inFifo.data with
      state := if isEop i s then .writeLastWord else .hdrCont } :=
    ⟨rfl, rfl, rfl, rfl, rfl, rfl, rfl, rfl⟩
  rw [stepHdrCont]
  cases s.hdrReplaceCntr with
  | hdr2nd | hdr3rd | hdr4th => exact ⟨rfl, rfl, rfl, rfl, rfl, rfl, rfl, rfl⟩
  | hdr5th | hdr6th => exact hnext.stepOptions _

theorem pushes_stepWritePacket : Pushes i.inFifo s (stepWritePacket i s) :=
  ⟨rfl, rfl, rfl, rfl, rfl, rfl, rfl, rfl⟩

/-! ## What is known of the packet -/

/-- What the first state machine knows of the packet after `n` data words, and what it does not know
yet. -/
structure Known (pk : Packet) (n : Nat) (s : OplProcessor) : Prop extends Parsed pk n s where
  noIp : n ≤ 1 → s.isIp = false
  noTp : n ≤ 2 → s.isUdp = false ∧ s.isTcp = false
  hdrLen : 2 ≤ n → n ≤ 4 → s.ipHdrLen = pk.ipHdrLen
  inHdr : 5 ≤ n → s.state = .hdrCont → pk.isIp = true ∧ n ≤ pk.tpIdx
  past : s.state = .writePacket → 5 ≤ n ∧ (pk.isIp = true → pk.tpIdx < n)

variable {pk : Packet} {n : Nat}

/-- Before the data. -/
theorem known_zero (hwithin : s.state ≠ .writeReplacements) (hcont : s.state ≠ .hdrCont)
    (hpast : s.state ≠ .writePacket) (hip : s.isIp = false) (hudp : s.isUdp = false)
    (htcp : s.isTcp = false) : Known pk 0 s where
  within := hwithin
  first _ := hcont
  cont h := by omega
  hdr h := by omega
  isIp h := by omega
  isUdp h := by omega
  isTcp h := by omega
  len _ h := by omega
  lenShort _ _ h := by omega
  noIp _ := hip
  noTp _ := ⟨hudp, htcp⟩
  hdrLen h := by omega
  inHdr h := by omega
  past h := absurd h hpast

theorem isEop_eq (hctrl : s.inFifoCtrlD1 = 0) (hlast : i.inFifo.ctrl = 0 ↔ n + 1 < pk.data.length)
    (hn : n < pk.data.length) : isEop i s = decide (n + 1 = pk.data.length) := by
  rw [isEop, decide_eq_true hctrl, Bool.and_true]
  refine Bool.eq_iff_iff.mpr ?_
  rw [decide_eq_true_eq, decide_eq_true_eq, ne_eq, hlast]
  omega

/-- In the first words of the header. -/
theorem known_hdr (hn : 1 ≤ n) (hn' : n ≤ 4) (hstate : s.state = .hdrCont)
    (hcntr : s.hdrReplaceCntr = hdrOf n) (hip : s.isIp = if 2 ≤ n then pk.isIp else false)
    (hudp : s.isUdp = if 3 ≤ n then pk.isUdp else false)
    (htcp : s.isTcp = if 3 ≤ n then pk.isTcp else false)
    (hlen : 2 ≤ n → s.ipHdrLen = pk.ipHdrLen) : Known pk n s where
  within h := by rw [hstate] at h; cases h
  first h := by omega
  cont _ _ := hstate
  hdr _ _ := hcntr
  isIp h := by rw [hip, if_pos h]
  isUdp h := by rw [hudp, if_pos h]
  isTcp h := by rw [htcp, if_pos h]
  len _ h _ _ := by rw [hlen (by omega), show n - 4 = 0 by omega]; rfl
  lenShort _ _ _ := hlen (by omega)
  noIp h := by rw [hip, if_neg (by omega)]
  noTp h := by rw [hudp, htcp, if_neg (by omega), if_neg (by omega)]; exact ⟨rfl, rfl⟩
  hdrLen h _ := hlen h
  inHdr h := by omega
  past h := by rw [hstate] at h; cases h

/-- From the fifth word on only the length that is left changes. -/
theorem Known.rest (h : Known pk n s) (hn : 4 ≤ n) (hwithin : s'.state ≠ .writeReplacements)
    (hip : s'.isIp = s.isIp) (hudp : s'.isUdp = s.isUdp) (htcp : s'.isTcp = s.isTcp)
    (hhdr : s'.state = .hdrCont →
      s'.hdrReplaceCntr = .hdr6th ∧ pk.isIp = true ∧ n + 1 ≤ pk.tpIdx)
    (hpast : s'.state = .writePacket → pk.isIp = true → pk.tpIdx < n + 1)
    (hlen : pk.isIp = true → n + 1 < pk.data.length → n + 1 ≤ pk.tpIdx →
      s'.ipHdrLen = s.ipHdrLen - 2)
    (hshort : pk.isIp = true → pk.ipHdrLen.toNat < 5 → s'.ipHdrLen = s.ipHdrLen) :
    Known pk (n + 1) s' where
  within := hwithin
  first h := by omega
  cont _ h := by omega
  hdr _ hstate := by
    obtain ⟨m, rfl⟩ : ∃ m, n = m + 4 := ⟨n - 4, by omega⟩
    exact (hhdr hstate).1
  isIp _ := hip.trans (h.isIp (by omega))
  isUdp _ := hudp.trans (h.isUdp (by omega))
  isTcp _ := htcp.trans (h.isTcp (by omega))
  len hisIp _ hlt hle := by
    have hold := h.len hisIp hn (by omega) (by omega)
    have hge : 7 ≤ s.ipHdrLen.toNat := by rcases tpAt_eq pk with hat | hat <;> omega
    rw [hlen hisIp hlt hle, BitVec.toNat_sub_of_le (BitVec.le_def.mpr (by show 2 ≤ _; omega)), hold]
    show _ - 2 = _
    omega
  lenShort hisIp hlt _ := (hshort hisIp hlt).trans (h.lenShort hisIp hlt hn)
  noIp h := by omega
  noTp h := by omega
  hdrLen _ h := by omega
  inHdr _ hstate := (hhdr hstate).2
  past hstate := ⟨by omega, hpast hstate⟩

/-- The IP header ends in this word or goes on. -/
theorem Known.stepOptions (h : Known pk n s) (hn : 4 ≤ n) (hlt : n < pk.data.length)
    (hstate : s.state = .hdrCont) {short : Bool} {next : OplProcessor}
    (hshort : short = (!s.isIp || s.ipHdrLen < 7))
    (hnext : next.state = if isEop i s then .writeLastWord else .hdrCont)
    (hip : next.isIp = s.isIp) (hudp : next.isUdp = s.isUdp) (htcp : next.isTcp = s.isTcp)
    (hlen : next.ipHdrLen = s.ipHdrLen) :
    Known pk (n + 1) (OplProcessor.stepOptions i s short next) := by
  have hisIp := h.isIp (by omega)
  have hat := tpAt_eq pk
  rw [OplProcessor.stepOptions]
  cases short with
  | true =>
    have hends : pk.isIp = true → pk.tpIdx < n + 1 := by
      intro hpk
      rw [hisIp, hpk, Bool.not_true, Bool.false_or, eq_comm, decide_eq_true_eq] at hshort
      have h7 : s.ipHdrLen.toNat < 7 := hshort
      by_contra hle
      have := h.len hpk hn hlt (by omega)
      omega
    cases heop : isEop i s with
    | true =>
      rw [heop] at hnext
      refine h.rest hn ?_ hip hudp htcp ?_ (fun _ => hends) (fun hpk _ hle => ?_) fun _ _ => hlen
      · exact fun hstate' => by cases hnext.symm.trans hstate'
      · exact fun hstate' => by cases hnext.symm.trans hstate'
      · exact absurd (hends hpk) (by omega)
    | false =>
      refine h.rest hn ?_ hip hudp htcp ?_ (fun _ => hends) (fun hpk _ hle => ?_) fun _ _ => hlen
      · exact fun hstate' => by cases hstate'
      · exact fun hstate' => by cases hstate'
      · exact absurd (hends hpk) (by omega)
  | false =>
    rw [eq_comm, Bool.or_eq_false_iff, Bool.not_eq_false', decide_eq_false_iff_not, hisIp] at hshort
    obtain ⟨hpk, hge⟩ := hshort
    have h7 : 7 ≤ s.ipHdrLen.toNat := Nat.le_of_not_lt hge
    -- The length is that of the packet at first, and the ports are still ahead later.
    have hahead : n + 1 ≤ pk.tpIdx := by
      rcases Nat.lt_or_eq_of_le hn with hlater | rfl
      · have := h.len hpk hn hlt (h.inHdr hlater hstate).2
        omega
      · have := congrArg BitVec.toNat (h.hdrLen (by omega) (Nat.le_refl 4))
        omega
    rw [if_neg Bool.false_ne_true]
    refine h.rest hn ?_ hip hudp htcp (fun _ => ⟨rfl, hpk, hahead⟩) ?_ (fun _ _ _ => rfl) ?_
    · intro hstate'
      rw [show _ = _ from hnext] at hstate'
      split at hstate' <;> cases hstate'
    · intro hstate'
      rw [show _ = _ from hnext] at hstate'
      split at hstate' <;> cases hstate'
    · exact fun _ hsmall => by omega

theorem protocol_eq (pk : Packet) :
    (pk.half 11).extractLsb' 0 8 = (pk.word 2).extractLsb' 0 8 :=
  BitVec.extractLsb'_extractLsb'_of_le (by decide)

/-- A word of the header is taken. -/
theorem Known.stepHdrCont (h : Known pk n s) (hstate : s.state = .hdrCont) (hn : 1 ≤ n)
    (hlt : n < pk.data.length) (heop : isEop i s = decide (n + 1 = pk.data.length))
    (hword : i.inFifo.data = pk.word n) : Known pk (n + 1) (stepHdrCont i s) := by
  have hsize := pk.length_data_ge
  have hcntr := h.hdr hn hstate
  have hcases : n = 1 ∨ n = 2 ∨ n = 3 ∨ n = 4 ∨ 5 ≤ n := by omega
  rw [OplProcessor.stepHdrCont, hcntr]
  rcases hcases with rfl | rfl | rfl | rfl | h5
  · have hmore : isEop i s = false := heop.trans (decide_eq_false (by omega))
    refine known_hdr (by omega) (by omega) ?_ rfl ?_ (h.noTp (by omega)).1 (h.noTp (by omega)).2 ?_
    · exact if_neg (by rw [hmore]; exact Bool.false_ne_true)
    · show (s.isIp || _) = _
      rw [h.noIp (by omega), hword]
      rfl
    · show 2 ≤ 2 → i.inFifo.data.extractLsb' 8 4 = _
      rw [hword]
      exact fun _ => rfl
  · have hmore : isEop i s = false := heop.trans (decide_eq_false (by omega))
    obtain ⟨hudp, htcp⟩ := h.noTp (by omega)
    have hip := h.isIp (by omega)
    refine known_hdr (by omega) (by omega) ?_ rfl hip ?_ ?_ fun _ => h.hdrLen (by omega) (by omega)
    · exact if_neg (by rw [hmore]; exact Bool.false_ne_true)
    · show (s.isUdp || s.isIp && _) = _
      rw [hudp, hip, hword, if_pos (by omega), Packet.isUdp, protocol_eq]
      rfl
    · show (s.isTcp || s.isIp && _) = _
      rw [htcp, hip, hword, if_pos (by omega), Packet.isTcp, protocol_eq]
      rfl
  · have hmore : isEop i s = false := heop.trans (decide_eq_false (by omega))
    refine known_hdr (by omega) (by omega) ?_ rfl (h.isIp (by omega)) (h.isUdp (by omega))
      (h.isTcp (by omega)) fun _ => h.hdrLen (by omega) (by omega)
    exact if_neg (by rw [hmore]; exact Bool.false_ne_true)
  · exact h.stepOptions (Nat.le_refl 4) hlt hstate rfl rfl rfl rfl rfl rfl
  · obtain ⟨m, rfl⟩ : ∃ m, n = m + 5 := ⟨n - 5, by omega⟩
    refine h.stepOptions (by omega) hlt hstate ?_ rfl rfl rfl rfl rfl
    rw [h.isIp (by omega), (h.inHdr h5 hstate).1]
    rfl

/-- A word behind the header is taken. -/
theorem Known.stepWritePacket (h : Known pk n s) (hstate : s.state = .writePacket) :
    Known pk (n + 1) (stepWritePacket i s) := by
  obtain ⟨h5, hpast⟩ := h.past hstate
  have hstate' : (OplProcessor.stepWritePacket i s).state =
    if isEop i s then .writeLastWord else .writePacket := rfl
  refine h.rest (by omega) ?_ rfl rfl rfl ?_ (fun _ hpk => ?_) (fun hpk _ hle => ?_) fun _ _ => rfl
  · intro hst
    rw [hstate'] at hst
    split at hst <;> cases hst
  · intro hst
    rw [hstate'] at hst
    split at hst <;> cases hst
  · have := hpast hpk
    omega
  · exact absurd (hpast hpk) (by omega)

/-- At the end of the packet. -/
theorem Known.stepWriteLastWord (h : Known pk n s) (hn : pk.data.length ≤ n)
    (hcnt : s.lastWordCnt < 2) : Known pk (n + 1) (stepWriteLastWord i s) := by
  have hsize := pk.length_data_ge
  have hstate' : (OplProcessor.stepWriteLastWord i s).state = .writeLastWord := if_pos hcnt
  refine h.rest (by omega) ?_ rfl rfl rfl ?_ ?_ (fun _ hlt => by omega) fun _ _ => rfl
  · exact fun hst => by cases hstate'.symm.trans hst
  · exact fun hst => by cases hstate'.symm.trans hst
  · exact fun hst => by cases hstate'.symm.trans hst

/-! ## Within a packet -/

section

variable (a : BitVec 320) (pk : Packet)

/-- How many headers are sent. -/
def hdrCount : Nat := (sentHdrs a false pk.hdrs).length

/-- How many words are pushed. -/
def pushCount : Nat := hdrCount a pk + pk.data.length

/-- `j` words of the packet were read and the registers have moved on `t` times. -/
inductive Phase (j t : Nat) (s : OplProcessor) : Prop
  | dest (state : s.state = .writeOutputDestination) (eq : t = j) (ctrl : s.inFifoCtrlD1 ≠ 0)
      (hdrs : (sentHdrs a false pk.hdrs).drop t = sentHdrs a s.vlanProcDone (pk.hdrs.drop j))
      (ioq : ∃ w ∈ pk.hdrs.drop j, w.ctrl = ioQueueStageNum)
  | ioHdr (state : s.state = .writeIoHdr)
      (hdrs : (sentHdrs a false pk.hdrs).drop t =
        withPorts a ⟨ioQueueStageNum, s.outDataIoq⟩ :: pk.hdrs.drop j)
      (le : j ≤ pk.hdrs.length)
  | hdr1st (state : s.state = .hdr1st) (ctrl : s.inFifoCtrlD1 ≠ 0)
      (hdrs : (sentHdrs a false pk.hdrs).drop t = pk.hdrs.drop j) (le : j ≤ pk.hdrs.length)
      (le' : t ≤ hdrCount a pk)
  | data {n : Nat} (state : s.state = .hdrCont ∨ s.state = .writePacket)
      (ctrl : s.inFifoCtrlD1 = 0) (ge : 1 ≤ n) (lt : n < pk.data.length)
      (hj : j = pk.hdrs.length + n) (ht : t = hdrCount a pk + n)
  | flush {f : Nat} (state : s.state = .writeLastWord) (ctrl : s.inFifoCtrlD1 ≠ 0)
      (cnt : s.lastWordCnt = BitVec.ofNat 2 f) (lt : f < 3) (hj : j = pk.words.length)
      (ht : t = pushCount a pk + f)

/-- The processor within a packet that it sends. -/
structure Sending (j t : Nat) (s : OplProcessor) : Prop where
  phase : Phase a pk j t s
  known : Known pk (t - hdrCount a pk) s
  cnt : t < pushCount a pk → s.lastWordCnt = 0

/-- What the processor does when the registers move on. -/
structure Ticks (j t : Nat) (i : OplIn) (s s' : OplProcessor) : Prop where
  pushes : t < pushCount a pk → ∃ w, (pushed a pk)[t]? = some w ∧ Pushes w s s'
  flushes : pushCount a pk ≤ t → Flushes s s'
  goes : t < pushCount a pk + 2 →
    Sending a pk (j + if inFifoRdEn i s then 1 else 0) (t + 1) s'
  ends : t = pushCount a pk + 2 → finished i s = true ∧ s'.inFifoCtrlD1 ≠ 0

end

variable {a : BitVec 320} {j t : Nat}

theorem Known.hold (h : Known pk n s) : Known pk n (hold s) :=
  { h with }

theorem Sending.hold (h : Sending a pk j t s) : Sending a pk j t (hold s) := by
  refine ⟨?_, h.known.hold, h.cnt⟩
  cases h.phase with
  | dest state eq ctrl hdrs ioq => exact .dest state eq ctrl hdrs ioq
  | ioHdr state hdrs le => exact .ioHdr state hdrs le
  | hdr1st state ctrl hdrs le le' => exact .hdr1st state ctrl hdrs le le'
  | data state ctrl ge lt hj ht => exact .data state ctrl ge lt hj ht
  | flush state ctrl cnt lt hj ht => exact .flush state ctrl cnt lt hj ht

/-- The header that is pushed next. -/
theorem pushed_of_drop {w : Word} {ws : List Word}
    (h : (sentHdrs a false pk.hdrs).drop t = w :: ws) :
    t < hdrCount a pk ∧ (pushed a pk)[t]? = some w ∧ (sentHdrs a false pk.hdrs).drop (t + 1) = ws := by
  have hget : (sentHdrs a false pk.hdrs)[t]? = some w := by
    rw [← Nat.add_zero t, ← List.getElem?_drop, h]
    rfl
  have hlt := (List.getElem?_eq_some_iff.mp hget).1
  refine ⟨hlt, (List.getElem?_append_left hlt).trans hget, ?_⟩
  rw [← List.drop_drop, h]
  rfl

/-- The header of the input queue is still to come. -/
theorem lt_of_seeking {done : Bool}
    (hhdrs : (sentHdrs a false pk.hdrs).drop t = sentHdrs a done (pk.hdrs.drop j))
    (hioq : ∃ w ∈ pk.hdrs.drop j, w.ctrl = ioQueueStageNum) : t < hdrCount a pk := by
  obtain ⟨w, hw, -⟩ := hioq
  cases hdrop : pk.hdrs.drop j with
  | nil =>
    rw [hdrop] at hw
    cases hw
  | cons v vs =>
    obtain ⟨x, xs, hcons⟩ := sentHdrs_cons a done v vs
    rw [hdrop, hcons] at hhdrs
    exact (pushed_of_drop hhdrs).1

theorem drop_hdrs {w : Word} (hj : j < pk.hdrs.length) (hw : pk.words[j]? = some w) :
    pk.hdrs.drop j = w :: pk.hdrs.drop (j + 1) := by
  rw [Packet.words, List.getElem?_append_left hj, List.getElem?_eq_some_iff] at hw
  obtain ⟨_, rfl⟩ := hw
  exact List.drop_eq_getElem_cons hj

/-- A word before the end. -/
theorem Ticks.of_push {w : Word} (hlt : t < pushCount a pk) (hw : (pushed a pk)[t]? = some w)
    (hpush : Pushes w s s')
    (hgoes : Sending a pk (j + if inFifoRdEn i s then 1 else 0) (t + 1) s') :
    Ticks a pk j t i s s' :=
  ⟨fun _ => ⟨w, hw, hpush⟩, fun hle => by omega, fun _ => hgoes, fun heq => by omega⟩

theorem hdrCount_lt_pushCount (a : BitVec 320) (pk : Packet) : hdrCount a pk + 7 < pushCount a pk := by
  have := pk.length_data_ge
  rw [pushCount]
  omega

/-- What is known of the packet stays. -/
structure Keeps (s s' : OplProcessor) : Prop where
  isIp : s'.isIp = s.isIp
  isUdp : s'.isUdp = s.isUdp
  isTcp : s'.isTcp = s.isTcp
  cnt : s'.lastWordCnt = s.lastWordCnt

/-- A header is pushed, and the data are still to come. -/
theorem Sending.of_hdr (h : Sending a pk j t s) (ht : t + 1 ≤ hdrCount a pk)
    {j' : Nat} (hphase : Phase a pk j' (t + 1) s') (hkeeps : Keeps s s')
    (hstate : s'.state = .writeOutputDestination ∨ s'.state = .writeIoHdr ∨ s'.state = .hdr1st) :
    Sending a pk j' (t + 1) s' := by
  have hlt := hdrCount_lt_pushCount a pk
  obtain ⟨hudp, htcp⟩ := h.known.noTp (by omega)
  have hne : ∀ st, st = .writeReplacements ∨ st = .hdrCont ∨ st = .writePacket → s'.state ≠ st := by
    rintro st (rfl | rfl | rfl) heq <;> rw [heq] at hstate <;>
      rcases hstate with hstate | hstate | hstate <;> cases hstate
  refine ⟨hphase, ?_, fun _ => hkeeps.cnt.trans (h.cnt (by omega))⟩
  rw [Nat.sub_eq_zero_of_le ht]
  exact known_zero (hne _ (.inl rfl)) (hne _ (.inr (.inl rfl))) (hne _ (.inr (.inr rfl)))
    (hkeeps.isIp.trans (h.known.noIp (by omega))) (hkeeps.isUdp.trans hudp)
    (hkeeps.isTcp.trans htcp)

theorem ctrl_of_pushed {w : Word} (ht : t < hdrCount a pk) (hw : (pushed a pk)[t]? = some w) :
    w.ctrl ≠ 0 := by
  rw [pushed, List.getElem?_append_left ht] at hw
  exact sentHdrs_ctrl a pk.hdrs_ctrl w (List.mem_of_getElem? hw)

/-- The data words are pushed as they are. -/
theorem pushed_data {w : Word} (hw : pk.words[pk.hdrs.length + n]? = some w) :
    (pushed a pk)[hdrCount a pk + n]? = some w := by
  rw [Packet.words, List.getElem?_append_right (Nat.le_add_right _ _),
    Nat.add_sub_cancel_left] at hw
  rw [pushed, hdrCount, List.getElem?_append_right (Nat.le_add_right _ _),
    Nat.add_sub_cancel_left, hw]

theorem lastWordCnt_stepHdrCont : (stepHdrCont i s).lastWordCnt = s.lastWordCnt := by
  rw [stepHdrCont]
  cases s.hdrReplaceCntr with
  | hdr2nd | hdr3rd | hdr4th => rfl
  | hdr5th | hdr6th =>
    dsimp only [stepOptions]
    split_ifs <;> rfl

section Tick

variable (hreset : i.reset = false) (ha : i.resultFifoDout.2 = a)
  (hword : inFifoRdEn i s = true → pk.words[j]? = some i.inFifo)

/-- A header before that of the input queue. -/
theorem Sending.seeks (h : Sending a pk j t s) (hrd : inFifoRdEn i s = true) (heq : t = j)
    (hdrop : pk.hdrs.drop j = i.inFifo :: pk.hdrs.drop (j + 1))
    (hioq : ∃ w ∈ pk.hdrs.drop j, w.ctrl = ioQueueStageNum)
    (hnot : i.inFifo.ctrl ≠ ioQueueStageNum) {w : Word}
    (hhdrs : (sentHdrs a false pk.hdrs).drop t =
      w :: sentHdrs a s'.vlanProcDone (pk.hdrs.drop (j + 1)))
    (hpush : Pushes w s s') (hkeeps : Keeps s s') (hstate : s'.state = .writeOutputDestination) :
    Ticks a pk j t i s s' := by
  obtain ⟨hlt, hget, hrest⟩ := pushed_of_drop hhdrs
  have hmore := hdrCount_lt_pushCount a pk
  have hctrl : s'.inFifoCtrlD1 = w.ctrl := congrArg Word.ctrl hpush.slot1
  have hioq' : ∃ v ∈ pk.hdrs.drop (j + 1), v.ctrl = ioQueueStageNum := by
    obtain ⟨v, hmem, hv⟩ := hioq
    rw [hdrop, List.mem_cons] at hmem
    rcases hmem with rfl | hmem
    · exact absurd hv hnot
    · exact ⟨v, hmem, hv⟩
  refine .of_push (by omega) hget hpush ?_
  rw [hrd, if_pos rfl]
  exact h.of_hdr hlt (.dest hstate (by omega) (hctrl ▸ ctrl_of_pushed hlt hget) hrest hioq') hkeeps
    (.inl hstate)

include hreset ha hword

theorem Sending.tick_dest (h : Sending a pk j t s) (hrd : inFifoRdEn i s = true)
    (hstate : s.state = .writeOutputDestination) (heq : t = j)
    (hhdrs : (sentHdrs a false pk.hdrs).drop t = sentHdrs a s.vlanProcDone (pk.hdrs.drop j))
    (hioq : ∃ w ∈ pk.hdrs.drop j, w.ctrl = ioQueueStageNum) :
    Ticks a pk j t i s (s.step i) := by
  have hj : j < pk.hdrs.length := by
    obtain ⟨w, hw, -⟩ := hioq
    have := List.length_pos_of_mem hw
    rw [List.length_drop] at this
    omega
  have hdrop := drop_hdrs hj (hword hrd)
  have hmore := hdrCount_lt_pushCount a pk
  subst ha
  rw [step_writeOutputDestination hreset hstate, if_pos hrd, stepWriteOutputDestination]
  rw [hdrop, sentHdrs] at hhdrs
  by_cases hvlan : i.inFifo.ctrl = vlanCtrlWord
  · have hnot : i.inFifo.ctrl ≠ ioQueueStageNum := by
      rw [hvlan]
      decide
    rw [if_pos hvlan, changeVlan, hasFlag_eq] at hhdrs
    rw [if_pos hvlan]
    by_cases hstrip : i.hasFlag ofpatStripVlan = true
    · rw [if_pos hstrip] at hhdrs
      rw [if_pos hstrip]
      exact h.seeks hrd heq hdrop hioq hnot hhdrs ⟨rfl, rfl, rfl, rfl, rfl, rfl, rfl, rfl⟩
        ⟨rfl, rfl, rfl, rfl⟩ hstate
    · rw [if_neg hstrip] at hhdrs
      rw [if_neg hstrip]
      exact h.seeks hrd heq hdrop hioq hnot hhdrs ⟨rfl, rfl, rfl, rfl, rfl, rfl, rfl, rfl⟩
        ⟨rfl, rfl, rfl, rfl⟩ hstate
  · rw [if_neg hvlan] at hhdrs
    rw [if_neg hvlan]
    by_cases hq : i.inFifo.ctrl = ioQueueStageNum
    · rw [if_pos hq, ioqHdrs, hasFlag_eq, hasFlag_eq] at hhdrs
      rw [if_pos hq]
      dsimp only
      split_ifs with hset
      · rw [if_pos hset] at hhdrs
        obtain ⟨hlt, hget, hrest⟩ := pushed_of_drop hhdrs
        refine .of_push (by omega) hget ⟨rfl, rfl, rfl, rfl, rfl, rfl, rfl, rfl⟩ ?_
        rw [hrd, if_pos rfl]
        exact h.of_hdr hlt (.ioHdr rfl hrest hj) ⟨rfl, rfl, rfl, rfl⟩ (.inr (.inl rfl))
      · rw [if_neg hset] at hhdrs
        obtain ⟨hlt, hget, hrest⟩ := pushed_of_drop hhdrs
        have hctrl := ctrl_of_pushed hlt hget
        refine .of_push (by omega) hget ⟨rfl, rfl, rfl, rfl, ?_, rfl, rfl, rfl⟩ ?_
        · rw [hq]
          rfl
        · rw [hrd]
          refine h.of_hdr hlt (.hdr1st rfl ?_ hrest hj hlt) ⟨rfl, rfl, rfl, rfl⟩ (.inr (.inr rfl))
          rw [hq]
          exact hctrl
    · rw [if_neg hq] at hhdrs
      rw [if_neg hq]
      exact h.seeks hrd heq hdrop hioq hq hhdrs ⟨rfl, rfl, rfl, rfl, rfl, rfl, rfl, rfl⟩
        ⟨rfl, rfl, rfl, rfl⟩ hstate

omit hword in
theorem Sending.tick_ioHdr (h : Sending a pk j t s) (hrdy : i.outRdy = true)
    (hstate : s.state = .writeIoHdr)
    (hhdrs : (sentHdrs a false pk.hdrs).drop t =
      withPorts a ⟨ioQueueStageNum, s.outDataIoq⟩ :: pk.hdrs.drop j)
    (hj : j ≤ pk.hdrs.length) : Ticks a pk j t i s (s.step i) := by
  have hrd : inFifoRdEn i s = false := by rw [inFifoRdEn, hstate]
  have hmore := hdrCount_lt_pushCount a pk
  obtain ⟨hlt, hget, hrest⟩ := pushed_of_drop hhdrs
  subst ha
  rw [step_writeIoHdr hreset hstate, if_pos hrdy, stepWriteIoHdr]
  refine .of_push (by omega) hget ⟨rfl, rfl, rfl, rfl, rfl, rfl, rfl, rfl⟩ ?_
  rw [hrd]
  exact h.of_hdr hlt (.hdr1st rfl (ctrl_of_pushed hlt hget) hrest hj hlt) ⟨rfl, rfl, rfl, rfl⟩
    (.inr (.inr rfl))

omit ha in
theorem Sending.tick_hdr1st (h : Sending a pk j t s) (hrd : inFifoRdEn i s = true)
    (hstate : s.state = .hdr1st) (hctrl : s.inFifoCtrlD1 ≠ 0)
    (hhdrs : (sentHdrs a false pk.hdrs).drop t = pk.hdrs.drop j) (hj : j ≤ pk.hdrs.length)
    (ht : t ≤ hdrCount a pk) : Ticks a pk j t i s (s.step i) := by
  have hsize := pk.length_data_ge
  have hmore := hdrCount_lt_pushCount a pk
  have hw := hword hrd
  have heop : isEop i s = false := by rw [isEop, decide_eq_false hctrl, Bool.and_false]
  have hstep : s.step i = stepHdr1st i s := by rw [step_hdr1st hreset hstate, if_pos hrd]
  rw [hstep]
  rcases Nat.lt_or_eq_of_le hj with hlt | rfl
  · rw [drop_hdrs hlt hw] at hhdrs
    obtain ⟨hlt', hget, hrest⟩ := pushed_of_drop hhdrs
    have hne := Packet.ctrl_of_hdr hlt hw
    refine .of_push (by omega) hget pushes_stepHdr1st ?_
    rw [hrd, if_pos rfl, stepHdr1st, if_neg hne, heop, if_neg Bool.false_ne_true]
    exact h.of_hdr hlt' (.hdr1st hstate hne hrest hlt hlt') ⟨rfl, rfl, rfl, rfl⟩
      (.inr (.inr hstate))
  · -- The headers are through: this is the first data word.
    have heq : t = hdrCount a pk := by
      have hlen := congrArg List.length hhdrs
      rw [List.length_drop, List.length_drop, Nat.sub_self] at hlen
      exact Nat.le_antisymm ht (Nat.le_of_sub_eq_zero hlen)
    subst heq
    have hzero : i.inFifo.ctrl = 0 :=
      (Packet.ctrl_eq_zero_iff (Nat.le_refl _) hw).mpr (by rw [Packet.length_words]; omega)
    obtain ⟨hudp, htcp⟩ := h.known.noTp (by omega)
    refine .of_push (by omega) (pushed_data (n := 0) hw) pushes_stepHdr1st ?_
    rw [hrd, if_pos rfl, stepHdr1st, if_pos hzero]
    refine ⟨.data (.inl rfl) hzero (Nat.le_refl 1) (by omega) rfl rfl, ?_, fun _ => h.cnt (by omega)⟩
    rw [Nat.add_sub_cancel_left]
    exact known_hdr (Nat.le_refl 1) (by omega) rfl rfl (h.known.noIp (by omega)) hudp htcp
      fun h2 => by omega

omit hreset ha in
/-- A data word: the last one is followed by the words in the registers. -/
theorem Sending.of_data {f : OplProcessor} (h : Sending a pk j t s) (hrd : inFifoRdEn i s = true)
    (hctrl : s.inFifoCtrlD1 = 0) (hge : 1 ≤ n) (hlt : n < pk.data.length)
    (hj : j = pk.hdrs.length + n) (ht : t = hdrCount a pk + n) (hpush : Pushes i.inFifo s f)
    (hdata : Reading.InData i (isEop i s) f) (hcnt : f.lastWordCnt = s.lastWordCnt)
    (hknown : isEop i s = decide (n + 1 = pk.data.length) → i.inFifo.data = pk.word n →
      Known pk (n + 1) f) : Ticks a pk j t i s f := by
  subst hj ht
  have hw := hword hrd
  have hzero := Packet.ctrl_eq_zero_iff (Nat.le_add_right _ _) hw
  rw [Packet.length_words, Nat.add_assoc, Nat.add_lt_add_iff_left] at hzero
  have heop := isEop_eq hctrl hzero hlt
  have hcount : hdrCount a pk + n < pushCount a pk := Nat.add_lt_add_left hlt _
  have hcnt' := hcnt.trans (h.cnt hcount)
  refine .of_push hcount (pushed_data hw) hpush ?_
  rw [hrd, if_pos rfl]
  refine ⟨?_, ?_, fun _ => hcnt'⟩
  · by_cases hmore : n + 1 < pk.data.length
    · refine .data (hdata.more ?_) (hdata.ctrl.trans (hzero.mpr hmore)) (by omega) hmore rfl rfl
      exact heop.trans (decide_eq_false (by omega))
    · refine .flush (f := 0) (hdata.last ?_) ?_ hcnt' (by omega) ?_ ?_
      · exact heop.trans (decide_eq_true (by omega))
      · rw [hdata.ctrl, ne_eq, hzero]
        exact hmore
      · rw [Packet.length_words]
        omega
      · rw [pushCount]
        omega
  · rw [Nat.add_assoc, Nat.add_sub_cancel_left]
    exact hknown heop (Packet.data_eq_word hw)

omit ha in
theorem Sending.tick_data (h : Sending a pk j t s) (hrd : inFifoRdEn i s = true)
    (hstate : s.state = .hdrCont ∨ s.state = .writePacket) (hctrl : s.inFifoCtrlD1 = 0)
    (hge : 1 ≤ n) (hlt : n < pk.data.length) (hj : j = pk.hdrs.length + n)
    (ht : t = hdrCount a pk + n) : Ticks a pk j t i s (s.step i) := by
  have hknown : Known pk n s := by
    have := h.known
    rwa [ht, Nat.add_sub_cancel_left] at this
  rcases hstate with hstate | hstate
  · rw [step_hdrCont hreset hstate, if_pos hrd]
    exact h.of_data hword hrd hctrl hge hlt hj ht pushes_stepHdrCont Reading.inData_stepHdrCont
      lastWordCnt_stepHdrCont fun heop hdata => hknown.stepHdrCont hstate hge hlt heop hdata
  · rw [step_writePacket hreset hstate, if_pos hrd]
    exact h.of_data hword hrd hctrl hge hlt hj ht pushes_stepWritePacket
      Reading.inData_stepWritePacket rfl fun _ _ => hknown.stepWritePacket hstate

omit ha hword in
theorem Sending.tick_flush {f : Nat} (h : Sending a pk j t s) (hrdy : i.outRdy = true)
    (hstate : s.state = .writeLastWord) (hctrl : s.inFifoCtrlD1 ≠ 0)
    (hcnt : s.lastWordCnt = BitVec.ofNat 2 f) (hf : f < 3) (hj : j = pk.words.length)
    (ht : t = pushCount a pk + f) : Ticks a pk j t i s (s.step i) := by
  have hrd : inFifoRdEn i s = false := by rw [inFifoRdEn, hstate]
  have hcnt2 : s.lastWordCnt < 2 ↔ f < 2 := by
    rw [hcnt]
    have hcases : f = 0 ∨ f = 1 ∨ f = 2 := by omega
    rcases hcases with rfl | rfl | rfl <;> decide
  rw [step_writeLastWord hreset hstate, if_pos hrdy]
  refine ⟨fun hlt => by omega, fun _ => flushes_stepWriteLastWord, fun hlt => ?_, fun heq => ?_⟩
  · have hf2 : f < 2 := by omega
    have hsmall := hcnt2.mpr hf2
    have hcount : t + 1 - hdrCount a pk = t - hdrCount a pk + 1 := by
      rw [ht, pushCount]
      omega
    have hstate' : (stepWriteLastWord i s).state = .writeLastWord := if_pos hsmall
    have hcnt' : (stepWriteLastWord i s).lastWordCnt = BitVec.ofNat 2 (f + 1) := by
      have hcases : f = 0 ∨ f = 1 := by omega
      rw [stepWriteLastWord]
      dsimp only
      rw [if_pos hsmall, hcnt]
      rcases hcases with rfl | rfl <;> rfl
    rw [hrd]
    refine ⟨.flush hstate' hctrl hcnt' (by omega) hj (by omega), ?_, fun hlt => by omega⟩
    rw [hcount]
    refine h.known.stepWriteLastWord ?_ hsmall
    rw [ht, pushCount]
    omega
  · have hnot : ¬ s.lastWordCnt < 2 := hcnt2.not.mpr (by omega)
    refine ⟨?_, hctrl⟩
    rw [finished, hstate, hrdy, decide_eq_false hnot]
    rfl

/-- The registers move on. -/
theorem Sending.tick (h : Sending a pk j t s) (henb : outDataEnb i s = true) :
    Ticks a pk j t i s (s.step i) := by
  rw [outDataEnb] at henb
  cases h.phase with
  | dest state eq ctrl hdrs ioq =>
    rw [state] at henb
    exact h.tick_dest hreset ha hword (by rwa [inFifoRdEn, state]) state eq hdrs ioq
  | ioHdr state hdrs le =>
    rw [state] at henb
    exact h.tick_ioHdr hreset ha henb state hdrs le
  | hdr1st state ctrl hdrs le le' =>
    rw [state] at henb
    exact h.tick_hdr1st hreset hword (by rwa [inFifoRdEn, state]) state ctrl hdrs le le'
  | data state ctrl ge lt hj ht =>
    have hrd : inFifoRdEn i s = true := by
      rcases state with state | state
      · rw [state] at henb
        rwa [inFifoRdEn, state]
      · rw [state] at henb
        rwa [inFifoRdEn, state]
    exact h.tick_data hreset hword hrd state ctrl ge lt hj ht
  | flush state ctrl cnt lt hj ht =>
    rw [state] at henb
    exact h.tick_flush hreset henb state ctrl cnt lt hj ht

omit ha hword in
/-- They do not. -/
theorem Sending.stays (h : Sending a pk j t s) (henb : outDataEnb i s = false) :
    s.step i = OplProcessor.hold s ∧ inFifoRdEn i s = false := by
  have hno : ¬ false = true := Bool.false_ne_true
  rw [outDataEnb] at henb
  cases h.phase with
  | dest state =>
    rw [state] at henb
    have hrd : inFifoRdEn i s = false := by rwa [inFifoRdEn, state]
    rw [step_writeOutputDestination hreset state, hrd]
    exact ⟨if_neg hno, rfl⟩
  | ioHdr state =>
    rw [state] at henb
    have hrd : inFifoRdEn i s = false := by rw [inFifoRdEn, state]
    rw [step_writeIoHdr hreset state, hrd, show i.outRdy = false from henb]
    exact ⟨if_neg hno, rfl⟩
  | hdr1st state =>
    rw [state] at henb
    have hrd : inFifoRdEn i s = false := by rwa [inFifoRdEn, state]
    rw [step_hdr1st hreset state, hrd]
    exact ⟨if_neg hno, rfl⟩
  | data state =>
    rcases state with state | state
    · rw [state] at henb
      have hrd : inFifoRdEn i s = false := by rwa [inFifoRdEn, state]
      rw [step_hdrCont hreset state, hrd]
      exact ⟨if_neg hno, rfl⟩
    · rw [state] at henb
      have hrd : inFifoRdEn i s = false := by rwa [inFifoRdEn, state]
      rw [step_writePacket hreset state, hrd]
      exact ⟨if_neg hno, rfl⟩
  | flush state =>
    rw [state] at henb
    have hrd : inFifoRdEn i s = false := by rw [inFifoRdEn, state]
    rw [step_writeLastWord hreset state, hrd, show i.outRdy = false from henb]
    exact ⟨if_neg hno, rfl⟩

end Tick

/-- The words of the packet are pushed, or the last one is on its way out. -/
theorem Sending.pushes_or_over (h : Sending a pk j t s) :
    t < pushCount a pk ∧ s.state ≠ .writeLastWord ∧ (∀ i, finished i s = false) ∨
      ∃ f, f < 3 ∧ t = pushCount a pk + f ∧ j = pk.words.length ∧ s.state = .writeLastWord ∧
        s.lastWordCnt = BitVec.ofNat 2 f := by
  have hlt := hdrCount_lt_pushCount a pk
  cases h.phase with
  | dest state eq ctrl hdrs ioq =>
    have := lt_of_seeking hdrs ioq
    exact .inl ⟨by omega, by simp [finished, state]⟩
  | ioHdr state hdrs le =>
    have := (pushed_of_drop hdrs).1
    exact .inl ⟨by omega, by simp [finished, state]⟩
  | hdr1st state ctrl hdrs le le' => exact .inl ⟨by omega, by simp [finished, state]⟩
  | data state ctrl ge lt hj ht =>
    refine .inl ⟨by rw [ht, pushCount]; omega, ?_⟩
    rcases state with state | state <;> simp [finished, state]
  | flush state ctrl cnt lt hj ht => exact .inr ⟨_, lt, ht, hj, state, cnt⟩

theorem Sending.lt (h : Sending a pk j t s) : t < pushCount a pk + 3 := by
  rcases h.pushes_or_over with ⟨hlt, -⟩ | ⟨f, hf, rfl, -⟩ <;> omega

/-- The packet is over when the registers have moved on three times behind its last word. -/
theorem Sending.finished_eq (h : Sending a pk j t s) :
    finished i s = (outDataEnb i s && decide (t = pushCount a pk + 2)) := by
  rcases h.pushes_or_over with ⟨hlt, -, hfin⟩ | ⟨f, hf, rfl, -, state, cnt⟩
  · rw [hfin, decide_eq_false (by omega), Bool.and_false]
  · have hcases : f = 0 ∨ f = 1 ∨ f = 2 := by omega
    rw [finished, outDataEnb, state, cnt]
    rcases hcases with rfl | rfl | rfl <;> simp

/-- From the first data word to the last one each tick takes a word. -/
theorem Sending.reads (h : Sending a pk j t s) (hge : hdrCount a pk ≤ t)
    (hlt : t < pushCount a pk) :
    inFifoRdEn i s = outDataEnb i s ∧ j = pk.hdrs.length + (t - hdrCount a pk) := by
  rw [inFifoRdEn, outDataEnb]
  cases h.phase with
  | dest state eq ctrl hdrs ioq =>
    have := lt_of_seeking hdrs ioq
    omega
  | ioHdr state hdrs le =>
    have := (pushed_of_drop hdrs).1
    omega
  | hdr1st state ctrl hdrs le le' =>
    have hlen : hdrCount a pk - t = pk.hdrs.length - j := by
      rw [hdrCount, ← List.length_drop, hdrs, List.length_drop]
    rw [state]
    exact ⟨rfl, by omega⟩
  | data state ctrl ge lt hj ht =>
    refine ⟨?_, by omega⟩
    rcases state with state | state <;> rw [state]
  | flush state ctrl cnt lt hj ht => omega

/-- A state in which words are read comes before the end of the packet. -/
theorem Sending.lt_of_reading (h : Sending a pk j t s) (hio : s.state ≠ .writeIoHdr)
    (hlast : s.state ≠ .writeLastWord) : j < pk.words.length := by
  have hsize := pk.length_data_ge
  rw [Packet.length_words]
  cases h.phase with
  | dest state eq ctrl hdrs ioq =>
    obtain ⟨w, hw, -⟩ := ioq
    have := List.length_pos_of_mem hw
    rw [List.length_drop] at this
    omega
  | ioHdr state => exact absurd state hio
  | hdr1st state ctrl hdrs le le' => omega
  | data state ctrl ge lt hj ht => omega
  | flush state => exact absurd state hlast

theorem Sending.lt_of_rd (h : Sending a pk j t s) (hrd : inFifoRdEn i s = true) :
    j < pk.words.length := by
  rw [inFifoRdEn] at hrd
  refine h.lt_of_reading (fun hstate => ?_) fun hstate => ?_
  · simp [hstate] at hrd
  · simp [hstate] at hrd

/-- The processor is held up by the output, or by a word of the packet that is not there yet. -/
theorem Sending.held (h : Sending a pk j t s) (henb : outDataEnb i s = false) :
    i.outRdy = false ∨ i.inFifoEmpty = true ∧ j < pk.words.length := by
  cases hrdy : i.outRdy with
  | false => exact .inl rfl
  | true =>
    have hreads : s.state ≠ .writeIoHdr ∧ s.state ≠ .writeLastWord := by
      rw [outDataEnb, hrdy] at henb
      refine ⟨fun hstate => ?_, fun hstate => ?_⟩
      · simp [hstate] at henb
      · simp [hstate] at henb
    refine .inr ⟨?_, h.lt_of_reading hreads.1 hreads.2⟩
    rw [outDataEnb, hrdy] at henb
    cases h.phase with
    | dest state => simpa [state] using henb
    | ioHdr state => exact absurd state hreads.1
    | hdr1st state => simpa [state] using henb
    | data state => rcases state with state | state <;> simpa [state] using henb
    | flush state => exact absurd state hreads.2

/-- Behind its last word the packet is read. -/
theorem Sending.over (h : Sending a pk j t s) (ht : pushCount a pk ≤ t) :
    s.state = .writeLastWord ∧ j = pk.words.length := by
  rcases h.pushes_or_over with ⟨hlt, -⟩ | ⟨f, -, -, hj, state, -⟩
  · omega
  · exact ⟨state, hj⟩

/-- Before that it is not. -/
theorem Sending.state_ne (h : Sending a pk j t s) (ht : t < pushCount a pk) :
    s.state ≠ .writeLastWord := by
  rcases h.pushes_or_over with ⟨-, hne, -⟩ | ⟨f, -, heq, -⟩
  · exact hne
  · omega

/-- A packet that has output ports is begun when `out_rdy` is high. -/
theorem sending_zero (hreset : i.reset = false) (hstate : s.state = .writeReplacements)
    (hmask : i.forwardBitmask ≠ 0) (hrdy : i.outRdy = true) (hctrl : s.inFifoCtrlD1 ≠ 0) :
    Sending a pk 0 0 (s.step i) := by
  have hstate' : (s.step i).state = .writeOutputDestination := by
    rw [step_writeReplacements hreset hstate, stepWriteReplacements, if_neg hmask, hrdy]
    rfl
  rw [step_writeReplacements hreset hstate] at hstate' ⊢
  refine ⟨.dest hstate' rfl hctrl rfl pk.ioq, ?_, fun _ => rfl⟩
  rw [Nat.zero_sub]
  refine known_zero ?_ ?_ ?_ rfl rfl rfl <;> rw [hstate'] <;> decide

end OplProcessor

end Sdpa.Hardware
