import Sdpa.Hardware.LookupTable

/-!
# Counter registers

`generic_cntr_regs`, which has the counters of `generic_regs`. They are words of a RAM
that is written once a cycle: `reg_cnt` goes round the counters, and the updates of a
counter are summed up in its delta until its turn comes. A request to a counter takes
a cycle from the round, and a read clears the delta of the counter whose turn it is
without adding it. Without requests a counter and its delta are the sum of the
updates, as long as the delta is wide enough for those of a round.
-/
namespace Sdpa.Hardware

structure CntrParams where
  tag : BitVec 13
  numRegsUsed : Nat
  regStartAddr : Nat
  inputWidth : Nat
  minUpdateInterval : Nat
  resetOnRead : Bool

namespace CntrParams

variable (p : CntrParams)

def regEndAddr : Nat := p.regStartAddr + p.numRegsUsed

def updatesPerCycle : Nat := ceildiv (p.numRegsUsed + 1) p.minUpdateInterval

def deltaWidth : Nat := p.inputWidth + log2 p.updatesPerCycle + 1

/-- `addr`, `REG_ADDR_WIDTH` being 10. -/
def addr (b : RegBus) : Nat := (b.addr.setWidth 10).toNat

/-- `tag_hit && addr_good && reg_req_in`. -/
def reqGood (b : RegBus) : Bool :=
  b.addr.extractLsb' 10 13 == p.tag &&
    (decide (addr b < p.regEndAddr) && decide (p.regStartAddr ≤ addr b)) && b.req

def regCntNxt (regCnt : Nat) : Nat :=
  if regCnt = p.regEndAddr - 1 then p.regStartAddr else regCnt + 1

end CntrParams

inductive CntrState where
  | reset | normal
deriving DecidableEq, Repr

structure CntrIn (p : CntrParams) where
  regIn : RegBus
  updates : Nat → BitVec p.inputWidth
  decrement : Nat → Bool
  reset : Bool

structure CntrRegs (p : CntrParams) where
  regFile : Nat → BitVec 32
  regFileRdAddrRam : Nat
  deltas : Nat → BitVec p.deltaWidth
  regCnt : Nat
  regCntD1 : Nat
  regRdReqGoodD1 : Bool
  regWrReqGoodD1 : Bool
  regInD1 : RegBus
  regOut : RegBus
  state : CntrState

namespace CntrRegs

variable {p : CntrParams} (i : CntrIn p) (s : CntrRegs p)

def regFileOut : BitVec 32 := s.regFile s.regFileRdAddrRam

def regFileWrAddr : Nat :=
  if s.state = .reset then s.regCnt
  else if s.regWrReqGoodD1 || s.regRdReqGoodD1 then CntrParams.addr s.regInD1
  else s.regCntD1

/-- What is written to the RAM, if `reg_file_wr_en` is high. -/
def regFileIn : Option (BitVec 32) :=
  if s.state = .reset || s.regRdReqGoodD1 && p.resetOnRead then some 0
  else if !s.regWrReqGoodD1 && !s.regRdReqGoodD1 then
    some (regFileOut s + (s.deltas s.regCntD1).signExtend 32)
  else if s.regWrReqGoodD1 then some s.regInD1.data
  else none

def stepRegFile : Nat → BitVec 32 :=
  match regFileIn s with
  | some w => Function.update s.regFile (regFileWrAddr s) w
  | none => s.regFile

def stepDeltas (a : Nat) : BitVec p.deltaWidth :=
  let committed := a = s.regCntD1 && !s.regWrReqGoodD1 && !(s.regRdReqGoodD1 && p.resetOnRead)
  let delta := if committed then 0 else s.deltas a
  let update := (i.updates a).setWidth p.deltaWidth
  if i.decrement a then delta - update else delta + update

def step : CntrRegs p :=
  let rdGood := p.reqGood i.regIn && i.regIn.rdWrL
  let wrGood := p.reqGood i.regIn && !i.regIn.rdWrL
  let ram := { s with
    regFile := stepRegFile s
    regFileRdAddrRam := if rdGood then CntrParams.addr i.regIn else s.regCnt }
  if i.reset then
    { ram with
      regCnt := p.regStartAddr, regRdReqGoodD1 := false, regWrReqGoodD1 := false
      regInD1 := { s.regInD1 with req := false }
      regOut := { s.regOut with req := false, ack := false }
      state := .reset, deltas := fun _ => 0 }
  else
    match s.state with
    | .reset =>
      { ram with
        regCntD1 := s.regCnt, regCnt := p.regCntNxt s.regCnt
        state := if s.regCnt = p.regEndAddr - 1 then .normal else .reset }
    | .normal =>
      { ram with
        regCntD1 := s.regCnt
        regCnt := if rdGood || wrGood then s.regCnt else p.regCntNxt s.regCnt
        regRdReqGoodD1 := rdGood, regWrReqGoodD1 := wrGood, regInD1 := i.regIn
        regOut := { s.regInD1 with
          ack := s.regRdReqGoodD1 || s.regWrReqGoodD1 || s.regInD1.ack
          data := if s.regRdReqGoodD1 then regFileOut s else s.regInD1.data }
        deltas := stepDeltas i s }

/-- What counter `a` comes to: its register and what is still to be added to it. -/
def counter (a : Nat) : BitVec 32 := s.regFile a + (s.deltas a).signExtend 32

/-- The round goes on, and no request is under way. -/
structure Sweeping : Prop where
  normal : s.state = .normal
  noRead : s.regRdReqGoodD1 = false
  noWrite : s.regWrReqGoodD1 = false
  next : s.regCnt = p.regCntNxt s.regCntD1
  ram : s.regFileRdAddrRam = s.regCntD1
  inside : p.regStartAddr ≤ s.regCntD1 ∧ s.regCntD1 < p.regEndAddr

/-- The round has begun, and there is nothing to add. -/
structure Settled : Prop extends Sweeping s where
  deltas : ∀ a, s.deltas a = 0

/-- The registers after the round that follows a reset. -/
def start : CntrRegs p where
  regFile := fun _ => 0
  regFileRdAddrRam := p.regEndAddr - 1
  deltas := fun _ => 0
  regCnt := p.regStartAddr
  regCntD1 := p.regEndAddr - 1
  regRdReqGoodD1 := false
  regWrReqGoodD1 := false
  regInD1 := ⟨false, false, false, 0, 0, 0⟩
  regOut := ⟨false, false, false, 0, 0, 0⟩
  state := .normal

theorem settled_start (h : 0 < p.numRegsUsed) : Settled (start (p := p)) where
  normal := rfl
  noRead := rfl
  noWrite := rfl
  next := (if_pos rfl).symm
  ram := rfl
  inside := by
    show p.regStartAddr ≤ p.regEndAddr - 1 ∧ p.regEndAddr - 1 < p.regEndAddr
    rw [CntrParams.regEndAddr]
    omega
  deltas _ := rfl

/-- Cycles until the turn of counter `a` comes. -/
def ahead (a : Nat) : Nat :=
  if s.regCntD1 ≤ a then a - s.regCntD1 else a + p.numRegsUsed - s.regCntD1

/-- A cycle without a request, in which updates are added. -/
structure Adds : Prop where
  reset : i.reset = false
  unasked : p.reqGood i.regIn = false
  decrement : ∀ a, i.decrement a = false

variable {i s}

theorem Sweeping.succ (h : s.Sweeping) (hi : Adds i) : (s.step i).Sweeping ∧
    (s.step i).regCntD1 = p.regCntNxt s.regCntD1 ∧
    (s.step i).regFile = Function.update s.regFile s.regCntD1 (s.counter s.regCntD1) ∧
    ∀ a, (s.step i).deltas a =
      (if a = s.regCntD1 then 0 else s.deltas a) + (i.updates a).setWidth p.deltaWidth := by
  have hstep : s.step i = { s with
      regFile := stepRegFile s, regFileRdAddrRam := s.regCnt, regCntD1 := s.regCnt
      regCnt := p.regCntNxt s.regCnt, regRdReqGoodD1 := false, regWrReqGoodD1 := false
      regInD1 := i.regIn, regOut := { s.regInD1 with ack := s.regInD1.ack }
      deltas := stepDeltas i s } := by
    simp only [step, hi.reset, hi.unasked, h.normal, h.noRead, h.noWrite]
    rfl
  rw [hstep]
  refine ⟨⟨h.normal, rfl, rfl, rfl, rfl, ?_⟩, h.next, ?_, fun a => ?_⟩
  · have := h.inside
    show p.regStartAddr ≤ s.regCnt ∧ s.regCnt < p.regEndAddr
    rw [h.next, CntrParams.regCntNxt]
    split <;> omega
  · simp [stepRegFile, regFileIn, regFileWrAddr, regFileOut, counter, h.normal, h.noRead,
      h.noWrite, h.ram]
  · simp [stepDeltas, hi.decrement a, h.noRead, h.noWrite]

/-- The updates of counter `a` before cycle `t`. -/
def total (i : Nat → CntrIn p) (a : Nat) : Nat → Nat
  | 0 => 0
  | t + 1 => total i a t + ((i t).updates a).toNat

theorem total_mono (i : Nat → CntrIn p) (a : Nat) : Monotone (total i a) :=
  monotone_nat_of_le_succ fun _ => Nat.le_add_right _ _

/-- A delta that is wide enough is not negative. -/
theorem signExtend_ofNat {w n : Nat} (h : n < 2 ^ (w - 1)) (v : Nat) :
    (BitVec.ofNat w n).signExtend v = BitVec.ofNat v n := by
  have hlt : n < 2 ^ w := Nat.lt_of_lt_of_le h (Nat.pow_le_pow_right (by decide) (Nat.sub_le w 1))
  have hmsb : (BitVec.ofNat w n).msb = false := by
    rw [BitVec.msb_eq_false_iff_two_mul_lt, BitVec.toNat_ofNat, Nat.mod_eq_of_lt hlt]
    cases w with
    | zero => omega
    | succ w =>
      rw [Nat.add_sub_cancel] at h
      omega
  rw [BitVec.signExtend_eq_setWidth_of_msb_false hmsb, ← BitVec.ofNat_toNat, BitVec.toNat_ofNat,
    Nat.mod_eq_of_lt hlt]

/-- The updates before cycle `u` are in the register, and those from there on in the delta. -/
structure Holds (i : Nat → CntrIn p) (old : BitVec 32) (s : CntrRegs p) (a t u : Nat) : Prop where
  le : u ≤ t
  turn : t + s.ahead a ≤ u + p.numRegsUsed
  regFile : s.regFile a = old + BitVec.ofNat 32 (total i a u)
  delta : s.deltas a = BitVec.ofNat p.deltaWidth (total i a t - total i a u)

section Run

variable {i : Nat → CntrIn p} {a : Nat} (ha : p.regStartAddr ≤ a ∧ a < p.regEndAddr)
  (hroom : ∀ t, total i a (t + p.numRegsUsed) < total i a t + 2 ^ (p.deltaWidth - 1))

include hroom in
theorem Holds.counter_eq {old : BitVec 32} {t u : Nat} (h : Holds i old s a t u) :
    s.counter a = old + BitVec.ofNat 32 (total i a t) := by
  have hu := total_mono i a h.le
  have ht : total i a t ≤ total i a (u + p.numRegsUsed) :=
    total_mono i a (Nat.le_trans (Nat.le_add_right _ _) h.turn)
  have hfits := hroom u
  rw [counter, h.regFile, h.delta, signExtend_ofNat (by omega), BitVec.add_assoc,
    ← BitVec.ofNat_add, Nat.add_sub_cancel' hu]

include ha hroom

/-- The step: the delta is added when the turn of its counter comes, and has the updates since. -/
theorem Holds.succ {old : BitVec 32} {t u : Nat} (h : Holds i old s a t u) (hs : s.Sweeping)
    (hi : Adds (i t)) : ∃ u, Holds i old (s.step (i t)) a (t + 1) u := by
  obtain ⟨hs', hnext, hfile, hdeltas⟩ := hs.succ hi
  have hnow := hs.inside
  have hthen := hs'.inside
  have hend : p.regEndAddr = p.regStartAddr + p.numRegsUsed := rfl
  have hu := total_mono i a h.le
  have hturn := h.turn
  rw [ahead] at hturn
  rw [CntrParams.regCntNxt] at hnext
  by_cases hcomes : a = s.regCntD1
  · refine ⟨t, Nat.le_succ t, ?_, ?_, ?_⟩
    · rw [ahead]
      split <;> omega
    · rw [hfile, ← hcomes, Function.update_self]
      exact h.counter_eq hroom
    · rw [hdeltas, if_pos hcomes, total, Nat.add_sub_cancel_left, BitVec.ofNat_toNat]
      exact BitVec.zero_add _
  · refine ⟨u, Nat.le_succ_of_le h.le, ?_, ?_, ?_⟩
    · rw [ahead]
      split at hnext <;> split at hturn <;> split <;> omega
    · rw [hfile, Function.update_of_ne hcomes]
      exact h.regFile
    · rw [hdeltas, if_neg hcomes, h.delta, total, Nat.sub_add_comm hu, BitVec.ofNat_add,
        BitVec.ofNat_toNat]

/-- A whole run: register and delta have all updates. -/
theorem counter_run {c : Nat → CntrRegs p} (hstart : (c 0).Settled)
    (hstep : ∀ t, c (t + 1) = (c t).step (i t)) (hi : ∀ t, Adds (i t)) (t : Nat) :
    (c t).counter a = (c 0).counter a + BitVec.ofNat 32 (total i a t) := by
  have h0 : Holds i ((c 0).regFile a) (c 0) a 0 0 := by
    have hinside := hstart.inside
    have hend : p.regEndAddr = p.regStartAddr + p.numRegsUsed := rfl
    refine ⟨Nat.le_refl 0, ?_, (BitVec.add_zero _).symm, hstart.deltas a⟩
    rw [ahead]
    split <;> omega
  have hrun : (c t).Sweeping ∧ ∃ u, Holds i ((c 0).regFile a) (c t) a t u := by
    induction t with
    | zero => exact ⟨hstart.toSweeping, 0, h0⟩
    | succ t ih =>
      obtain ⟨hs, u, hu⟩ := ih
      rw [hstep t]
      exact ⟨(hs.succ (hi t)).1, hu.succ ha hroom hs (hi t)⟩
  obtain ⟨-, u, hu⟩ := hrun
  rw [hu.counter_eq hroom, h0.counter_eq hroom, total, BitVec.add_zero]

end Run

end CntrRegs

end Sdpa.Hardware
