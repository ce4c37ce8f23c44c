import Mathlib.Algebra.GroupWithZero.Nat
import Sdpa.Hardware.LookupPath

/-!
# The counters of the flow table

In state `WRITE_REPLACEMENTS`, in which it waits for `out_rdy`, `opl_processor` says
with `wildcard_wins` that its packet is counted, and `wildcard_match` takes the size
and the line of a packet out of their FIFOs. So a packet that waits is counted again
in every cycle, with what the FIFOs show of the packets after it. `wildcard_lose` does
not reach `wildcard_match`: for a packet with no action flag both stay in the FIFOs.

Requests to the counters are left out: a read may cost them updates.
-/
namespace Sdpa.Hardware

open Lib.Clocked Lib.Fallthrough Lib.Frames

namespace WildcardMatch

/-- No packet waits to be counted. -/
structure Counted (s : WildcardMatch) : Prop where
  pktSizeFifo : s.pktSizeFifo.Vacant
  addressFifo : s.addressFifo.Vacant
  genericCntrRegs : s.genericCntrRegs.Settled

theorem counted_start (lut : Nat → Entry 248 320) : (start lut).Counted :=
  ⟨⟨rfl, rfl, rfl⟩, ⟨rfl, rfl, rfl⟩, CntrRegs.settled_start (by decide)⟩

variable (i : MatchIn) (s : WildcardMatch)

theorem updates_byteAddr {n : Nat} (hn : n < openflowWildcardTableSize) :
    (cntrIn i s).updates (byteAddr n) = wildcardEntryHitByteSizeWord i s n := by
  show counterUpdates i s (byteAddr n - cntrParams.regStartAddr) = _
  rw [byteAddr, Nat.add_sub_cancel_left, counterUpdates, if_pos hn]

theorem updates_packetAddr (n : Nat) :
    (cntrIn i s).updates (packetAddr n) = if wildcardHitAddressDecoded i s n then 1 else 0 := by
  show counterUpdates i s (packetAddr n - cntrParams.regStartAddr) = _
  rw [packetAddr, Nat.add_sub_cancel_left, counterUpdates, Nat.add_sub_cancel_left,
    if_neg (Nat.not_lt.mpr (Nat.le_add_right _ _))]
  rfl

theorem cntr_inside {k : Nat} (hk : k < 64) :
    cntrParams.regStartAddr ≤ cntrParams.regStartAddr + k ∧
      cntrParams.regStartAddr + k < cntrParams.regEndAddr :=
  ⟨Nat.le_add_right _ _, Nat.add_lt_add_left hk _⟩

/-- Only a packet that wins is counted. -/
theorem updates_of_not_wins (h : i.wildcardWins = false) (a : Nat) :
    (cntrIn i s).updates a = 0 := by
  show counterUpdates i s _ = 0
  simp [counterUpdates, wildcardEntryHitByteSizeWord, wildcardHitAddressDecoded, h]

end WildcardMatch

namespace Offered

open OutputPortLookup WildcardMatch

section Counters

variable (i : Nat → PathIn) (s : Nat → OutputPortLookup)

/-- The wires of `wildcard_match`. -/
def matchIns (t : Nat) : MatchIn := StateLookup.matchIn (lookups i s t) (s t).lookup

/-- The cycles in which `opl_processor` says whether its packet is counted. -/
def indicated (t : Nat) : Bool :=
  (s t).oplProcessor.wildcardWins (opls i s t) || (s t).oplProcessor.wildcardLose (opls i s t)

/-- The cycles in which a size and a line are taken out of their FIFOs. -/
def popped (t : Nat) : Bool := WildcardMatch.fifoRdEn (matchIns i s t)

/-- The wires of the counters. -/
def cntrIns (t : Nat) : CntrIn cntrParams :=
  cntrIn (matchIns i s t) (s t).lookup.wildcardMatch

/-- The packets and the bytes of line `n`. -/
def packetCounter (n t : Nat) : BitVec 32 :=
  (s t).lookup.wildcardMatch.genericCntrRegs.counter (packetAddr n)

def byteCounter (n t : Nat) : BitVec 32 :=
  (s t).lookup.wildcardMatch.genericCntrRegs.counter (byteAddr n)

/-- No request on the bus is for a counter. -/
def Unasked : Prop := ∀ t, cntrParams.reqGood (cntrIns i s t).regIn = false

/-- The packets that `opl_processor` has had before cycle `t`: the cycle of the flow entry, and
the one after that in which the result was taken. -/
def received (t : Nat) : List (Nat × Nat) := paired (entries i s) (ago 1 (taken i s)) t

/-- The line that the flow entry of cycle `F` hits. -/
def lineOf (F : Nat) : Option Nat :=
  LookupTable.find WildcardMatch.tableParams (s F).lookup.wildcardMatch.wildcardCamLutSm.lut
    (lookups i s F).flowEntry

/-- The action flag of a packet is not zero, and the packet hits line `n`. -/
def hitsLine (n : Nat) (x : Nat × Nat) : Bool :=
  (opls i s x.2).nf2ActionFlag ≠ 0 && lineOf i s x.1 == some n

/-- The packets of line `n` before cycle `t`, and their bytes. -/
def packetsOf (n t : Nat) : Nat := (received i s t).countP (hitsLine i s n)

def bytesOf (n t : Nat) : Nat :=
  (((received i s t).filter (hitsLine i s n)).map fun x => (lookups i s x.1).pktSize.toNat).sum

/-- Each packet is indicated in one cycle, taken out of the FIFOs once and counted once, with its
own size and for its own line. -/
structure CountedOnce : Prop where
  indicated : ∀ t, count (indicated i s) (t + 1) = count (taken i s) t
  popped : ∀ t, count (popped i s) (t + 1) = count (taken i s) t
  packets : ∀ n t, n < 32 →
    packetCounter s n t = packetCounter s n 0 + BitVec.ofNat 32 (packetsOf i s n t)
  bytes : ∀ n t, n < 32 →
    byteCounter s n t = byteCounter s n 0 + BitVec.ofNat 32 (bytesOf i s n t)

/-- No packet waits for `out_rdy`, `wildcard_loses` is high for the packets without an action flag
and in no state but `WRITE_REPLACEMENTS`, and the packets with one hit a line. -/
structure Countable : Prop where
  prompt : ∀ t, (s t).oplProcessor.state = .writeReplacements →
    (opls i s t).forwardBitmask ≠ 0 → (i t).outRdy = true
  flagged : ∀ t, (s t).oplProcessor.state = .writeReplacements →
    (opls i s t).nf2ActionFlag = 0 → (i t).wildcardLoses = true
  loses : ∀ t, (i t).wildcardLoses = true → (s t).oplProcessor.state = .writeReplacements
  found : ∀ t, ∀ x ∈ received i s t,
    (opls i s x.2).nf2ActionFlag ≠ 0 → (lineOf i s x.1).isSome = true

end Counters

variable {p : ProcParams} {pkts : Nat → Packet} {i : Nat → PathIn} {s : Nat → OutputPortLookup}
  (h : Offered p pkts i s)

include h

theorem pktSizeFifo (t : Nat) : (s (t + 1)).lookup.wildcardMatch.pktSizeFifo =
    (s t).lookup.wildcardMatch.pktSizeFifo.step false (lookups i s t).pktSize (entries i s t)
      (popped i s t) := by
  rw [h.follows t, ← h.reset t]
  rfl

theorem addressFifo (t : Nat) : (s (t + 1)).lookup.wildcardMatch.addressFifo =
    (s t).lookup.wildcardMatch.addressFifo.step false
      (s t).lookup.wildcardMatch.wildcardCamLutSm.pipe.lookupAddress (ago 4 (entries i s) t)
      (popped i s t) := by
  have hvld : (s t).lookup.wildcardMatch.wildcardDataVld = ago 4 (entries i s) t :=
    h.fed.wildcardDataVld t
  rw [h.follows t, ← h.reset t, ← hvld]
  rfl

/-! ## The indication -/

omit h in
theorem indicated_eq (t : Nat) :
    indicated i s t = decide ((s t).oplProcessor.state = .writeReplacements) :=
  OplProcessor.wins_or_lose _ _

/-- Packets are indicated in the cycle after their results were taken, and only there, if none
waits. -/
theorem indicated_iff : indicated i s = ago 1 (taken i s) ↔
    ∀ t, (s t).oplProcessor.state = .writeReplacements →
      (opls i s t).forwardBitmask ≠ 0 → (i t).outRdy = true := by
  have hstep : ∀ t, (s (t + 1)).oplProcessor = (s t).oplProcessor.step (opls i s t) := h.opl
  constructor
  · intro hind t hstate hports
    by_contra hrdy
    rw [Bool.not_eq_true] at hrdy
    have hagain := OplProcessor.state_of_waits (h.reset t) hstate hports hrdy
    have htaken : taken i s t = false := OplProcessor.resultFifoRdEn_of_not_finished _ _
      (OplProcessor.finished_of_state _ _ hstate)
    have hnext := congrFun hind (t + 1)
    rw [indicated_eq, hstep t, decide_eq_true hagain, ago_succ_succ, ago_zero, htaken] at hnext
    cases hnext
  · intro hprompt
    refine funext (eq_ago_succ ?_ fun t => ?_)
    · rw [indicated_eq, h.idle.opl]
      rfl
    · rw [indicated_eq, hstep t, ago_zero]
      exact OplProcessor.state_eq_resultFifoRdEn (h.reset t) (hprompt t)

omit h in
theorem popped_eq (t : Nat) : popped i s t =
    ((s t).oplProcessor.wildcardWins (opls i s t) || (i t).wildcardLoses) := rfl

omit h in
/-- The FIFOs are read with the indication if `wildcard_loses` is what `wildcard_lose` says. -/
theorem popped_iff : popped i s = indicated i s ↔
    (∀ t, (s t).oplProcessor.state = .writeReplacements →
      (opls i s t).nf2ActionFlag = 0 → (i t).wildcardLoses = true) ∧
    ∀ t, (i t).wildcardLoses = true → (s t).oplProcessor.state = .writeReplacements := by
  constructor
  · intro hpop
    refine ⟨fun t hstate hflag => ?_, fun t hloses => ?_⟩
    · have hnow := congrFun hpop t
      rw [popped_eq, indicated_eq, OplProcessor.wildcardWins, decide_eq_true hstate,
        decide_eq_false (not_not_intro hflag)] at hnow
      exact hnow
    · have hnow := congrFun hpop t
      rw [popped_eq, indicated_eq, hloses, Bool.or_true] at hnow
      exact of_decide_eq_true hnow.symm
  · rintro ⟨hflagged, hloses⟩
    funext t
    rw [popped_eq, indicated_eq, OplProcessor.wildcardWins]
    by_cases hstate : (s t).oplProcessor.state = .writeReplacements
    · rw [decide_eq_true hstate, Bool.true_and]
      by_cases hflag : (opls i s t).nf2ActionFlag = 0
      · rw [hflagged t hstate hflag, Bool.or_true]
      · rw [decide_eq_true hflag, Bool.true_or]
    · have hlow : (i t).wildcardLoses = false := by
        rw [← Bool.not_eq_true]
        exact fun hhigh => hstate (hloses t hhigh)
      rw [decide_eq_false hstate, hlow]
      rfl

omit h in
theorem wins_eq (hind : indicated i s = ago 1 (taken i s)) (t : Nat) :
    (matchIns i s t).wildcardWins =
      (ago 1 (taken i s) t && decide ((opls i s t).nf2ActionFlag ≠ 0)) := by
  rw [← (indicated_eq t).symm.trans (congrFun hind t)]
  rfl

/-! ## Sizes and lines -/

variable (hample : Ample pkts)

include hample

/-- Lines are there before their packets are begun. -/
theorem lineOnDemand : OnDemand (ago 4 (entries i s)) (ago 1 (taken i s)) := by
  refine onDemand_iff.mpr fun t ht => ?_
  obtain ⟨u, rfl, hu⟩ := ago_iff.mp ht
  obtain ⟨T, hTu, hT, -⟩ := (h.oneResult hample.inside (h.neverFull hample)).received u hu
  have hwritten := (hT.lt_iff u).mpr hTu
  have hmono : count (written s) u ≤ count (written s) (u + 1) := count_mono _ (Nat.le_succ u)
  have hbegun := h.count_written_le u
  have hentry := (h.counts hample u).2
  rw [count_ago 1, Nat.add_sub_cancel]
  omega

/-- There is room for the size of a packet, and for its line. -/
theorem count_entries_le_ago (t : Nat) :
    count (entries i s) t ≤ count (ago 1 (taken i s)) t + 2 ^ 3 := by
  cases t with
  | zero => simp
  | succ t =>
    rw [count_ago, Nat.add_sub_cancel]
    exact h.count_entries_le hample t

variable (hpop : popped i s = ago 1 (taken i s)) (hcounted : (s 0).lookup.wildcardMatch.Counted)

include hpop hcounted

/-- What the FIFOs show when a packet is begun is its size and its line. -/
theorem shown_of_begun {t : Nat} (ht : ago 1 (taken i s) t = true) :
    ∃ F, F < t ∧ IsNth (entries i s) (count (ago 1 (taken i s)) t) F ∧
      (s t).lookup.wildcardMatch.pktSizeFifo.dout = (lookups i s F).pktSize ∧
      (s t).lookup.wildcardMatch.addressFifo.dout =
        (s (F + 4)).lookup.wildcardMatch.wildcardCamLutSm.pipe.lookupAddress := by
  have hdemand := h.lineOnDemand hample
  have hsize := h.pktSizeFifo
  have hline := h.addressFifo
  rw [hpop] at hsize hline
  obtain ⟨G, hGt, hG⟩ := written_of_read hdemand ht
  obtain ⟨F, rfl, hF⟩ := hG.of_ago
  refine ⟨F, by omega, hF, ?_, ?_⟩
  · have hroom := FallthroughSmallFifo.roomy_of_onDemand (Nat.succ_pos 2) hdemand.of_ago
      (fun u _ => h.count_entries_le_ago hample u) t
    exact FallthroughSmallFifo.dout_of_demand
      (f := fun t => (s t).lookup.wildcardMatch.pktSizeFifo) hsize hcounted.pktSizeFifo hroom
      hdemand.of_ago ht hF
  · have hlines : ∀ u, count (ago 4 (entries i s)) u ≤ count (ago 1 (taken i s)) u + 2 ^ 3 := by
      intro u
      rw [count_ago 4]
      exact Nat.le_trans (count_mono _ (Nat.sub_le u 4)) (h.count_entries_le_ago hample u)
    have hroom := FallthroughSmallFifo.roomy_of_onDemand (Nat.succ_pos 2) hdemand
      (fun u _ => hlines u) t
    exact FallthroughSmallFifo.dout_of_demand
      (f := fun t => (s t).lookup.wildcardMatch.addressFifo) hline hcounted.addressFifo hroom
      hdemand ht hG

/-! ## The counters -/

omit hpop hcounted in
/-- No more than nine packets are taken in a round of the counters. -/
theorem count_taken_round (t : Nat) : count (taken i s) (t + 64) ≤ count (taken i s) t + 9 := by
  by_contra hmore
  obtain ⟨v, hv, hnth⟩ := exists_nth (Nat.lt_of_not_le hmore)
  have hread := h.count_rd_of_taken hnth.pulse
  have hmono : count (rd i s) (v + 1) ≤ count (rd i s) (t + 64) := count_mono _ hv
  have hround := count_le_add_sub (rd i s) (Nat.le_add_right t 64)
  have hbefore := h.count_rd_le t
  have hroom := hample.room (count (taken i s) t)
  have hinside := hample.inside (count (taken i s) t + 8)
  rw [hnth.before, start_succ, lengths, Packet.length_words] at hread
  rw [entryAt] at hroom
  rw [Packet.HeaderInside] at hinside
  omega

/-- One cycle: nothing is counted, or a packet of which the line that was found is known. -/
inductive Counts (i : Nat → PathIn) (s : Nat → OutputPortLookup) (t : Nat) : Prop
  | none (same : received i s (t + 1) = received i s t)
      (hits : ∀ n, wildcardHitAddressDecoded (matchIns i s t)
        (s t).lookup.wildcardMatch n = false)
  | one (F : Nat) (more : received i s (t + 1) = received i s t ++ [(F, t)])
      (size : (s t).lookup.wildcardMatch.pktSizeFifo.dout = (lookups i s F).pktSize)
      (m : Nat) (lt : m < 32) (line : ∀ n, lineOf i s F = some n → m = n)
      (hits : ∀ n, wildcardHitAddressDecoded (matchIns i s t)
        (s t).lookup.wildcardMatch n = (decide ((opls i s t).nf2ActionFlag ≠ 0) && m == n))

theorem counts_step (hind : indicated i s = ago 1 (taken i s)) (t : Nat) : Counts i s t := by
  have hdemand := h.lineOnDemand hample
  have hwins := wins_eq hind t
  cases ht : ago 1 (taken i s) t with
  | false =>
    have hle := Nat.le_trans (count_read_le hdemand.of_ago t) (count_mono _ (Nat.sub_le t 1))
    refine .none (paired_succ_of_low hle ht) fun n => ?_
    rw [wildcardHitAddressDecoded, hwins, ht, Bool.false_and, Bool.false_and]
  | true =>
    obtain ⟨F, hFt, hF, hsize, hline⟩ := h.shown_of_begun hample hpop hcounted ht
    refine .one F (paired_succ hF hFt ht) hsize
      ((s t).lookup.wildcardMatch.addressFifo.dout % WildcardMatch.openflowWildcardTableSize)
      (Nat.mod_lt _ (by decide)) (fun n hn => ?_) fun n => ?_
    · rw [hline, (h.fed.serves.answer_of_find (t := F) hF.pulse hn).2.1]
      rw [lineOf, LookupTable.find] at hn
      exact Nat.mod_eq_of_lt (List.mem_range.mp (List.mem_of_find?_eq_some hn))
    · rw [wildcardHitAddressDecoded, hwins, ht, Bool.true_and]

/-- The updates are those of the packets received, if those with an action flag hit a line. -/
theorem totals_of_found (hind : indicated i s = ago 1 (taken i s))
    (hfound : ∀ t, ∀ x ∈ received i s t,
      (opls i s x.2).nf2ActionFlag ≠ 0 → (lineOf i s x.1).isSome = true) {n : Nat} (hn : n < 32)
    (t : Nat) :
    CntrRegs.total (cntrIns i s) (packetAddr n) t = packetsOf i s n t ∧
      CntrRegs.total (cntrIns i s) (byteAddr n) t = bytesOf i s n t := by
  induction t with
  | zero => exact ⟨rfl, rfl⟩
  | succ t ih =>
    obtain ⟨hpackets, hbytes⟩ := ih
    rw [CntrRegs.total, CntrRegs.total, hpackets, hbytes, cntrIns,
      updates_packetAddr, updates_byteAddr _ _ hn,
      wildcardEntryHitByteSizeWord, packetsOf, packetsOf, bytesOf, bytesOf]
    cases h.counts_step hample hpop hcounted hind t with
    | none same hits =>
      rw [same, hits n]
      exact ⟨rfl, rfl⟩
    | one F more size m lt line hits =>
      have hmem : (F, t) ∈ received i s (t + 1) := by
        rw [more]
        exact List.mem_append_right _ (List.mem_singleton_self _)
      have hnew : (decide ((opls i s t).nf2ActionFlag ≠ 0) && m == n) = hitsLine i s n (F, t) := by
        by_cases hflag : (opls i s t).nf2ActionFlag = 0
        · rw [hitsLine, decide_eq_false (not_not_intro hflag), Bool.false_and, Bool.false_and]
        · obtain ⟨l, hl⟩ := Option.isSome_iff_exists.mp (hfound _ _ hmem hflag)
          rw [hitsLine, hl, line l hl]
          rfl
      rw [more, hits n, hnew, size, List.countP_append, List.countP_singleton, List.filter_append,
        List.filter_singleton, List.map_append, List.sum_append]
      cases hitsLine i s n (F, t) with
      | false => exact ⟨rfl, rfl⟩
      | true => exact ⟨rfl, rfl⟩

omit hpop hcounted in
/-- The deltas are wide enough: nine packets have less than `9 * 2 ^ 12` bytes. -/
theorem total_round (hind : indicated i s = ago 1 (taken i s)) (a t : Nat) :
    CntrRegs.total (cntrIns i s) a (t + 64) < CntrRegs.total (cntrIns i s) a t + 2 ^ 16 := by
  have hsum : ∀ d, CntrRegs.total (cntrIns i s) a (t + d) + 4095 * count (ago 1 (taken i s)) t ≤
      CntrRegs.total (cntrIns i s) a t + 4095 * count (ago 1 (taken i s)) (t + d) := by
    intro d
    induction d with
    | zero => exact Nat.le_refl _
    | succ d ih =>
      rw [← Nat.add_assoc, CntrRegs.total, count_succ]
      cases hbegun : ago 1 (taken i s) (t + d) with
      | false =>
        have hwins := wins_eq hind (t + d)
        rw [hbegun, Bool.false_and] at hwins
        rw [cntrIns, updates_of_not_wins _ _ hwins]
        exact ih
      | true =>
        have hlt : ((cntrIns i s (t + d)).updates a).toNat < 4096 := BitVec.isLt _
        rw [if_pos rfl]
        omega
  have hall := hsum 64
  have hround := h.count_taken_round hample (t - 1)
  have hmono : count (taken i s) (t + 64 - 1) ≤ count (taken i s) (t - 1 + 64) :=
    count_mono _ (by omega)
  rw [count_ago, count_ago] at hall
  omega

omit hpop in
/-- A counter is what it was and its updates. -/
theorem counter_eq (hind : indicated i s = ago 1 (taken i s)) (hunasked : Unasked i s) {a : Nat}
    (ha : cntrParams.regStartAddr ≤ a ∧ a < cntrParams.regEndAddr)
    (t : Nat) : (s t).lookup.wildcardMatch.genericCntrRegs.counter a =
      (s 0).lookup.wildcardMatch.genericCntrRegs.counter a +
        BitVec.ofNat 32 (CntrRegs.total (cntrIns i s) a t) := by
  have hwidth : cntrParams.deltaWidth - 1 = 16 := by decide +kernel
  refine CntrRegs.counter_run (c := fun u => (s u).lookup.wildcardMatch.genericCntrRegs) ha
    (fun u => ?_) hcounted.genericCntrRegs (fun u => ?_)
    (fun u => ⟨h.reset u, hunasked u, fun _ => rfl⟩) t
  · rw [hwidth]
    exact h.total_round hample hind a u
  · rw [h.follows u]
    rfl

/-- A packet with an action flag that hits no line is counted for one. -/
theorem found_of_packets (hind : indicated i s = ago 1 (taken i s)) (hunasked : Unasked i s)
    (hpackets : ∀ n t, n < 32 →
      packetCounter s n t = packetCounter s n 0 + BitVec.ofNat 32 (packetsOf i s n t)) (t : Nat) :
    ∀ x ∈ received i s t,
      (opls i s x.2).nf2ActionFlag ≠ 0 → (lineOf i s x.1).isSome = true := by
  induction t with
  | zero => exact fun x hx => by cases hx
  | succ t ih =>
    intro x hx hflag
    cases h.counts_step hample hpop hcounted hind t with
    | none same => exact ih x (same ▸ hx) hflag
    | one F more size m lt line hits =>
      rw [more] at hx
      rcases List.mem_append.mp hx with hold | hnew
      · exact ih x hold hflag
      obtain rfl := List.mem_singleton.mp hnew
      have hsame : ∀ u, BitVec.ofNat 32 (CntrRegs.total (cntrIns i s) (packetAddr m) u) =
          BitVec.ofNat 32 (packetsOf i s m u) := fun u => (BitVec.add_right_inj _).mp
        ((h.counter_eq hample hcounted hind hunasked
          (cntr_inside (Nat.add_lt_add_left lt 32)) u).symm.trans (hpackets m u lt))
      have hcount := hsame (t + 1)
      rw [CntrRegs.total, cntrIns, updates_packetAddr, hits m, decide_eq_true hflag, Bool.true_and,
        beq_self_eq_true, if_pos rfl, BitVec.ofNat_add, hsame t, packetsOf, packetsOf, more,
        List.countP_append, List.countP_singleton] at hcount
      have hhits : hitsLine i s m (F, t) = true := by
        by_contra hno
        rw [if_neg hno, BitVec.ofNat_add, BitVec.add_right_inj] at hcount
        exact absurd hcount (by decide)
      rw [hitsLine, Bool.and_eq_true, beq_iff_eq] at hhits
      exact Option.isSome_iff_exists.mpr ⟨m, hhits.2⟩

end Offered

/-- Packets are counted once exactly if none waits, each one with an action flag hits a line and
`wildcard_loses` is high for those without. -/
theorem Offered.countedOnce_iff {p : ProcParams} {pkts : Nat → Packet} {i : Nat → PathIn}
    {s : Nat → OutputPortLookup} (h : Offered p pkts i s) (hample : Ample pkts)
    (hcounted : (s 0).lookup.wildcardMatch.Counted) (hunasked : Unasked i s) :
    CountedOnce i s ↔ Countable i s := by
  constructor
  · intro hone
    have hind := count_succ_eq_iff.mp hone.indicated
    have hpop := count_succ_eq_iff.mp hone.popped
    obtain ⟨hflagged, hloses⟩ := popped_iff.mp (hpop.trans hind.symm)
    exact ⟨h.indicated_iff.mp hind, hflagged, hloses,
      h.found_of_packets hample hpop hcounted hind hunasked hone.packets⟩
  · intro hcount
    have hind := h.indicated_iff.mpr hcount.prompt
    have hpop := (popped_iff.mpr ⟨hcount.flagged, hcount.loses⟩).trans hind
    refine ⟨count_succ_eq_iff.mpr hind, count_succ_eq_iff.mpr hpop, fun n t hn => ?_,
      fun n t hn => ?_⟩
    · rw [← (h.totals_of_found hample hpop hcounted hind hcount.found hn t).1]
      exact h.counter_eq hample hcounted hind hunasked
        (WildcardMatch.cntr_inside (Nat.add_lt_add_left hn 32)) t
    · rw [← (h.totals_of_found hample hpop hcounted hind hcount.found hn t).2]
      exact h.counter_eq hample hcounted hind hunasked
        (WildcardMatch.cntr_inside (hn.trans (by decide))) t

/-- An idle bus has no request for a counter. -/
theorem OutputPortLookup.unasked_forwarding (pk : Packet) (q outRdy : Nat → Bool) :
    Offered.Unasked (offer pk q outRdy)
      (run (step StateProcessor.params) forwarding (offer pk q outRdy)) := by
  have hidle (t : Nat) : let s := run (step StateProcessor.params) forwarding (offer pk q outRdy)
      (s t).headerParser.regOut.req = false ∧
        (s t).lookup.wildcardMatch.wildcardCamLutSm.regs.regState = .waitForRequest ∧
        (s t).lookup.wildcardMatch.wildcardCamLutSm.regs.regOut.req = false := by
    induction t with
    | zero => exact ⟨rfl, rfl, rfl⟩
    | succ t ih =>
      obtain ⟨hstate, hout⟩ := LookupTable.stepRegs_of_idle (p := WildcardMatch.tableParams)
        (i := WildcardMatch.tableIn (Offered.matchIns (offer pk q outRdy) _ t)) rfl ih.2.1 ih.1
      refine ⟨?_, hstate, (congrArg RegBus.req hout).trans ih.1⟩
      show (HeaderParser.stepRegOut (parserIn (offer pk q outRdy t)) _).req = false
      simp [HeaderParser.stepRegOut, HeaderParser.selected, parserIn, offer]
  intro t
  rw [CntrParams.reqGood, Offered.cntrIns, WildcardMatch.cntrIn, (hidle t).2.2, Bool.and_false]

/-- Three packets of 32 words to a next stage that is ready. -/
theorem counted_of_udpPackets :
    let i := OutputPortLookup.offer (udpPacket 23) (burst 96) fun _ => true
    let s := run (OutputPortLookup.step StateProcessor.params) OutputPortLookup.forwarding i
    Offered StateProcessor.params (fun _ => udpPacket 23) i s ∧
      Offered.Ample (fun _ => udpPacket 23) ∧ (s 0).lookup.wildcardMatch.Counted ∧
      Offered.Unasked i s ∧ Offered.Countable i s ∧ Offered.CountedOnce i s := by
  intro i s
  have h : Offered StateProcessor.params (fun _ => udpPacket 23) i s :=
    OutputPortLookup.offered_forwarding _ _ (by decide)
  have hcounted : (s 0).lookup.wildcardMatch.Counted := WildcardMatch.counted_start _
  have hunasked : Offered.Unasked i s := OutputPortLookup.unasked_forwarding _ _ _
  have hfull := h.neverFull ample_udpPacket
  have hcount : Offered.Countable i s := by
    refine ⟨fun _ _ _ => rfl, fun t ht hflag => ?_, fun _ hloses => (by cases hloses),
      fun t x _ _ => ?_⟩
    · -- The result is the action of the lines, whose flag is one.
      have hbegun := congrFun (h.indicated_iff.mpr fun _ _ _ => rfl) t
      rw [Offered.indicated_eq, decide_eq_true ht] at hbegun
      obtain ⟨u, rfl, hu⟩ := ago_iff.mp hbegun.symm
      obtain ⟨T, -, hT, hdout⟩ := (h.oneResult ample_udpPacket.inside hfull).received u hu
      have hresult := OutputPortLookup.resultWord_forwarding (by decide : 3 ≤ 23) (by decide) _
        hfull T hT.pulse
      rw [OplIn.nf2ActionFlag, Offered.opls, OutputPortLookup.oplIn, hdout, hresult] at hflag
      exact absurd hflag (by decide +kernel)
    · rw [Offered.lineOf, OutputPortLookup.lut_forwarding _ _ (by decide) x.1,
        OutputPortLookup.find_forwardAll]
      rfl
  exact ⟨h, ample_udpPacket, hcounted, hunasked, hcount,
    (h.countedOnce_iff ample_udpPacket hcounted hunasked).mpr hcount⟩

/-- One packet of 32 words, to a next stage that is never ready: it is counted in cycle after
cycle. -/
theorem waiting_packet_counted_again :
    let i := OutputPortLookup.offer (udpPacket 23) (burst 32) fun _ => false
    let s := run (OutputPortLookup.step StateProcessor.params) OutputPortLookup.forwarding i
    Offered StateProcessor.params (fun _ => udpPacket 23) i s ∧
      Offered.Ample (fun _ => udpPacket 23) ∧ (s 0).lookup.wildcardMatch.Counted ∧
      Offered.Unasked i s ∧ (Offered.received i s 70).length = 1 ∧
      Offered.packetCounter s 0 0 = 0 ∧ Offered.packetCounter s 0 70 = 12 ∧
      ¬ Offered.CountedOnce i s := by
  intro i s
  have hone : (Offered.received i s 70).length = 1 := by decide +kernel
  have htwelve : Offered.packetCounter s 0 70 = 12 := by decide +kernel
  refine ⟨OutputPortLookup.offered_forwarding _ _ (by decide), ample_udpPacket,
    WildcardMatch.counted_start _, OutputPortLookup.unasked_forwarding _ _ _, hone, rfl, htwelve,
    fun hcounted => ?_⟩
  have hpackets := hcounted.packets 0 70 (by decide)
  have hle : Offered.packetsOf i s 0 70 ≤ 1 := hone ▸ List.countP_le_length
  rw [htwelve] at hpackets
  rcases Nat.le_one_iff_eq_zero_or_eq_one.mp hle with hnone | hsome
  · rw [hnone] at hpackets
    exact absurd hpackets (by decide +kernel)
  · rw [hsome] at hpackets
    exact absurd hpackets (by decide +kernel)

end Sdpa.Hardware
