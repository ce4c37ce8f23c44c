import Sdpa.Hardware.LookupPath
import Sdpa.Hardware.OplOutput

/-!
# What leaves the lookup path

The whole of `output_port_lookup`: the packets wait in the input FIFO, their flow entries go
through the flow table and the three applications, and `opl_processor` takes a result and the
words of a packet and sends the packet on. What leaves are the packets in their order, each
as the action has it that the applications would have computed for it if the packets had come
one at a time.
-/
namespace Sdpa.Hardware.Offered

open OutputPortLookup Lib.Clocked Lib.Fallthrough Lib.Frames Lib.Streams

/-- The output is always ready, and the rest of a packet does not come later than its result: the
last word is written at most 49 cycles after the flow entry. -/
structure Brisk (pkts : Nat → Packet) (i : Nat → PathIn) : Prop where
  outRdy : ∀ t, (i t).outRdy = true
  words : ∀ t k, entryAt pkts k < count (wr i) t →
    Lib.Frames.start (lengths pkts) (k + 1) ≤ count (wr i) (t + 49)

/-- Both state machines of `opl_processor`. -/
def oplOf (s : Nat → OutputPortLookup) (post : Nat → OplRewriter) (t : Nat) : Opl :=
  ⟨(s t).oplProcessor, post t⟩

/-- The lookup path with the second state machine of `opl_processor`, in which nothing is under
way at first. -/
structure Rewriting (i : Nat → PathIn) (s : Nat → OutputPortLookup) (post : Nat → OplRewriter) :
    Prop where
  follows : ∀ t, post (t + 1) = (post t).step (opls i s t) (s t).oplProcessor
  quiet : Quiet (s 0).oplProcessor
  outWr : (s 0).oplProcessor.outWr = false

/-- The actions are what the applications compute for the flow entries when they are served one at
a time. -/
def Computes (p : ProcParams) (i : Nat → PathIn) (s : Nat → OutputPortLookup)
    (act : Nat → BitVec 320) : Prop :=
  ∀ k F, IsNth (entries i s) k F →
    act k = StateLookup.computed p (lookups i s) (fun t => (s t).lookup) F

variable {p : ProcParams} {pkts : Nat → Packet} {i : Nat → PathIn} {s : Nat → OutputPortLookup}
  {post : Nat → OplRewriter} {act : Nat → BitVec 320} (h : Offered p pkts i s)

include h

/-- The FIFO shows the result that was taken last. -/
theorem dout_of_taken (hone : OneResult pkts i s) {t k : Nat} (ht : count (taken i s) t = k + 1) :
    ∃ T, T + 1 < t ∧ IsNth (written s) k T ∧
      (s t).lookup.stateProcessor.resultFifo.dout = StateLookup.resultWord (s T).lookup := by
  induction t with
  | zero =>
    rw [count_zero] at ht
    omega
  | succ t ih =>
    rw [count_succ] at ht
    cases htaken : taken i s t with
    | true =>
      rw [htaken, if_pos rfl] at ht
      obtain ⟨T, hT, hnth, hdout⟩ := hone.received t htaken
      rw [Nat.add_right_cancel ht] at hnth
      exact ⟨T, by omega, hnth, hdout⟩
    | false =>
      rw [htaken, if_neg Bool.false_ne_true, Nat.add_zero] at ht
      obtain ⟨T, hT, hnth, hdout⟩ := ih ht
      refine ⟨T, by omega, hnth, ?_⟩
      rw [h.resultFifo t, htaken]
      exact hdout

section

variable (hin : ∀ k, (pkts k).HeaderInside) (hfull : NeverFull i s)
  (hapart : ∀ k, entryAt pkts k + 12 ≤ entryAt pkts (k + 1))
  (hreads : ∀ t, (i t).procRegIn.Reads)

include hin hfull hapart hreads

/-- The result of a packet comes 49 cycles after its flow entry. -/
theorem written_eq_ago_entries : written s = ago 49 (entries i s) := by
  have hlookups : StateLookup.Lookups p (lookups i s) fun t => (s t).lookup := ⟨h.fed, hreads⟩
  have hbegun : begun s = ago 6 (entries i s) :=
    hlookups.rd_eq_ago (noOverflow hfull) (h.vld_spaced hin hapart)
  rw [h.written_eq_ago, hbegun]
  exact funext (ago_ago 43 6 _)

/-- It is what is computed for it. -/
theorem resultWord_eq_computed {F : Nat} (hF : entries i s F = true) :
    (StateLookup.resultWord (s (F + 49)).lookup).2 =
      StateLookup.computed p (lookups i s) (fun t => (s t).lookup) F := by
  have hlookups : StateLookup.Lookups p (lookups i s) fun t => (s t).lookup := ⟨h.fed, hreads⟩
  exact hlookups.out_eq_computed (noOverflow hfull) (h.vld_spaced hin hapart) hF

/-- So `opl_processor` is fed with the packets and their actions. -/
theorem opl_fed (hpost : Rewriting i s post) (hact : Computes p i s act) :
    Opl.Fed pkts act (opls i s) (oplOf s post) where
  follows t := by
    rw [oplOf, hpost.follows t, show (s (t + 1)).oplProcessor = _ from h.opl t]
    rfl
  reset := h.reset
  state := h.idle.opl
  quiet := hpost.quiet
  outWr := hpost.outWr
  words := h.word_of_rd
  results t k hk := by
    obtain ⟨T, -, hnth, hdout⟩ := h.dout_of_taken (h.oneResult hin hfull) hk
    rw [h.written_eq_ago_entries hin hfull hapart hreads] at hnth
    obtain ⟨F, rfl, hF⟩ := hnth.of_ago
    rw [hact k F hF, ← h.resultWord_eq_computed hin hfull hapart hreads hF.pulse, ← hdout]
    rfl

/-- The words of a packet whose result was taken are there. -/
theorem words_there (hbrisk : Brisk pkts i) {t k : Nat} (ht : count (taken i s) t = k + 1) :
    Lib.Frames.start (lengths pkts) (k + 1) ≤ count (wr i) (t - 1) := by
  obtain ⟨T, hT, hnth, -⟩ := h.dout_of_taken (h.oneResult hin hfull) ht
  rw [h.written_eq_ago_entries hin hfull hapart hreads] at hnth
  obtain ⟨F, rfl, hF⟩ := hnth.of_ago
  have hentry := (h.lt_count_vld hin F k).mp ((hF.lt_iff _).mpr (Nat.lt_succ_self F))
  have hmono : count (wr i) (F + 49) ≤ count (wr i) (t - 1) := count_mono (wr i) (by omega)
  exact Nat.le_trans (hbrisk.words F k hentry) hmono

/-- The next word of a packet that is begun is there. -/
theorem inFifo_there (hbrisk : Brisk pkts i) {t k : Nat} (ht : count (taken i s) t = k + 1)
    (hread : count (rd i s) t < Lib.Frames.start (lengths pkts) (k + 1)) :
    (s t).inputFifo.empty = false := by
  have hshown : (s t).inputFifo.empty = decide (count (wr i) (t - 1) ≤ count (rd i s) t) := by
    rw [(h.inputShows t).empty]
    exact empty_stamps h.onDemand t
  have hthere := h.words_there hin hfull hapart hreads hbrisk ht
  rw [hshown]
  exact decide_eq_false (by omega)

/-- A packet that is begun is not held up. -/
theorem not_lost (hpost : Rewriting i s post) (hact : Computes p i s act) (hbrisk : Brisk pkts i)
    (t : Nat) : Opl.lost pkts act (opls i s) (oplOf s post) t = false := by
  have hfed := h.opl_fed hin hfull hapart hreads hpost hact
  refine Bool.eq_false_iff.mpr fun hlost => ?_
  rcases hfed.held_of_lost hlost with hrdy | ⟨hempty, k, htaken, hread⟩
  · exact Bool.false_ne_true (hrdy.symm.trans (hbrisk.outRdy t))
  · have hthere := h.inFifo_there hin hfull hapart hreads hbrisk htaken hread
    exact Bool.false_ne_true (hthere.symm.trans hempty)

omit hin hapart hreads in
/-- A result that is written and not taken is there. -/
theorem resultFifo_there {t : Nat} (ht : count (taken i s) t < count (written s) t) :
    (s t).lookup.stateProcessor.resultFifo.isEmpty = false := by
  obtain ⟨-, hholds⟩ := SmallFifo.holds_pulses
    (f := fun t => (s t).lookup.stateProcessor.resultFifo) h.resultFifo
    h.idle.stateProcessor.depth h.idle.stateProcessor.ptr resultFifo_of_taken
    (t := t) fun u _ => h.result_room hfull u
  rw [hholds.isEmpty, Bool.eq_false_iff, ne_eq, List.isEmpty_iff_length_eq_zero, List.length_map,
    List.length_drop, length_pulses]
  omega

/-- The processor gets what it waits for until all stored packets are done. -/
theorem awaited_of_stored (hpost : Rewriting i s post) (hact : Computes p i s act)
    (hbrisk : Brisk pkts i) {t₀ n : Nat}
    (hstored : Lib.Frames.start (lengths pkts) n ≤ count (wr i) t₀) {t k q : Nat} {ow : List Word}
    (hat : Opl.Stands pkts act (opls i s) (oplOf s post) t k q ow) (hk : k < n) :
    ∃ u, t ≤ u ∧ Opl.awaited (opls i s u) (oplOf s post u).proc = true := by
  have hfed := h.opl_fed hin hfull hapart hreads hpost hact
  cases hat.pos with
  | waits state pos quiet read pushed taken =>
    by_contra hnone
    have hnot : ∀ u, t ≤ u → Opl.awaited (opls i s u) (oplOf s post u).proc = false :=
      fun u htu => Bool.eq_false_iff.mpr fun hu => hnone ⟨u, htu, hu⟩
    -- It waits for ever, and the FIFO is empty all the time.
    have hempty : ∀ u, t ≤ u → (opls i s u).resultFifoEmpty = true := by
      intro u htu
      have hlow := hnot u htu
      rw [Opl.awaited, hfed.state_eq_of_not_awaited hnot htu, state] at hlow
      rwa [Bool.not_eq_false'] at hlow
    obtain ⟨T, hT⟩ := (h.oneResult hin hfull).stored k t₀
      (Nat.le_trans (start_mono _ (show k + 1 ≤ n from hk)) hstored)
    have hsame : count (Offered.taken i s) (max t (T + 1)) = count (Offered.taken i s) t := by
      refine count_eq_of_low (Nat.le_max_left _ _) fun u htu _ => ?_
      show OplProcessor.resultFifoRdEn (opls i s u) (s u).oplProcessor = false
      rw [OplProcessor.resultFifoRdEn, hempty u htu, Bool.not_true, Bool.and_false]
    have hwritten : k < count (written s) (max t (T + 1)) :=
      (hT.lt_iff _).mpr (Nat.lt_of_lt_of_le (Nat.lt_succ_self T) (Nat.le_max_right _ _))
    have htaken : count (Offered.taken i s) t = k := taken
    have hthere := h.resultFifo_there hfull (t := max t (T + 1)) (by omega)
    exact Bool.false_ne_true (hthere.symm.trans (hempty _ (Nat.le_max_left _ _)))
  | granted state =>
    refine ⟨t, Nat.le_refl t, ?_⟩
    rw [Opl.awaited, state, show (opls i s t).outRdy = true from hbrisk.outRdy t]
    exact Bool.or_true _
  | drops state pos mask prep1 prep2 prep3 ctrl read lt pushed taken =>
    refine ⟨t, Nat.le_refl t, ?_⟩
    have hthere : (opls i s t).inFifoEmpty = false :=
      h.inFifo_there hin hfull hapart hreads hbrisk taken
        (by rw [show count (rd i s) t = _ from read]; exact Nat.add_lt_add_left lt _)
    rw [Opl.awaited, state, hthere]
    rfl
  | sends within pos mask read pushed taken =>
    refine ⟨t, Nat.le_refl t, ?_⟩
    rw [Opl.awaited_of_sending within.sending]
    by_contra hlow
    rcases within.sending.held (Bool.eq_false_iff.mpr hlow) with hrdy | ⟨hempty, hlt⟩
    · exact Bool.false_ne_true (hrdy.symm.trans (hbrisk.outRdy t))
    · have hthere : (opls i s t).inFifoEmpty = false :=
        h.inFifo_there hin hfull hapart hreads hbrisk taken
          (by rw [show count (rd i s) t = _ from read]; exact Nat.add_lt_add_left hlt _)
      exact Bool.false_ne_true (hthere.symm.trans hempty)

end

end Sdpa.Hardware.Offered

namespace Sdpa.Hardware

open OutputPortLookup Lib.Clocked Lib.Frames

/-! ## Three packets -/

/-- The second state machine beside a run of the lookup path. -/
def OutputPortLookup.rewriters (i : Nat → PathIn) (s : Nat → OutputPortLookup) : Nat → OplRewriter
  | 0 => .init
  | t + 1 => (rewriters i s t).step (Offered.opls i s t) (s t).oplProcessor

theorem start_udpPacket (k : Nat) : start (lengths fun _ => udpPacket 23) k = 32 * k := by
  rw [show lengths (fun _ => udpPacket 23) = _ from funext fun _ => length_udpPacket 23]
  exact start_const 32 k

theorem entryAt_udpPacket (k : Nat) : entryAt (fun _ => udpPacket 23) k = 32 * k + 6 := by
  rw [entryAt, entryWord_udpPacket, start_udpPacket]
  rfl

theorem brisk_udpPacket :
    Offered.Brisk (fun _ => udpPacket 23) (offer (udpPacket 23) (burst 96) fun _ => true) where
  outRdy _ := rfl
  words t k hlt := by
    have hcount : ∀ t, count (Offered.wr (offer (udpPacket 23) (burst 96) fun _ => true)) t =
        min t 96 := count_burst 96
    rw [entryAt_udpPacket, hcount] at hlt
    rw [start_udpPacket, hcount]
    omega

theorem apart_udpPacket (k : Nat) : entryAt (fun _ => udpPacket 23) k + 12 ≤
    entryAt (fun _ => udpPacket 23) (k + 1) := by
  rw [entryAt_udpPacket, entryAt_udpPacket]
  omega

/-- Every packet goes to the first application, which has an entry for it that sets the forward
bitmask. -/
def OutputPortLookup.throughFirst : OutputPortLookup :=
  start StateLookup.toFirst (.allTo (0#2 ++ 4#320 ++ 1#16)) (.allTo 0) (.allTo 0)

theorem OutputPortLookup.offered_throughFirst :
    Offered StateProcessor.params (fun _ => udpPacket 23)
      (offer (udpPacket 23) (burst 96) fun _ => true)
      (run (step StateProcessor.params) throughFirst
        (offer (udpPacket 23) (burst 96) fun _ => true)) := by
  refine offered_offer _ _ _ _ _ _ _ fun t => ?_
  rw [count_burst]
  omega

theorem computes_throughFirst :
    let i := offer (udpPacket 23) (burst 96) fun _ => true
    let s := run (OutputPortLookup.step StateProcessor.params) throughFirst i
    Offered.Computes StateProcessor.params i s fun _ => 0x00010004 := by
  intro i s k F hF
  have h : Offered StateProcessor.params (fun _ => udpPacket 23) i s := offered_throughFirst
  have haction := h.fed.wildcardData_toFirst
    (h.matchReads (fun hreq => by cases hreq) fun _ hreq => by cases hreq)
    (LookupTable.unwritten_start _) rfl hF.pulse
  rw [StateLookup.computed_toFirst (0#2 ++ 4#320 ++ 1#16) rfl (by decide +kernel) haction]
  change (0x00010004 : BitVec 320) = _
  decide +kernel

/-- With packets long enough and far enough apart, an output that is always ready and packets
without long gaps, the packets leave in order, each with the action that is computed for it when
they are served one at a time; and every packet that is stored leaves. -/
theorem Offered.sends_computed {p : ProcParams} {pkts : Nat → Packet} {i : Nat → PathIn}
    {s : Nat → OutputPortLookup} {post : Nat → OplRewriter} {act : Nat → BitVec 320}
    (h : Offered p pkts i s) (hample : Ample pkts)
    (hapart : ∀ k, entryAt pkts k + 12 ≤ entryAt pkts (k + 1))
    (hreads : ∀ t, (i t).procRegIn.Reads) (hbrisk : Brisk pkts i) (hpost : Rewriting i s post)
    (hact : Computes p i s act) :
    (∀ t, Opl.written (oplOf s post) (t + 1) <+:
        flat (Opl.sentOf pkts act) (count (taken i s) t)) ∧
      ∀ n t, Lib.Frames.start (lengths pkts) n ≤ count (wr i) t →
        ∃ u, Opl.written (oplOf s post) u = flat (Opl.sentOf pkts act) n := by
  have hin := hample.inside
  have hfull := h.neverFull hample
  have hfed := h.opl_fed hin hfull hapart hreads hpost hact
  have hlost := h.not_lost hin hfull hapart hreads hpost hact hbrisk
  refine ⟨hfed.written_le hlost, fun n t hstored => hfed.exists_written hlost n ?_⟩
  intro t k q ow hat hk
  exact h.awaited_of_stored hin hfull hapart hreads hpost hact hbrisk hstored hat hk

/-- Three packets that the first application gives their port. -/
theorem sends_computed_udpPackets :
    let i := offer (udpPacket 23) (burst 96) fun _ => true
    let s := run (OutputPortLookup.step StateProcessor.params) throughFirst i
    ∃ u, Opl.written (Offered.oplOf s (rewriters i s)) u =
      flat (Opl.sentOf (fun _ => udpPacket 23) fun _ => 0x00010004) 3 := by
  intro i s
  have h : Offered StateProcessor.params (fun _ => udpPacket 23) i s := offered_throughFirst
  have hpost : Offered.Rewriting i s (rewriters i s) :=
    ⟨fun _ => rfl, ⟨rfl, rfl, rfl, (by decide : (1 : BitVec 8) ≠ 0)⟩, rfl⟩
  refine (h.sends_computed ample_udpPacket apart_udpPacket (fun _ hreq => by cases hreq)
    brisk_udpPacket hpost computes_throughFirst).2 3 96 ?_
  rw [start_udpPacket]
  exact Nat.le_of_eq (count_burst 96 96).symm

end Sdpa.Hardware
