import Sdpa.Hardware.OutputPortLookup
import Sdpa.Hardware.ResultPorts

/-!
# Results on the lookup path

A packet that is stored has its result at most in one of the FIFOs behind the flow
table, each of which has eight words, and `in_rdy` looks at none of them. What keeps
them from overflowing is the size of the input FIFO: the words of a packet stay
there until its result is taken, so nine results can only be under way if eight
packets and the beginning of a ninth fit into 256 words.
-/
namespace Sdpa.Hardware

open Lib.Clocked Lib.Fallthrough Lib.Frames

namespace Offered

open OutputPortLookup

/-! The cycles in which flow entries come, in which `state_processor` takes them, and in which
results are written. -/

def entries (i : Nat → PathIn) (s : Nat → OutputPortLookup) : Nat → Bool :=
  StateLookup.vld (lookups i s)

def begun (s : Nat → OutputPortLookup) : Nat → Bool := StateLookup.rd fun t => (s t).lookup

def written (s : Nat → OutputPortLookup) (t : Nat) : Bool := StateLookup.actionVld (s t).lookup

/-- None of the four FIFOs is written while it is full. -/
structure NeverFull (i : Nat → PathIn) (s : Nat → OutputPortLookup) : Prop where
  srcPort : ∀ t, entries i s t = true →
    (s t).lookup.wildcardMatch.srcPortFifo.full = false
  stateEntry : ∀ t, entries i s t = true →
    (s t).lookup.wildcardMatch.stateEntryFifo.full = false
  action : ∀ t, (s t).lookup.wildcardMatch.wildcardDataVld = true →
    (s t).lookup.wildcardMatch.actionFifo.full = false
  result : ∀ t, written s t = true → (s t).lookup.stateProcessor.resultFifo.full = false

/-- `opl_processor` receives exactly one result for each packet: the `k`-th result written is that
of packet `k`, and results are taken in this order, each one when the packets before its own have
been read and nothing else. -/
structure OneResult (pkts : Nat → Packet) (i : Nat → PathIn) (s : Nat → OutputPortLookup) :
    Prop where
  stored : ∀ k t, Lib.Frames.start (lengths pkts) (k + 1) ≤ count (wr i) t →
    ∃ T, IsNth (written s) k T
  owned : ∀ k T, IsNth (written s) k T → entryAt pkts k < count (wr i) T
  received : ∀ t, taken i s t = true →
    ∃ T, T < t ∧ IsNth (written s) (count (taken i s) t) T ∧
      (s (t + 1)).lookup.stateProcessor.resultFifo.dout = StateLookup.resultWord (s T).lookup
  inStep : ∀ t, taken i s t = true →
    count (rd i s) (t + 1) = Lib.Frames.start (lengths pkts) (count (taken i s) t)

/-- No result is lost. -/
structure Lossless (pkts : Nat → Packet) (i : Nat → PathIn) (s : Nat → OutputPortLookup) :
    Prop where
  neverFull : NeverFull i s
  oneResult : OneResult pkts i s

/-- Every packet has its entry word, and eight packets with the words of the next one up to its
entry word are more than the input FIFO takes. -/
structure Ample (pkts : Nat → Packet) : Prop where
  inside : ∀ k, (pkts k).HeaderInside
  room : ∀ k, Lib.Frames.start (lengths pkts) k + 256 ≤ entryAt pkts (k + 8)

variable {p : ProcParams} {pkts : Nat → Packet} {i : Nat → PathIn} {s : Nat → OutputPortLookup}
  (h : Offered p pkts i s)

include h

/-! ## The FIFOs -/

theorem resultFifo (t : Nat) : (s (t + 1)).lookup.stateProcessor.resultFifo =
    (s t).lookup.stateProcessor.resultFifo.step false (StateLookup.resultWord (s t).lookup)
      (written s t) (taken i s t) := by
  rw [h.follows t, ← h.reset t]
  rfl

omit h in
theorem resultFifo_of_taken (t : Nat) (ht : taken i s t = true) :
    (s t).lookup.stateProcessor.resultFifo.isEmpty = false := by
  have hrd : OplProcessor.resultFifoRdEn (oplIn (i t) (s t)) (s t).oplProcessor = true := ht
  rw [OplProcessor.resultFifoRdEn, Bool.and_eq_true, Bool.not_eq_true'] at hrd
  exact hrd.2

omit h in
theorem actionFifo_of_begun (t : Nat) (ht : begun s t = true) :
    (s t).lookup.wildcardMatch.actionFifo.empty = false := by
  rw [begun, StateLookup.rd, StateLookup.rdEn, Bool.and_eq_true, Bool.not_eq_true'] at ht
  exact ht.2

theorem written_eq_ago : written s = ago 43 (begun s) :=
  funext h.fed.actionVld

/-- Results that are never written while full have room. -/
theorem result_room (hfull : NeverFull i s) (t : Nat) (ht : written s t = true) :
    count (written s) t < count (taken i s) t + 8 :=
  SmallFifo.room_of_not_full (f := fun t => (s t).lookup.stateProcessor.resultFifo) h.resultFifo
    h.idle.stateProcessor.depth h.idle.stateProcessor.ptr resultFifo_of_taken hfull.result t ht

omit h in
theorem noOverflow (hfull : NeverFull i s) :
    StateLookup.NoOverflow (lookups i s) fun t => (s t).lookup := by
  refine ⟨fun t => ?_, fun t => ?_, fun t => ?_⟩
  · rw [FallthroughSmallFifo.overflows]
    cases hvld : StateLookup.vld (lookups i s) t with
    | false => rfl
    | true => rw [hfull.srcPort t hvld]; rfl
  · rw [FallthroughSmallFifo.overflows]
    cases hvld : StateLookup.vld (lookups i s) t with
    | false => rfl
    | true => rw [hfull.stateEntry t hvld]; rfl
  · rw [FallthroughSmallFifo.overflows]
    cases hvld : (s t).lookup.wildcardMatch.wildcardDataVld with
    | false => rfl
    | true => rw [hfull.action t hvld]; rfl

/-- Without overflow every stored packet gets its result, and results are taken in order. -/
theorem oneResult (hin : ∀ k, (pkts k).HeaderInside) (hfull : NeverFull i s) :
    OneResult pkts i s where
  stored k t ht := by
    have hentry : entryAt pkts k < count (wr i) t := by
      have := hin k
      rw [Packet.HeaderInside] at this
      rw [start_succ, lengths, Packet.length_words] at ht
      rw [entryAt]
      omega
    obtain ⟨F, -, hF⟩ := exists_nth ((h.lt_count_vld hin t k).mpr hentry)
    obtain ⟨A, hA⟩ := h.fed.taken_of_vld (noOverflow hfull) hF
    refine ⟨A + 43, ?_⟩
    rw [h.written_eq_ago]
    exact hA.ago 43
  owned k T hT := by
    rw [h.written_eq_ago] at hT
    obtain ⟨A, rfl, hA⟩ := hT.of_ago
    obtain ⟨F, hF, hnth⟩ := written_of_read (h.fed.entryOnDemand (noOverflow hfull)) hA.pulse
    have hnth : IsNth (entries i s) (count (begun s) A) F := hnth
    rw [hA.before] at hnth
    refine (h.lt_count_vld hin (A + 43) k).mp ((hnth.lt_iff _).mpr ?_)
    omega
  received t ht :=
    SmallFifo.dout_of_read (f := fun t => (s t).lookup.stateProcessor.resultFifo) h.resultFifo
      h.idle.stateProcessor.depth h.idle.stateProcessor.ptr resultFifo_of_taken
      (h.result_room hfull) ht
  inStep t ht := h.count_rd_of_taken ht

/-! ## Packets under way -/

/-- At most eight packets have their flow entry and not yet their result taken. -/
theorem count_entries_le (hample : Ample pkts) (t : Nat) :
    count (entries i s) (t + 1) ≤ count (taken i s) t + 8 := by
  by_contra hgt
  have hlt : count (taken i s) t + 8 < count (entries i s) (t + 1) := by omega
  have hentry := (h.lt_count_vld hample.inside t (count (taken i s) t + 8)).mp hlt
  have hroom := hample.room (count (taken i s) t)
  have hread := h.count_rd_le t
  have hstored := h.count_wr_le t
  omega

/-- Each packet has its flow entry before it is taken, and its result after. -/
theorem count_written_le (t : Nat) : count (written s) (t + 1) ≤ count (begun s) t := by
  rw [h.written_eq_ago, count_ago]
  exact count_mono _ (by omega)

omit h in
theorem count_ago_entries_le (t : Nat) :
    count (ago 4 (entries i s)) (t + 1) ≤ count (entries i s) (t + 1) := by
  rw [count_ago]
  exact count_mono _ (by omega)

/-- A result is written with room for it, if no packet is taken before its action is there. -/
theorem written_lt (hample : Ample pkts) {t : Nat}
    (hbegun : count (begun s) t ≤ count (ago 4 (entries i s)) t) (ht : written s t = true) :
    count (written s) t < count (taken i s) t + 8 := by
  have hresult := h.count_written_le t
  rw [count_succ, ht, if_pos rfl] at hresult
  have hmono : count (ago 4 (entries i s)) t ≤ count (ago 4 (entries i s)) (t + 1) :=
    count_mono _ (Nat.le_succ t)
  have hentry := count_ago_entries_le (i := i) (s := s) t
  have := h.count_entries_le hample t
  omega

/-- An action is written with room for it, if no result is taken before it was written. -/
theorem action_lt (hample : Ample pkts) {t : Nat}
    (htaken : count (taken i s) t ≤ count (written s) t)
    (ht : ago 4 (entries i s) t = true) :
    count (ago 4 (entries i s)) t < count (begun s) t + 8 := by
  have hentry := count_ago_entries_le (i := i) (s := s) t
  rw [count_succ, ht, if_pos rfl] at hentry
  have hmono : count (written s) t ≤ count (written s) (t + 1) := count_mono _ (Nat.le_succ t)
  have hresult := h.count_written_le t
  have := h.count_entries_le hample t
  omega

/-- Fewer than eight packets are under way when a flow entry comes. -/
theorem count_entries_lt (hample : Ample pkts) {t : Nat} (ht : entries i s t = true) :
    count (entries i s) t < count (taken i s) t + 8 := by
  have hle := h.count_entries_le hample t
  rw [count_succ, ht, if_pos rfl] at hle
  omega

/-- No more results are taken than were written, and no more packets than have their action. -/
theorem counts (hample : Ample pkts) (t : Nat) :
    count (taken i s) t ≤ count (written s) t ∧
      count (begun s) t ≤ count (ago 4 (entries i s)) t := by
  induction t using Nat.strong_induction_on with
  | h t ih =>
    -- Both FIFOs have room up to this cycle, each because the other one is in order.
    have hresult : ∀ u, u < t → written s u = true →
        count (written s) u < count (taken i s) u + 2 ^ 3 :=
      fun u hu hwr => h.written_lt hample (ih u hu).2 hwr
    have haction : ∀ u, u < t → ago 4 (entries i s) u = true →
        count (ago 4 (entries i s)) u < count (begun s) u + 2 ^ 3 :=
      fun u hu hwr => h.action_lt hample (ih u hu).1 hwr
    refine ⟨(SmallFifo.holds_pulses (f := fun t => (s t).lookup.stateProcessor.resultFifo)
      h.resultFifo h.idle.stateProcessor.depth h.idle.stateProcessor.ptr resultFifo_of_taken
      hresult).1, ?_⟩
    obtain ⟨-, m, hline⟩ := FallthroughSmallFifo.roomy_of_demand
      (f := fun t => (s t).lookup.wildcardMatch.actionFifo) h.fed.actionFifo
      h.idle.wildcardMatch.actionFifo actionFifo_of_begun haction
    exact Nat.le_trans (Nat.le_add_left _ _) hline.length_rest_le

theorem neverFull (hample : Ample pkts) : NeverFull i s := by
  have hcounts := h.counts hample
  have haction : ∀ t, ago 4 (entries i s) t = true →
      count (ago 4 (entries i s)) t < count (begun s) t + 2 ^ 3 :=
    fun t => h.action_lt hample (hcounts t).1
  have hresult : ∀ t, written s t = true → count (written s) t < count (taken i s) t + 2 ^ 3 :=
    fun t => h.written_lt hample (hcounts t).2
  have hentry : ∀ t, entries i s t = true → count (entries i s) t < count (begun s) t + 2 ^ 3 := by
    intro t ht
    have := h.count_entries_lt hample ht
    have := h.count_written_le t
    have : count (written s) t ≤ count (written s) (t + 1) := count_mono _ (Nat.le_succ t)
    have := (hcounts t).1
    omega
  have hroomy : ∀ t, FallthroughSmallFifo.Roomy 3 (ago 4 (entries i s)) (begun s) t := fun t =>
    (FallthroughSmallFifo.roomy_of_demand
      (f := fun t => (s t).lookup.wildcardMatch.actionFifo) h.fed.actionFifo
      h.idle.wildcardMatch.actionFifo actionFifo_of_begun fun u _ => haction u).1
  have hdemand : OnDemand (ago 4 (entries i s)) (begun s) := by
    intro t ht
    rw [← actionFifo_of_begun t ht, (FallthroughSmallFifo.shows_stamps
      (f := fun t => (s t).lookup.wildcardMatch.actionFifo) h.fed.actionFifo
      h.idle.wildcardMatch.actionFifo (hroomy t)).empty]
    rfl
  have hread := onDemand_iff.mp hdemand
  have hreadEntry := onDemand_iff.mp hdemand.of_ago
  refine ⟨fun t ht => ?_, fun t ht => ?_, fun t ht => ?_, fun t ht => ?_⟩
  · exact FallthroughSmallFifo.not_full_of_lt
      (f := fun t => (s t).lookup.wildcardMatch.srcPortFifo) h.fed.srcPortFifo
      h.idle.wildcardMatch.srcPortFifo hreadEntry
      (FallthroughSmallFifo.roomy_of_lt hreadEntry hentry t) (hentry t ht)
  · exact FallthroughSmallFifo.not_full_of_lt
      (f := fun t => (s t).lookup.wildcardMatch.stateEntryFifo) h.fed.stateEntryFifo
      h.idle.wildcardMatch.stateEntryFifo hreadEntry
      (FallthroughSmallFifo.roomy_of_lt hreadEntry hentry t) (hentry t ht)
  · rw [h.fed.wildcardDataVld t] at ht
    exact FallthroughSmallFifo.not_full_of_lt
      (f := fun t => (s t).lookup.wildcardMatch.actionFifo) h.fed.actionFifo
      h.idle.wildcardMatch.actionFifo hread (hroomy t) (haction t ht)
  · obtain ⟨-, hholds⟩ := SmallFifo.holds_pulses
      (f := fun t => (s t).lookup.stateProcessor.resultFifo) h.resultFifo
      h.idle.stateProcessor.depth h.idle.stateProcessor.ptr resultFifo_of_taken (t := t)
      fun u _ => hresult u
    have := hresult t ht
    rw [hholds.full, List.length_map, List.length_drop, length_pulses]
    exact decide_eq_false (by omega)

omit h in
/-- Packets of at least 32 words are long enough. -/
theorem ample_of_long (hin : ∀ k, (pkts k).HeaderInside)
    (hlong : ∀ k, 32 ≤ (pkts k).words.length) : Ample pkts where
  inside := hin
  room k := by
    have hstart : Lib.Frames.start (lengths pkts) k + 32 * 8 ≤
        Lib.Frames.start (lengths pkts) (k + 8) := start_add_le hlong k 8
    rw [entryAt]
    omega

end Offered

/-- The words up to the ports of a UDP packet, with one more. -/
def udpHeader : List Word :=
  [⟨0, 0⟩, ⟨0, 0x08004500⟩, ⟨0, 0x11⟩, ⟨0, 0⟩, ⟨0, 0⟩, ⟨0, 0⟩, ⟨0, 0⟩]

theorem ctrl_udpHeader : ∀ w ∈ udpHeader, w.ctrl = 0 := by decide

/-- A UDP packet of `n + 8` data words, behind the header of the input queue. -/
def udpPacket (n : Nat) : Packet where
  hdrs := [⟨ioQueueStageNum, 0⟩]
  body := udpHeader ++ List.replicate n ⟨0, 0⟩
  last := ⟨1, 0⟩
  hdrs_ctrl := ctrl_of_ioq
  ioq := ioq_mem
  body_ctrl w hw := by
    rcases List.mem_append.mp hw with hheader | hpayload
    · exact ctrl_udpHeader w hheader
    · rw [List.eq_of_mem_replicate hpayload]
  last_ctrl := ctrl_of_last
  size := by simp [udpHeader]

theorem length_udpPacket (n : Nat) : (udpPacket n).words.length = n + 9 := by
  simp [Packet.words, Packet.data, udpPacket, udpHeader]

theorem entryWord_udpPacket (n : Nat) : (udpPacket n).entryWord = 5 := by
  have hip : (udpPacket n).word 1 = 0x08004500 := rfl
  have hudp : (udpPacket n).word 2 = 0x11 := rfl
  simp only [Packet.entryWord, Packet.isTcpUdp, Packet.isIp, Packet.ipHdrLen, hip, hudp]
  rfl

theorem headerInside_udpPacket (n : Nat) : (udpPacket n).HeaderInside := by
  have := (udpPacket n).length_data_ge
  rw [Packet.HeaderInside, entryWord_udpPacket]
  omega

/-- With 32 words they are long enough. -/
theorem ample_udpPacket : Offered.Ample fun _ => udpPacket 23 :=
  Offered.ample_of_long (fun _ => headerInside_udpPacket 23)
    fun _ => Nat.le_of_eq (length_udpPacket 23).symm

namespace OutputPortLookup

/-- Lines that send every packet out of one port. -/
def forwardAll (_ : Nat) : Entry 248 320 := ⟨BitVec.allOnes 248, 0, 0x00010004⟩

/-- The lookup path with these lines, and the tables of the applications as reset leaves them. -/
def forwarding : OutputPortLookup :=
  start forwardAll (.afterReset (StateProcessor.appParams 1 StateProcessor.params.app1))
    (.afterReset (StateProcessor.appParams 2 StateProcessor.params.app2))
    (.afterReset (StateProcessor.appParams 3 StateProcessor.params.app3))

theorem offered_forwarding (pk : Packet) (outRdy : Nat → Bool) {n : Nat} (hn : n ≤ 254) :
    Offered StateProcessor.params (fun _ => pk) (offer pk (burst n) outRdy)
      (run (step StateProcessor.params) forwarding (offer pk (burst n) outRdy)) := by
  refine offered_offer _ _ _ _ _ pk outRdy fun t => ?_
  rw [count_burst]
  omega

end OutputPortLookup

/-- No result is lost if the packets are long enough. -/
theorem Offered.lossless {p : ProcParams} {pkts : Nat → Packet} {i : Nat → PathIn}
    {s : Nat → OutputPortLookup} (h : Offered p pkts i s) (hample : Ample pkts) :
    Lossless pkts i s :=
  ⟨h.neverFull hample, h.oneResult hample.inside (h.neverFull hample)⟩

theorem lossless_of_udpPackets :
    let i := OutputPortLookup.offer (udpPacket 23) (burst 96) fun _ => true
    let s := run (OutputPortLookup.step StateProcessor.params) OutputPortLookup.forwarding i
    Offered StateProcessor.params (fun _ => udpPacket 23) i s ∧
      Offered.Ample (fun _ => udpPacket 23) ∧
      Offered.Lossless (fun _ => udpPacket 23) i s := by
  intro i s
  have h : Offered StateProcessor.params (fun _ => udpPacket 23) i s :=
    OutputPortLookup.offered_forwarding _ _ (by decide)
  exact ⟨h, ample_udpPacket, h.lossless ample_udpPacket⟩

/-! ## A next stage that is never ready -/

namespace Offered

variable {p : ProcParams} {pkts : Nat → Packet} {i : Nat → PathIn} {s : Nat → OutputPortLookup}
  (h : Offered p pkts i s)

include h

/-- The processor waits for the first result, or holds it and waits for `out_rdy`. -/
inductive Stalled (i : Nat → PathIn) (s : Nat → OutputPortLookup) (t : Nat) : Prop
  | waits (state : (s t).oplProcessor.state = .waitForInput) (none : count (taken i s) t = 0)
  | holds (state : (s t).oplProcessor.state = .writeReplacements) (one : count (taken i s) t = 1)
      (ports : (s t).lookup.stateProcessor.resultFifo.dout.2.extractLsb' 0 16 ≠ 0)

/-- Results that are all to be sent out, with `out_rdy` low. -/
theorem stalled (hone : OneResult pkts i s) (hrdy : ∀ t, (i t).outRdy = false)
    (hports : ∀ t, written s t = true →
      (StateLookup.resultWord (s t).lookup).2.extractLsb' 0 16 ≠ 0) (t : Nat) :
    Stalled i s t := by
  induction t with
  | zero => exact .waits h.idle.opl (count_zero _)
  | succ t ih =>
    have hstep := h.opl t
    have hcount := count_succ (taken i s) t
    cases ih with
    | waits state none =>
      rw [OplProcessor.step_waitForInput (h.reset t) state] at hstep
      have htaken : taken i s t = !(opls i s t).resultFifoEmpty := by
        show OplProcessor.resultFifoRdEn (opls i s t) (s t).oplProcessor = _
        rw [OplProcessor.resultFifoRdEn, OplProcessor.finished, state]
        rfl
      have hstate : (s (t + 1)).oplProcessor.state = OplProcessor.afterPacket (opls i s t) :=
        congrArg OplProcessor.state hstep
      rw [OplProcessor.afterPacket] at hstate
      cases hempty : (opls i s t).resultFifoEmpty with
      | true =>
        rw [hempty] at hstate htaken
        rw [htaken, none] at hcount
        exact .waits hstate hcount
      | false =>
        rw [hempty] at hstate htaken
        obtain ⟨T, -, hnth, hdout⟩ := hone.received t htaken
        rw [htaken, none] at hcount
        refine .holds hstate hcount ?_
        rw [hdout]
        exact hports T hnth.pulse
    | holds state one ports =>
      have htaken : taken i s t = false := OplProcessor.resultFifoRdEn_of_not_finished _ _
        (OplProcessor.finished_of_state _ _ state)
      have hstate : (s (t + 1)).oplProcessor.state = .writeReplacements :=
        (congrArg OplProcessor.state hstep).trans
          (OplProcessor.state_of_waits (h.reset t) state ports (hrdy t))
      rw [htaken, one] at hcount
      refine .holds hstate hcount ?_
      rw [h.resultFifo t, htaken]
      exact ports

/-- Then ten packets are too many. -/
theorem not_neverFull_of_stalled (hin : ∀ k, (pkts k).HeaderInside)
    (hrdy : ∀ t, (i t).outRdy = false)
    (hports : ∀ t, written s t = true →
      (StateLookup.resultWord (s t).lookup).2.extractLsb' 0 16 ≠ 0) {t : Nat}
    (hten : Lib.Frames.start (lengths pkts) 10 ≤ count (wr i) t) : ¬ NeverFull i s := by
  intro hfull
  have hone := h.oneResult hin hfull
  obtain ⟨T, hT⟩ := hone.stored 9 t hten
  have hroom := h.result_room hfull T hT.pulse
  rw [hT.before] at hroom
  have hle : count (taken i s) T ≤ 1 := by
    cases h.stalled hone hrdy hports T with
    | waits _ none => omega
    | holds _ one => omega
  omega

/-- With packets far enough apart whose action names no application, that is the result. -/
theorem resultWord_of_direct (hin : ∀ k, (pkts k).HeaderInside) (hfull : NeverFull i s)
    (hapart : ∀ k, entryAt pkts k + 12 ≤ entryAt pkts (k + 1))
    (hreads : ∀ t, (i t).procRegIn.Reads) {a : BitVec 320} (happ : StateProcessor.goToAppId a = 0)
    (haction : ∀ t, entries i s t = true → (s (t + 4)).lookup.wildcardMatch.wildcardData = a)
    (t : Nat) (ht : written s t = true) : (StateLookup.resultWord (s t).lookup).2 = a := by
  have hspaced := h.vld_spaced hin hapart
  have hlookups : StateLookup.Lookups p (lookups i s) fun t => (s t).lookup := ⟨h.fed, hreads⟩
  have hno := noOverflow hfull
  have hbegun : begun s = ago 6 (entries i s) := hlookups.rd_eq_ago hno hspaced
  rw [h.written_eq_ago, hbegun, ago_ago] at ht
  obtain ⟨F, rfl, hF⟩ := ago_iff.mp ht
  have hdirect := haction F hF
  refine (hlookups.out_of_direct hno hspaced hF ?_).trans hdirect
  exact (congrArg StateProcessor.goToAppId hdirect).trans happ

end Offered

/-- The tables of `forwarding` are not written. -/
theorem OutputPortLookup.lut_forwarding (pk : Packet) (outRdy : Nat → Bool) {n : Nat} (hn : n ≤ 254)
    (t : Nat) :
    (run (step StateProcessor.params) forwarding (offer pk (burst n) outRdy)
      t).lookup.wildcardMatch.wildcardCamLutSm.lut = forwardAll := by
  have h := offered_forwarding pk outRdy hn
  exact h.fed.lut_eq (h.matchReads (fun hreq => by cases hreq) fun _ hreq => by cases hreq)
    (LookupTable.unwritten_start _) t

theorem OutputPortLookup.find_forwardAll (key : BitVec 248) :
    LookupTable.find WildcardMatch.tableParams forwardAll key = some 0 :=
  LookupTable.find_of_dmask (Nat.succ_pos 31) rfl key

/-- Its results are the action of its lines. -/
theorem OutputPortLookup.resultWord_forwarding {k n : Nat} (hk : 3 ≤ k) (hn : n ≤ 254)
    (outRdy : Nat → Bool) :
    let i := offer (udpPacket k) (burst n) outRdy
    let s := run (step StateProcessor.params) forwarding i
    Offered.NeverFull i s → ∀ t, Offered.written s t = true →
      (StateLookup.resultWord (s t).lookup).2 = 0x00010004 := by
  intro i s hfull
  have h : Offered StateProcessor.params (fun _ => udpPacket k) i s := offered_forwarding _ _ hn
  have hapart : ∀ m, entryAt (fun _ => udpPacket k) m + 12 ≤
      entryAt (fun _ => udpPacket k) (m + 1) := by
    intro m
    have hlen : lengths (fun _ => udpPacket k) m = k + 9 := length_udpPacket k
    rw [entryAt, entryAt, start_succ, hlen]
    omega
  have haction : ∀ t, Offered.entries i s t = true →
      (s (t + 4)).lookup.wildcardMatch.wildcardData = 0x00010004 := by
    intro t ht
    refine (h.fed.serves.answer (t := t) ht rfl (lut_forwarding _ _ hn t)
      (lut_forwarding _ _ hn (t + 3))).2.trans ?_
    exact (LookupTable.lookup_of_find (find_forwardAll _)).trans rfl
  exact h.resultWord_of_direct (fun _ => headerInside_udpPacket k) hfull hapart
    (fun _ hreq => by cases hreq) (by decide +kernel) haction

/-- Ten packets of twelve words, one after the other, to a next stage that is never ready: the
first result is held and the tenth does not fit. -/
theorem result_lost :
    let i := OutputPortLookup.offer (udpPacket 3) (burst 120) fun _ => false
    let s := run (OutputPortLookup.step StateProcessor.params) OutputPortLookup.forwarding i
    Offered StateProcessor.params (fun _ => udpPacket 3) i s ∧
      ¬ Offered.Lossless (fun _ => udpPacket 3) i s := by
  intro i s
  have h : Offered StateProcessor.params (fun _ => udpPacket 3) i s :=
    OutputPortLookup.offered_forwarding _ _ (by decide)
  refine ⟨h, fun hlossless => ?_⟩
  have hin : ∀ k : Nat, (udpPacket 3).HeaderInside := fun _ => headerInside_udpPacket 3
  have hlength : lengths (fun _ => udpPacket 3) = fun _ => 12 :=
    funext fun _ => length_udpPacket 3
  have hports : ∀ t, Offered.written s t = true →
      (StateLookup.resultWord (s t).lookup).2.extractLsb' 0 16 ≠ 0 := by
    intro t ht
    rw [OutputPortLookup.resultWord_forwarding (Nat.le_refl 3) (by decide) _ hlossless.neverFull t
      ht]
    decide +kernel
  have hten : Lib.Frames.start (lengths fun _ => udpPacket 3) 10 ≤
      count (Offered.wr i) 120 := by
    rw [hlength, start_const]
    exact Nat.le_of_eq (count_burst 120 120).symm
  exact h.not_neverFull_of_stalled hin (fun _ => rfl) hports hten hlossless.neverFull

end Sdpa.Hardware
