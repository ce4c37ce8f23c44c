import Sdpa.Hardware.AppChain
import Sdpa.Hardware.PacketReads

/-!
# The lookup path

`output_port_lookup` with its input FIFO, header parser, flow table, state processor
and `opl_processor`. The words of a packet wait in the input FIFO while its flow
entry goes through the tables; `in_rdy` is the room in that FIFO, and nothing else
holds packets back.

The register bus of `state_processor` comes out of `generic_regs` in
`wildcard_match`. It is an input here, and so is `wildcard_loses`, which nothing
drives (`opl_processor` drives `wildcard_lose`).
-/
namespace Sdpa.Hardware

open Lib.Clocked Lib.Fallthrough Lib.Frames

structure PathIn where
  word : Word
  inWr : Bool
  outRdy : Bool
  regIn : RegBus
  procRegIn : RegBus
  wildcardLoses : Bool
  tableFlush : Bool
  reset : Bool

/-- The registers of `output_port_lookup`. -/
structure OutputPortLookup where
  inputFifo : FallthroughSmallFifo Word 8
  headerParser : HeaderParser
  lookup : StateLookup
  oplProcessor : OplProcessor
  nsCounter : BitVec 28
  sCounter : BitVec 32

/-- `wildcard_match_rdy` is constantly high. -/
def WildcardMatch.wildcardMatchRdy : Bool := true

namespace OutputPortLookup

variable (p : ProcParams) (x : PathIn) (s : OutputPortLookup)

def inRdy : Bool := !s.inputFifo.nearlyFull && WildcardMatch.wildcardMatchRdy

def parserIn : ParserIn := ⟨x.word, x.inWr, x.regIn, x.reset⟩

def oplIn : OplIn where
  resultFifoDout := s.lookup.stateProcessor.resultFifo.dout
  resultFifoEmpty := s.lookup.stateProcessor.resultFifo.isEmpty
  inFifo := s.inputFifo.dout
  inFifoEmpty := s.inputFifo.empty
  outRdy := x.outRdy
  reset := x.reset

def lookupIn : LookupIn where
  flowEntry := s.headerParser.fsm.flowEntry
  flowEntryVld := s.headerParser.fsm.flowEntryVld
  pktSize := s.headerParser.fsm.pktSize
  flowEntrySrcPortParsed := s.headerParser.flowEntrySrcPort
  eventParam1 := s.headerParser.eventParam1
  eventParam2 := s.headerParser.eventParam2
  eventParam3 := s.headerParser.eventParam3
  wildcardWins := s.oplProcessor.wildcardWins (oplIn x s)
  wildcardLoses := x.wildcardLoses
  resultFifoRdEn := s.oplProcessor.resultFifoRdEn (oplIn x s)
  matchRegIn := s.headerParser.regOut
  procRegIn := x.procRegIn
  openflowTimer := s.sCounter
  tableFlush := x.tableFlush
  reset := x.reset

/-- `1_000_000_000/FAST_CLOCK_PERIOD - 1`. -/
def lastNs : BitVec 28 := 124999999

def step : OutputPortLookup where
  inputFifo := s.inputFifo.step x.reset x.word x.inWr (s.oplProcessor.inFifoRdEn (oplIn x s))
  headerParser := s.headerParser.step (parserIn x)
  lookup := s.lookup.step p (lookupIn x s)
  oplProcessor := s.oplProcessor.step (oplIn x s)
  nsCounter := if x.reset || s.nsCounter = lastNs then 0 else s.nsCounter + 1
  sCounter :=
    if x.reset then 0 else if s.nsCounter = lastNs then s.sCounter + 1 else s.sCounter

/-- The tables are initialised and no packet is under way. -/
structure Idle : Prop where
  inputFifo : s.inputFifo.Vacant
  parser : s.headerParser.fsm.Waits
  flowEntryVld : s.headerParser.fsm.flowEntryVld = false
  wildcardMatch : s.lookup.wildcardMatch.Idle
  stateProcessor : s.lookup.stateProcessor.Idle
  opl : s.oplProcessor.state = .waitForInput
  oplCtrl : s.oplProcessor.inFifoCtrlD1 ≠ 0

/-- An idle lookup path with the given tables. -/
def start (lut : Nat → Entry 248 320) (m1 m2 m3 : AppStore) : OutputPortLookup where
  inputFifo := .start ⟨0, 0⟩
  headerParser := .start
  lookup := .start lut m1 m2 m3
  oplProcessor := .init
  nsCounter := 0
  sCounter := 0

theorem idle_start (lut : Nat → Entry 248 320) (m1 m2 m3 : AppStore) :
    Idle (start lut m1 m2 m3) where
  inputFifo := ⟨rfl, rfl, rfl⟩
  parser := .inl rfl
  flowEntryVld := rfl
  wildcardMatch := WildcardMatch.idle_start lut
  stateProcessor := StateProcessor.idle_start m1 m2 m3
  opl := rfl
  oplCtrl := (by decide : (1 : BitVec 8) ≠ 0)

end OutputPortLookup

/-- Packets are offered to an idle lookup path, a word only in a cycle in which `in_rdy` is high;
`out_rdy` is what it is. -/
structure Offered (p : ProcParams) (pkts : Nat → Packet) (i : Nat → PathIn)
    (s : Nat → OutputPortLookup) : Prop where
  follows : Follows (OutputPortLookup.step p) i s
  reset : ∀ t, (i t).reset = false
  tableFlush : ∀ t, (i t).tableFlush = false
  idle : (s 0).Idle
  carries : Carries pkts (fun t => (i t).inWr) fun t => (i t).word
  inRdy : ∀ t, (i t).inWr = true → (s t).inRdy = true

namespace Offered

open OutputPortLookup

/-! The wires over time. -/

def wr (i : Nat → PathIn) (t : Nat) : Bool := (i t).inWr

def opls (i : Nat → PathIn) (s : Nat → OutputPortLookup) (t : Nat) : OplIn := oplIn (i t) (s t)

def lookups (i : Nat → PathIn) (s : Nat → OutputPortLookup) (t : Nat) : LookupIn :=
  lookupIn (i t) (s t)

/-- Words are read from the input FIFO. -/
def rd (i : Nat → PathIn) (s : Nat → OutputPortLookup) : Nat → Bool :=
  wordRd (opls i s) fun t => (s t).oplProcessor

/-- Results are taken. -/
def taken (i : Nat → PathIn) (s : Nat → OutputPortLookup) : Nat → Bool :=
  resultRd (opls i s) fun t => (s t).oplProcessor

variable {p : ProcParams} {pkts : Nat → Packet} {i : Nat → PathIn} {s : Nat → OutputPortLookup}
  (h : Offered p pkts i s)

include h

theorem fed : StateLookup.Fed p (lookups i s) fun t => (s t).lookup where
  follows t := congrArg (·.lookup) (h.follows t)
  reset := h.reset
  tableFlush := h.tableFlush
  matchIdle := h.idle.wildcardMatch
  procIdle := h.idle.stateProcessor

/-- A bus that only reads comes to the flow table as such. -/
theorem matchReads (hstart : (s 0).headerParser.regOut.Reads) (hreads : ∀ t, (i t).regIn.Reads)
    (t : Nat) : (lookups i s t).matchRegIn.Reads := by
  show (s t).headerParser.regOut.Reads
  cases t with
  | zero => exact hstart
  | succ t =>
    rw [h.follows t]
    exact HeaderParser.reads_stepRegOut (i := parserIn (i t)) (hreads t) _

/-! ## The input FIFO -/

theorem inputFifo (t : Nat) : (s (t + 1)).inputFifo =
    (s t).inputFifo.step false (i t).word (wr i t) (rd i s t) := by
  rw [h.follows t, ← h.reset t]
  rfl

/-- `in_rdy` keeps the input FIFO from overflowing. -/
theorem inputRoomy (t : Nat) : FallthroughSmallFifo.Roomy 8 (wr i) (rd i s) t := by
  refine FallthroughSmallFifo.roomy_of_not_overflows (f := fun t => (s t).inputFifo) h.inputFifo
    h.idle.inputFifo (fun u => ?_) t
  rw [FallthroughSmallFifo.overflows]
  cases hwr : wr i u with
  | false => rfl
  | true =>
    have hrdy := h.inRdy u hwr
    have hroom : (s u).inputFifo.full = false := by
      rw [OutputPortLookup.inRdy, Bool.and_eq_true, Bool.not_eq_true',
        FallthroughSmallFifo.nearlyFull, SmallFifo.nearlyFull, decide_eq_false_iff_not] at hrdy
      rw [FallthroughSmallFifo.full, SmallFifo.full]
      exact decide_eq_false (by omega)
    rw [hroom]
    rfl

theorem inputShows (t : Nat) :
    (s t).inputFifo.Shows ((stamps (wr i) (rd i s) t).map fun u => (i u).word) :=
  FallthroughSmallFifo.shows_stamps (f := fun t => (s t).inputFifo) h.inputFifo h.idle.inputFifo
    (h.inputRoomy t)

omit h in
theorem inFifoEmpty_of_rd {t : Nat} (ht : rd i s t = true) : (s t).inputFifo.empty = false := by
  have hrd : OplProcessor.inFifoRdEn (oplIn (i t) (s t)) (s t).oplProcessor = true := ht
  rw [OplProcessor.inFifoRdEn] at hrd
  have hempty : (!(s t).inputFifo.empty) = true := by
    cases hstate : (s t).oplProcessor.state <;> simp_all [oplIn]
  rwa [Bool.not_eq_true'] at hempty

theorem onDemand : OnDemand (wr i) (rd i s) := by
  intro t ht
  rw [← inFifoEmpty_of_rd ht, (h.inputShows t).empty]
  rfl

/-- The word that is read is the next one of the stream. -/
theorem word_of_rd (t k j : Nat) (ht : rd i s t = true)
    (hat : IsAt (lengths pkts) (count (rd i s) t) k j) :
    (pkts k).words[j]? = some (s t).inputFifo.dout := by
  obtain ⟨F, hF, hnth⟩ := written_of_read h.onDemand ht
  rw [FallthroughSmallFifo.dout_of_demand (f := fun t => (s t).inputFifo) h.inputFifo
    h.idle.inputFifo (h.inputRoomy t) h.onDemand ht hnth]
  refine h.carries F k j hnth.pulse ?_
  have hbefore : count (wr i) F = count (rd i s) t := hnth.before
  rw [← hbefore] at hat
  exact hat

/-- The input FIFO takes 256 words. -/
theorem count_wr_le (t : Nat) : count (wr i) t ≤ count (rd i s) t + 256 := by
  induction t with
  | zero => simp
  | succ t ih =>
    have hmono : count (rd i s) t ≤ count (rd i s) (t + 1) := count_mono _ (Nat.le_succ t)
    rw [count_succ]
    cases hwr : wr i t with
    | false =>
      rw [if_neg Bool.false_ne_true]
      omega
    | true =>
      have hrdy := h.inRdy t hwr
      have hdepth := (h.inputShows t).rest.depth
      rw [Queue.length_rest_map, length_rest_stamps h.onDemand] at hdepth
      rw [OutputPortLookup.inRdy, Bool.and_eq_true, Bool.not_eq_true',
        FallthroughSmallFifo.nearlyFull, SmallFifo.nearlyFull, decide_eq_false_iff_not] at hrdy
      rw [if_pos rfl]
      omega

/-! ## Packets and results -/

theorem opl : Follows OplProcessor.step (opls i s) fun t => (s t).oplProcessor := by
  intro t
  exact congrArg (·.oplProcessor) (h.follows t)

/-- No word is read of a packet whose result was not taken. -/
theorem count_rd_le (t : Nat) :
    count (rd i s) t ≤ Lib.Frames.start (lengths pkts) (count (taken i s) t) :=
  count_wordRd_le h.opl h.reset h.idle.opl h.idle.oplCtrl h.word_of_rd t

theorem count_rd_of_taken {t : Nat} (ht : taken i s t = true) :
    count (rd i s) (t + 1) = Lib.Frames.start (lengths pkts) (count (taken i s) t) :=
  count_wordRd_of_result h.opl h.reset h.idle.opl h.idle.oplCtrl h.word_of_rd ht

theorem parser (t : Nat) : (s (t + 1)).headerParser.fsm =
    (s t).headerParser.fsm.step (i t).word false (wr i t) := by
  rw [h.follows t, ← h.reset t]
  rfl

/-- As many flow entries come as entry words were written. -/
theorem lt_count_vld (hin : ∀ k, (pkts k).HeaderInside) (t k : Nat) :
    k < count (StateLookup.vld (lookups i s)) (t + 1) ↔ entryAt pkts k < count (wr i) t := by
  exact lt_count_flowEntryVld (f := fun t => (s t).headerParser.fsm) (w := fun t => (i t).word)
    h.parser h.idle.parser h.carries hin h.idle.flowEntryVld t k

/-- Packets whose entry words are far apart have their flow entries far apart. -/
theorem vld_spaced (hin : ∀ k, (pkts k).HeaderInside) {d : Nat}
    (hapart : ∀ k, entryAt pkts k + d ≤ entryAt pkts (k + 1)) :
    Spaced d (StateLookup.vld (lookups i s)) := by
  have hago : StateLookup.vld (lookups i s) =
      ago 1 fun t => (s (t + 1)).headerParser.fsm.flowEntryVld :=
    funext (eq_ago_succ h.idle.flowEntryVld fun t =>
      (ago_zero (fun t => (s (t + 1)).headerParser.fsm.flowEntryVld) t).symm)
  rw [hago]
  refine (spaced_of_marks (wr i) (strictMono_entryAt hin) hapart fun t => ?_).ago 1
  exact (flowEntryVld_iff (f := fun t => (s t).headerParser.fsm) h.parser h.idle.parser h.carries
    hin t).mp

end Offered

/-! ## Streams of one packet -/

namespace OutputPortLookup

/-- The words of `pk` again and again in the cycles of `q`, with silent buses. -/
def offer (pk : Packet) (q outRdy : Nat → Bool) (t : Nat) : PathIn where
  word := pk.words.getD (count q t % pk.words.length) ⟨0, 0⟩
  inWr := q t
  outRdy := outRdy t
  regIn := ⟨false, false, false, 0, 0, 0⟩
  procRegIn := ⟨false, false, false, 0, 0, 0⟩
  wildcardLoses := false
  tableFlush := false
  reset := false

theorem carries_offer (pk : Packet) (q outRdy : Nat → Bool) :
    Carries (fun _ => pk) (fun t => (offer pk q outRdy t).inWr)
      fun t => (offer pk q outRdy t).word := carries_repeated pk q

/-- Up to 254 words always find `in_rdy` high. -/
theorem inRdy_of_count {p : ProcParams} {i : Nat → PathIn} {s : Nat → OutputPortLookup}
    (hfollows : Follows (step p) i s) (hreset : ∀ t, (i t).reset = false)
    (hidle : (s 0).inputFifo.Vacant) (hcount : ∀ t, count (Offered.wr i) t ≤ 254) (t : Nat) :
    (s t).inRdy = true := by
  have hshows : (s t).inputFifo.Shows
      ((stamps (Offered.wr i) (Offered.rd i s) t).map fun u => (i u).word) := by
    refine FallthroughSmallFifo.shows_stamps (f := fun t => (s t).inputFifo) (fun u => ?_) hidle
      (FallthroughSmallFifo.roomy_of_count (fun u => Nat.le_trans (hcount u) (by decide)) t)
    rw [hfollows u, ← hreset u]
    rfl
  have hlen := length_rest_stamps_le (Offered.wr i) (Offered.rd i s) t
  have hdepth := hshows.rest.depth
  have hle := hcount t
  rw [Queue.length_rest_map] at hdepth
  rw [inRdy, FallthroughSmallFifo.nearlyFull, SmallFifo.nearlyFull, hdepth,
    decide_eq_false (by omega)]
  rfl

theorem offered_offer (p : ProcParams) (lut : Nat → Entry 248 320) (m1 m2 m3 : AppStore)
    (pk : Packet) {q : Nat → Bool} (outRdy : Nat → Bool) (hcount : ∀ t, count q t ≤ 254) :
    Offered p (fun _ => pk) (offer pk q outRdy)
      (run (step p) (start lut m1 m2 m3) (offer pk q outRdy)) where
  follows := follows_run _ _ _
  reset _ := rfl
  tableFlush _ := rfl
  idle := idle_start lut m1 m2 m3
  carries := carries_offer pk q outRdy
  inRdy t _ := inRdy_of_count (i := offer pk q outRdy) (follows_run (step p) _ _) (fun _ => rfl)
    (idle_start lut m1 m2 m3).inputFifo hcount t

end OutputPortLookup

end Sdpa.Hardware
