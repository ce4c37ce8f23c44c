import Sdpa.Hardware.StateProcessor
import Sdpa.Hardware.WildcardMatch

/-!
# From the flow table to the applications

`wildcard_match` and `state_processor` as `output_port_lookup` wires them. The
packets are numbered by their `flow_entry_vld` pulses. The processor takes the
packets in order, but it hands the first application the words that the FIFOs
show one cycle after the packet was taken: those of the next packet, if they were
there before.
-/
namespace Sdpa.Hardware

open Lib.Clocked Lib.Fallthrough

/-- The wires that come from `header_parser`, `opl_processor` and the register bus. -/
structure LookupIn extends FlowIn where
  wildcardWins : Bool
  wildcardLoses : Bool
  resultFifoRdEn : Bool
  matchRegIn : RegBus
  procRegIn : RegBus
  openflowTimer : BitVec 32
  tableFlush : Bool
  reset : Bool

structure StateLookup where
  wildcardMatch : WildcardMatch
  stateProcessor : StateProcessor

namespace StateLookup

variable (p : ProcParams) (x : LookupIn) (s : StateLookup)

def procIn : ProcIn where
  eventParamIn1 := s.wildcardMatch.stateEntryFifo.dout.eventParam1
  eventParamIn2 := s.wildcardMatch.stateEntryFifo.dout.eventParam2
  eventParamIn3 := s.wildcardMatch.stateEntryFifo.dout.eventParam3
  stateEntry := s.wildcardMatch.stateEntryFifo.dout.flowEntry
  flowEntrySrcPortIn := s.wildcardMatch.srcPortFifo.dout
  actionIn := s.wildcardMatch.actionFifo.dout
  actionFifoEmpty := s.wildcardMatch.actionFifo.empty
  resultFifoRdEn := x.resultFifoRdEn
  regIn := x.procRegIn
  tableFlush := x.tableFlush
  reset := x.reset

/-- The processor takes a packet in this cycle. -/
def rdEn : Bool :=
  s.stateProcessor.state = .waitForInput && !s.wildcardMatch.actionFifo.empty

def matchIn : MatchIn where
  toFlowIn := x.toFlowIn
  actionFifoRdEn := rdEn s
  wildcardWins := x.wildcardWins
  wildcardLoses := x.wildcardLoses
  regIn := x.matchRegIn
  openflowTimer := x.openflowTimer
  tableFlush := x.tableFlush
  reset := x.reset

def step : StateLookup where
  wildcardMatch := WildcardMatch.step (matchIn x s) s.wildcardMatch
  stateProcessor := StateProcessor.step p (procIn x s) s.stateProcessor

/-- What the first application is given. -/
def app1In : AppIn := StateProcessor.app1In (procIn x s) s.stateProcessor

/-- The request for a packet with this entry and action. -/
def requestOf (e : StateEntry) (action : BitVec 320) : Request :=
  ⟨e.eventParam3 ++ e.eventParam2 ++ e.eventParam1, e.flowEntry, StateProcessor.goToAppId action,
    action⟩

theorem requestOf_congr {e e' : StateEntry} {a a' : BitVec 320}
    (hevent : (requestOf e a).eventParam = (requestOf e' a').eventParam)
    (hmatch : (requestOf e a).matchField = (requestOf e' a').matchField)
    (haction : (requestOf e a).action = (requestOf e' a').action) :
    requestOf e a = requestOf e' a' := by
  simp only [requestOf] at hevent hmatch haction ⊢
  rw [hevent, hmatch, haction]

/-- The packets come past the initialisation, with no reset or flush. -/
structure Fed (p : ProcParams) (i : Nat → LookupIn) (s : Nat → StateLookup) : Prop where
  follows : Follows (step p) i s
  reset : ∀ t, (i t).reset = false
  tableFlush : ∀ t, (i t).tableFlush = false
  matchIdle : WildcardMatch.Idle (s 0).wildcardMatch
  procIdle : StateProcessor.Idle (s 0).stateProcessor

/-- The cycles in which packets come. -/
def vld (i : Nat → LookupIn) (t : Nat) : Bool := (i t).flowEntryVld

/-- The cycles in which packets are taken. -/
def rd (s : Nat → StateLookup) (t : Nat) : Bool := rdEn (s t)

/-- The packet that came in cycle `F`, with the action found for it. -/
def packet (i : Nat → LookupIn) (s : Nat → StateLookup) (F : Nat) : Request :=
  requestOf (i F).stateEntry (s (F + 4)).wildcardMatch.wildcardData

/-- None of the three FIFOs is written while it is full. -/
structure NoOverflow (i : Nat → LookupIn) (s : Nat → StateLookup) : Prop where
  srcPort : ∀ t, (s t).wildcardMatch.srcPortFifo.overflows (vld i t) (rd s t) = false
  stateEntry : ∀ t, (s t).wildcardMatch.stateEntryFifo.overflows (vld i t) (rd s t) = false
  action : ∀ t,
    (s t).wildcardMatch.actionFifo.overflows (s t).wildcardMatch.wildcardDataVld (rd s t) = false

/-- Idle tables with the given lines. -/
def start (lut : Nat → Entry 248 320) (m1 m2 m3 : AppStore) : StateLookup where
  wildcardMatch := .start lut
  stateProcessor := .start m1 m2 m3

/-- Packets with these words in the cycles of `q`, with a silent bus. -/
def feed (q : Nat → Bool) (e : Nat → StateEntry) (port : Nat → BitVec 8) (t : Nat) : LookupIn where
  flowEntry := (e t).flowEntry
  flowEntryVld := q t
  pktSize := 0
  flowEntrySrcPortParsed := port t
  eventParam1 := (e t).eventParam1
  eventParam2 := (e t).eventParam2
  eventParam3 := (e t).eventParam3
  wildcardWins := false
  wildcardLoses := false
  resultFifoRdEn := false
  matchRegIn := ⟨false, false, false, 0, 0, 0⟩
  procRegIn := ⟨false, false, false, 0, 0, 0⟩
  openflowTimer := 0
  tableFlush := false
  reset := false

theorem fed_start (p : ProcParams) (lut : Nat → Entry 248 320) (m1 m2 m3 : AppStore)
    (q : Nat → Bool) (e : Nat → StateEntry) (port : Nat → BitVec 8) :
    Fed p (feed q e port) (run (step p) (start lut m1 m2 m3) (feed q e port)) where
  follows := follows_run _ _ _
  reset _ := rfl
  tableFlush _ := rfl
  matchIdle := WildcardMatch.idle_start lut
  procIdle := StateProcessor.idle_start m1 m2 m3

namespace Fed

variable {p : ProcParams} {i : Nat → LookupIn} {s : Nat → StateLookup}

theorem serves (h : Fed p i s) : LookupTable.Serves WildcardMatch.tableParams
    (fun t => WildcardMatch.tableIn (matchIn (i t) (s t)))
    (fun t => (s t).wildcardMatch.wildcardCamLutSm) where
  regs t := by rw [h.follows t]; rfl
  pipe t := by rw [h.follows t]; rfl
  cam t := by rw [h.follows t]; rfl
  reset := h.reset
  tableFlush := h.tableFlush
  ready := h.matchIdle.ready

/-- A bus that only reads leaves the flow table as it is. -/
theorem lut_eq (h : Fed p i s) (hreads : ∀ t, (i t).matchRegIn.Reads)
    (hstart : LookupTable.Unwritten (s 0).wildcardMatch.wildcardCamLutSm) (t : Nat) :
    (s t).wildcardMatch.wildcardCamLutSm.lut = (s 0).wildcardMatch.wildcardCamLutSm.lut := by
  induction t with
  | zero => rfl
  | succ t ih =>
    have hunwritten := h.serves.unwritten hreads hstart t
    rw [h.follows t]
    exact (LookupTable.stepLut_of_unwritten hunwritten).trans ih

/-- Then a packet that comes in cycle `t` finds its action in that table. -/
theorem wildcardData_eq (h : Fed p i s) (hreads : ∀ t, (i t).matchRegIn.Reads)
    (hstart : LookupTable.Unwritten (s 0).wildcardMatch.wildcardCamLutSm) {t : Nat}
    (ht : vld i t = true) :
    (s (t + 4)).wildcardMatch.wildcardData = LookupTable.lookup WildcardMatch.tableParams
      (s 0).wildcardMatch.wildcardCamLutSm.lut (i t).flowEntry :=
  (h.serves.answer (t := t) ht rfl (h.lut_eq hreads hstart t)
    (h.lut_eq hreads hstart (t + 3))).2

/-- Actions come four cycles after their packets. -/
theorem wildcardDataVld (h : Fed p i s) (t : Nat) :
    (s t).wildcardMatch.wildcardDataVld = ago 4 (vld i) t :=
  h.serves.ack_eq_ago h.matchIdle.drained t

theorem stateEntryReq (h : Fed p i s) (t : Nat) :
    (s t).stateProcessor.stateEntryReq = ago 1 (rd s) t := by
  refine eq_ago_succ (q := fun t => (s t).stateProcessor.stateEntryReq) h.procIdle.stateEntryReq
    (fun t => ?_) t
  rw [ago_zero, h.follows t]
  show (!(i t).reset && rdEn (s t)) = _
  rw [h.reset t]
  rfl

/-! The FIFOs. -/

theorem srcPortFifo (h : Fed p i s) (t : Nat) : (s (t + 1)).wildcardMatch.srcPortFifo =
    (s t).wildcardMatch.srcPortFifo.step false (i t).flowEntrySrcPortParsed (vld i t) (rd s t) := by
  rw [h.follows t, ← h.reset t]
  rfl

theorem stateEntryFifo (h : Fed p i s) (t : Nat) : (s (t + 1)).wildcardMatch.stateEntryFifo =
    (s t).wildcardMatch.stateEntryFifo.step false (i t).stateEntry (vld i t) (rd s t) := by
  rw [h.follows t, ← h.reset t]
  rfl

theorem actionFifo (h : Fed p i s) (t : Nat) : (s (t + 1)).wildcardMatch.actionFifo =
    (s t).wildcardMatch.actionFifo.step false (s t).wildcardMatch.wildcardData (ago 4 (vld i) t)
      (rd s t) := by
  rw [h.follows t, ← h.reset t, ← h.wildcardDataVld t]
  rfl

/-- Eight packets always have room. -/
theorem noOverflow_of_count (h : Fed p i s) (hcount : ∀ t, count (vld i) t ≤ 8) :
    NoOverflow i s where
  srcPort := FallthroughSmallFifo.not_overflows_of_roomy h.srcPortFifo h.matchIdle.srcPortFifo
    (FallthroughSmallFifo.roomy_of_count hcount)
  stateEntry := FallthroughSmallFifo.not_overflows_of_roomy h.stateEntryFifo
    h.matchIdle.stateEntryFifo (FallthroughSmallFifo.roomy_of_count hcount)
  action t := by
    rw [h.wildcardDataVld t]
    refine FallthroughSmallFifo.not_overflows_of_roomy
      (f := fun t => (s t).wildcardMatch.actionFifo) h.actionFifo h.matchIdle.actionFifo
      (FallthroughSmallFifo.roomy_of_count fun t => ?_) t
    rw [count_ago]
    exact hcount (t - 4)

/-! ## When packets are taken -/

/-- The processor waits for the eight cycles after a packet was taken. -/
inductive Busy (rd : Nat → Bool) (t : Nat) : ProcState → BitVec 5 → Prop
  | free (counter : BitVec 5) (hlow : ∀ u, u < t → t < u + 9 → rd u = false) :
      Busy rd t .waitForInput counter
  | since (u : Nat) (counter : BitVec 5) (hu : rd u = true) (hcounter : counter.toNat + u + 1 = t)
      (hle : counter.toNat < 8) (hlow : ∀ v, u < v → v < t → rd v = false) :
      Busy rd t .waitForUpdate counter

theorem busy (h : Fed p i s) (t : Nat) :
    Busy (rd s) t (s t).stateProcessor.state (s t).stateProcessor.stateCounter := by
  induction t with
  | zero =>
    rw [h.procIdle.state]
    exact .free _ fun u hu => by omega
  | succ t ih =>
    have hstate : (s (t + 1)).stateProcessor.state =
        if rd s t then .waitForUpdate
        else if (s t).stateProcessor.stateCounter = 7 then .waitForInput
        else (s t).stateProcessor.state := by
      rw [h.follows t]
      show (if (i t).reset then _ else _) = _
      rw [h.reset t]
      rfl
    have hcounter : (s (t + 1)).stateProcessor.stateCounter =
        if (s t).stateProcessor.state = .waitForInput then 0
        else (s t).stateProcessor.stateCounter + 1 := by
      rw [h.follows t]
      show (if (i t).reset then _ else _) = _
      rw [h.reset t]
      rfl
    rw [hstate, hcounter]
    cases hrd : rd s t with
    | true =>
      have hwait : (s t).stateProcessor.state = .waitForInput := by
        rw [rd, rdEn, Bool.and_eq_true, decide_eq_true_eq] at hrd
        exact hrd.1
      rw [hwait]
      exact .since t 0 hrd (by simp) (by simp) fun v hv hvt => by omega
    | false =>
      generalize (s t).stateProcessor.state = state at ih
      generalize (s t).stateProcessor.stateCounter = counter at ih
      cases ih with
      | free _ hlow =>
        have hsame : (if counter = 7 then ProcState.waitForInput else .waitForInput) =
            .waitForInput := ite_self _
        rw [if_neg Bool.false_ne_true, hsame]
        refine .free _ fun u hu hut => ?_
        by_cases hue : u = t
        · exact hue ▸ hrd
        · exact hlow u (by omega) (by omega)
      | since u _ hu hcount hle hlow =>
        have hlow' : ∀ v, u < v → v < t + 1 → rd s v = false := by
          intro v hv hvt
          by_cases hve : v = t
          · exact hve ▸ hrd
          · exact hlow v hv (by omega)
        rw [if_neg Bool.false_ne_true]
        by_cases h7 : counter = 7
        · rw [if_pos h7]
          subst h7
          exact .free _ fun v hv hvt => hlow' v (by simp at hcount; omega) hv
        · have hlt : counter.toNat ≠ 7 := fun heq => h7 (BitVec.eq_of_toNat_eq heq)
          have hsucc : (counter + 1).toNat = counter.toNat + 1 := by
            rw [BitVec.toNat_add_of_lt (by simp; omega)]
            rfl
          rw [if_neg h7, if_neg (by decide)]
          exact .since u _ hu (by omega) (by omega) hlow'

/-- Packets are taken at least nine cycles apart. -/
theorem rd_spaced (h : Fed p i s) : Spaced 9 (rd s) := by
  intro t u ht hu htu
  have hwait : (s u).stateProcessor.state = .waitForInput := by
    rw [rd, rdEn, Bool.and_eq_true, decide_eq_true_eq] at hu
    exact hu.1
  have hbusy := h.busy u
  rw [hwait] at hbusy
  cases hbusy with
  | free _ hlow =>
    by_contra hlt
    rw [hlow t htu (by omega)] at ht
    cases ht

variable (h : Fed p i s) (hno : NoOverflow i s)

include h hno

theorem stateEntryRoomy (t : Nat) : FallthroughSmallFifo.Roomy 3 (vld i) (rd s) t :=
  FallthroughSmallFifo.roomy_of_not_overflows h.stateEntryFifo h.matchIdle.stateEntryFifo
    hno.stateEntry t

theorem actionRoomy (t : Nat) : FallthroughSmallFifo.Roomy 3 (ago 4 (vld i)) (rd s) t :=
  FallthroughSmallFifo.roomy_of_not_overflows h.actionFifo h.matchIdle.actionFifo
    (fun t => h.wildcardDataVld t ▸ hno.action t) t

/-- An action is taken only when one is shown. -/
theorem actionOnDemand : OnDemand (ago 4 (vld i)) (rd s) := by
  intro t ht
  have hshows := FallthroughSmallFifo.shows_stamps
    (f := fun t => (s t).wildcardMatch.actionFifo) h.actionFifo h.matchIdle.actionFifo
    (h.actionRoomy hno t)
  rw [rd, rdEn, Bool.and_eq_true, Bool.not_eq_true', hshows.empty] at ht
  exact ht.2

/-- A packet is taken as soon as it is six cycles old and the one before it was taken nine cycles
ago. -/
theorem rd_iff (t : Nat) : rd s t = true ↔
    (∀ u, u < t → t < u + 9 → rd s u = false) ∧ count (rd s) t < count (vld i) (t - 5) := by
  have hshows := FallthroughSmallFifo.shows_stamps
    (f := fun t => (s t).wildcardMatch.actionFifo) h.actionFifo h.matchIdle.actionFifo
    (h.actionRoomy hno t)
  have hempty : (s t).wildcardMatch.actionFifo.empty =
      decide (count (vld i) (t - 5) ≤ count (rd s) t) := by
    rw [hshows.empty]
    show (stamps (ago 4 (vld i)) (rd s) t).empty = _
    rw [empty_stamps (h.actionOnDemand hno) t, count_ago, Nat.sub_sub]
  have hbusy := h.busy t
  rw [rd, rdEn, hempty, Bool.and_eq_true, decide_eq_true_eq, Bool.not_eq_true',
    decide_eq_false_iff_not, Nat.not_le]
  refine and_congr_left fun _ => ?_
  generalize (s t).stateProcessor.state = state at hbusy
  generalize (s t).stateProcessor.stateCounter = counter at hbusy
  cases hbusy with
  | free _ hlow => exact ⟨fun _ => hlow, fun _ => rfl⟩
  | since u _ hu hcount hle hlow =>
    refine ⟨fun hwait => (by cases hwait), fun hnone => ?_⟩
    rw [hnone u (by omega) (by omega)] at hu
    cases hu

/-- A packet is taken when those before it were and nine cycles have passed. -/
theorem taken_of_free {k F B : Nat} (hF : IsNth (vld i) k F) (hB : k ≤ count (rd s) B)
    (hfree : ∀ u, rd s u = true → count (rd s) u < k → u + 9 ≤ B) : ∃ A, IsNth (rd s) k A := by
  by_cases hlt : k < count (rd s) (max B (F + 6))
  · obtain ⟨A, -, hA⟩ := exists_nth hlt
    exact ⟨A, hA⟩
  · have hcount : count (rd s) (max B (F + 6)) = k :=
      Nat.le_antisymm (Nat.le_of_not_lt hlt)
        (Nat.le_trans hB (count_mono _ (Nat.le_max_left _ _)))
    refine ⟨max B (F + 6), (h.rd_iff hno _).mpr ⟨fun u hu hut => ?_, ?_⟩, hcount⟩
    · rw [Bool.eq_false_iff]
      intro hrd
      have hbefore : count (rd s) u < k := by
        rw [← hcount]
        exact Nat.count_strict_mono hrd hu
      have := hfree u hrd hbefore
      omega
    · rw [hcount]
      exact (hF.lt_iff _).mpr (by omega)

/-- Every packet is taken in the end. -/
theorem taken_of_vld {k F : Nat} (hF : IsNth (vld i) k F) : ∃ A, IsNth (rd s) k A := by
  induction k generalizing F with
  | zero =>
    exact h.taken_of_free hno (B := 0) hF (Nat.zero_le _) fun u _ hu => absurd hu (Nat.not_lt_zero _)
  | succ k ih =>
    obtain ⟨G, -, hG⟩ := exists_nth (p := vld i) (k := k) (t := F) (by rw [hF.before]; omega)
    obtain ⟨A, hA⟩ := ih hG
    refine h.taken_of_free hno (B := A + 9) hF ((hA.lt_iff _).mpr (by omega)) fun u hu hlt => ?_
    by_contra hlate
    have := (hA.lt_iff u).mpr (by omega)
    omega

/-- The other words of a packet are there before its action. -/
theorem entryOnDemand : OnDemand (vld i) (rd s) := (h.actionOnDemand hno).of_ago

/-- The entry shown in the cycle after a packet was taken. -/
theorem entry_after {A F : Nat} (hA : rd s A = true) (hF : IsNth (vld i) (count (rd s) A) F) :
    ∃ u, (s (A + 1)).wildcardMatch.stateEntryFifo.dout = (i u).stateEntry ∧
      ((u = F ∧ ∀ G, IsNth (vld i) (count (rd s) A + 1) G → A ≤ G) ∨
        (IsNth (vld i) (count (rd s) A + 1) u ∧ u < A)) :=
  FallthroughSmallFifo.dout_after_demand (f := fun t => (s t).wildcardMatch.stateEntryFifo)
    h.stateEntryFifo h.matchIdle.stateEntryFifo (h.stateEntryRoomy hno) (h.entryOnDemand hno) hA hF

/-- The action shown then. -/
theorem action_after {A F : Nat} (hA : rd s A = true) (hF : IsNth (vld i) (count (rd s) A) F) :
    ∃ u, (s (A + 1)).wildcardMatch.actionFifo.dout = (s (u + 4)).wildcardMatch.wildcardData ∧
      ((u = F ∧ ∀ G, IsNth (vld i) (count (rd s) A + 1) G → A ≤ G + 4) ∨
        (IsNth (vld i) (count (rd s) A + 1) u ∧ u + 4 < A)) := by
  obtain ⟨v, hdout, hv⟩ := FallthroughSmallFifo.dout_after_demand
    (f := fun t => (s t).wildcardMatch.actionFifo) h.actionFifo h.matchIdle.actionFifo
    (h.actionRoomy hno) (h.actionOnDemand hno) hA (hF.ago 4)
  rcases hv with ⟨rfl, hlast⟩ | ⟨hnth, hlt⟩
  · exact ⟨F, hdout, .inl ⟨rfl, fun G hG => hlast (G + 4) (hG.ago 4)⟩⟩
  · obtain ⟨u, rfl, hu⟩ := hnth.of_ago
    exact ⟨u, hdout, .inr ⟨hu, hlt⟩⟩

end Fed

/-- Every packet that is taken is asked for in the next cycle, with its own words; so the requests
are the packets, all of them and in order. -/
structure RequestsCarry (i : Nat → LookupIn) (s : Nat → StateLookup) : Prop where
  asked : ∀ A F, rd s A = true → IsNth (vld i) (count (rd s) A) F →
    (app1In (i (A + 1)) (s (A + 1))).matchFieldVld = true ∧
      (app1In (i (A + 1)) (s (A + 1))).request = packet i s F
  inOrder : ∀ t k, IsNth (fun u => (app1In (i u) (s u)).matchFieldVld) k t →
    ∃ F, IsNth (vld i) k F ∧ (app1In (i t) (s t)).request = packet i s F
  all : ∀ k F, IsNth (vld i) k F → ∃ t, IsNth (fun u => (app1In (i u) (s u)).matchFieldVld) k t

/-- When a packet is taken and the next one is already in a FIFO, that one has the same word
there. -/
def NextAlike (i : Nat → LookupIn) (s : Nat → StateLookup) : Prop :=
  ∀ A F G, rd s A = true → IsNth (vld i) (count (rd s) A) F →
    IsNth (vld i) (count (rd s) A + 1) G →
    (G < A → (packet i s G).eventParam = (packet i s F).eventParam ∧
      (packet i s G).matchField = (packet i s F).matchField) ∧
    (G + 4 < A → (packet i s G).action = (packet i s F).action)

/-- Packets that come without overflow are asked for with their own words, if and only if the next
packet is not yet in the FIFOs when a packet is taken, or has the same words. -/
theorem requestsCarry_iff {p : ProcParams} {i : Nat → LookupIn} {s : Nat → StateLookup}
    (h : Fed p i s) (hno : NoOverflow i s) : RequestsCarry i s ↔ NextAlike i s := by
  constructor
  · intro hcarry A F G hA hF hG
    have hown := (hcarry.asked A F hA hF).2
    refine ⟨fun hlt => ?_, fun hlt => ?_⟩
    · obtain ⟨u, hdout, hu⟩ := h.entry_after hno hA hF
      rcases hu with ⟨-, hlast⟩ | ⟨hnth, -⟩
      · have := hlast G hG
        omega
      · rw [← hown, ← hnth.unique hG]
        simp only [packet, requestOf, ← hdout]
        exact ⟨rfl, rfl⟩
    · obtain ⟨u, hdout, hu⟩ := h.action_after hno hA hF
      rcases hu with ⟨-, hlast⟩ | ⟨hnth, -⟩
      · have := hlast G hG
        omega
      · rw [← hown, ← hnth.unique hG]
        exact hdout.symm
  · intro hnext
    have hasked : ∀ A F, rd s A = true → IsNth (vld i) (count (rd s) A) F →
        (app1In (i (A + 1)) (s (A + 1))).matchFieldVld = true ∧
          (app1In (i (A + 1)) (s (A + 1))).request = packet i s F := by
      intro A F hA hF
      refine ⟨?_, ?_⟩
      · show (s (A + 1)).stateProcessor.stateEntryReq = true
        rw [h.stateEntryReq, ago_add, hA]
      · obtain ⟨u, hentry, hu⟩ := h.entry_after hno hA hF
        obtain ⟨v, haction, hv⟩ := h.action_after hno hA hF
        have hwords : (packet i s u).eventParam = (packet i s F).eventParam ∧
            (packet i s u).matchField = (packet i s F).matchField := by
          rcases hu with ⟨rfl, -⟩ | ⟨hnth, hlt⟩
          · exact ⟨rfl, rfl⟩
          · exact (hnext A F u hA hF hnth).1 hlt
        have hfound : (packet i s v).action = (packet i s F).action := by
          rcases hv with ⟨rfl, -⟩ | ⟨hnth, hlt⟩
          · rfl
          · exact (hnext A F v hA hF hnth).2 hlt
        show requestOf (s (A + 1)).wildcardMatch.stateEntryFifo.dout
          (s (A + 1)).wildcardMatch.actionFifo.dout = _
        rw [hentry, haction]
        exact requestOf_congr hwords.1 hwords.2 hfound
    have hreq : (fun u => (app1In (i u) (s u)).matchFieldVld) = ago 1 (rd s) :=
      funext h.stateEntryReq
    refine ⟨hasked, fun t k ht => ?_, fun k F hF => ?_⟩
    · rw [hreq] at ht
      obtain ⟨A, rfl, hA⟩ := ht.of_ago
      obtain ⟨F, -, hF⟩ := written_of_read (h.entryOnDemand hno) hA.pulse
      exact ⟨F, hA.before ▸ hF, (hasked A F hA.pulse hF).2⟩
    · obtain ⟨A, hA⟩ := h.taken_of_vld hno hF
      rw [hreq]
      exact ⟨A + 1, hA.ago 1⟩

/-! The two packets of the test bench, through tables as reset leaves them. -/

def afterReset : StateLookup :=
  start WildcardMatch.tableParams.resetEntry
    (.afterReset (StateProcessor.appParams 1 StateProcessor.params.app1))
    (.afterReset (StateProcessor.appParams 2 StateProcessor.params.app2))
    (.afterReset (StateProcessor.appParams 3 StateProcessor.params.app3))

def twoEntries (t : Nat) : StateEntry :=
  ⟨2, 0, 0, if t = 0 then StatefulApp.flowEntry else StatefulApp.flowEntry2⟩

/-- Packets come in cycle 0 and in cycle `d`. -/
def apart (d t : Nat) : Bool := t == 0 || t == d

theorem count_apart_le {d : Nat} (hd : count (apart d) (d + 1) ≤ 8) (t : Nat) :
    count (apart d) t ≤ 8 := by
  refine Nat.le_trans (count_le_of_low (n := d + 1) (fun u hu => ?_) t) hd
  show (u == 0 || u == d) = false
  rw [beq_false_of_ne (by omega), beq_false_of_ne (by omega)]
  rfl

/-- The first packet is taken in cycle 6. -/
theorem Fed.rd_of_apart {p : ProcParams} {i : Nat → LookupIn} {s : Nat → StateLookup}
    (h : Fed p i s) (hno : NoOverflow i s) {d : Nat} (hvld : vld i = apart d) :
    count (rd s) 6 = 0 ∧ rd s 6 = true := by
  have hlow : ∀ u, u < 6 → rd s u = false := by
    intro u hu
    rw [Bool.eq_false_iff]
    intro hrd
    have hlt := ((h.rd_iff hno u).mp hrd).2
    rw [show u - 5 = 0 by omega, count_zero] at hlt
    omega
  have hzero : count (rd s) 6 = 0 := count_eq_of_low (Nat.zero_le 6) fun u _ hu => hlow u hu
  refine ⟨hzero, (h.rd_iff hno 6).mpr ⟨fun u hu _ => hlow u hu, ?_⟩⟩
  rw [hzero, hvld, count_succ]
  exact Nat.succ_pos _

/-- The second packet comes after the first was taken. -/
theorem requestsCarry_twoPackets :
    let i := feed (apart 9) twoEntries fun _ => 1
    let s := run (step StateProcessor.params) afterReset i
    RequestsCarry i s := by
  intro i s
  have h : Fed StateProcessor.params i s := fed_start _ _ _ _ _ _ _ _
  have hno := h.noOverflow_of_count (count_apart_le (d := 9) (by decide))
  refine (requestsCarry_iff h hno).mpr ?_
  intro A F G hA _ hG
  obtain ⟨-, hsix⟩ := h.rd_of_apart hno (d := 9) rfl
  have hcases : G = 0 ∨ G = 9 := by simpa [i, vld, feed, apart] using hG.pulse
  have hbefore := hG.before
  rcases hcases with rfl | rfl
  · rw [count_zero] at hbefore
    omega
  · have htwo : count (vld i) 9 = 1 := by decide
    have hle : A ≤ 6 := by
      by_contra hlt
      have hcount : count (rd s) 6 < count (rd s) A := Nat.count_strict_mono hsix (by omega)
      omega
    exact ⟨fun hlt => by omega, fun hlt => by omega⟩

/-- The second packet comes four cycles after the first and is asked for in its place. -/
theorem next_of_fourApart {p : ProcParams} {port : Nat → BitVec 8} {s : Nat → StateLookup}
    (h : Fed p (feed (apart 4) twoEntries port) s) :
    NoOverflow (feed (apart 4) twoEntries port) s ∧
      rd s 6 = true ∧ IsNth (apart 4) (count (rd s) 6) 0 ∧
      (app1In (feed (apart 4) twoEntries port 7) (s 7)).request.matchField =
        StatefulApp.flowEntry2 := by
  have hno : NoOverflow (feed (apart 4) twoEntries port) s :=
    h.noOverflow_of_count (count_apart_le (d := 4) (by decide))
  obtain ⟨hzero, hsix⟩ := h.rd_of_apart hno (d := 4) rfl
  have hfirst : IsNth (apart 4) (count (rd s) 6) 0 := ⟨rfl, by rw [hzero, count_zero]⟩
  have hsecond : IsNth (apart 4) (count (rd s) 6 + 1) 4 := ⟨rfl, by rw [hzero]; decide⟩
  refine ⟨hno, hsix, hfirst, ?_⟩
  obtain ⟨u, hdout, hu⟩ := h.entry_after hno hsix hfirst
  rcases hu with ⟨-, hlast⟩ | ⟨hnth, -⟩
  · have := hlast 4 hsecond
    omega
  · have hfour : u = 4 := hnth.unique hsecond
    subst hfour
    exact congrArg StateEntry.flowEntry hdout

theorem next_packet_asked_for :
    let i := feed (apart 4) twoEntries fun _ => 1
    let s := run (step StateProcessor.params) afterReset i
    Fed StateProcessor.params i s ∧ NoOverflow i s ∧
      rd s 6 = true ∧ IsNth (vld i) (count (rd s) 6) 0 ∧
      (app1In (i 7) (s 7)).request.matchField = StatefulApp.flowEntry2 ∧
      (packet i s 0).matchField = StatefulApp.flowEntry := by
  intro i s
  have h : Fed StateProcessor.params i s := fed_start _ _ _ _ _ _ _ _
  obtain ⟨hno, hsix, hfirst, hnext⟩ := next_of_fourApart h
  exact ⟨h, hno, hsix, hfirst, hnext, rfl⟩

end StateLookup

end Sdpa.Hardware
