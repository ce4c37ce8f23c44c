import Sdpa.Hardware.AppPipeline

/-!
# Initialisation

After a reset the tables are written line by line and are ready ten cycles
later, each with its reset entries. An application that gets no request and no
register write in that time is then idle.
-/
namespace Sdpa.Hardware

open Lib.Clocked Lib.Fallthrough

namespace LookupTable

variable {c d : Nat} {p : TableParams c d} {i : TableIn c} {s s' : LookupTable c d}

/-- `k` lines are under way: all but the last are in the table, the last is in the registers of the
write port. -/
structure Filling (p : TableParams c d) (k : Nat) (s : LookupTable c d) : Prop where
  state : s.pipe.state = .reset
  count : s.pipe.resetCount = k
  drained : Drained s.pipe
  we : s.pipe.camWe = decide (0 < k)
  port : ∀ n, n + 1 = k → s.pipe.camWrAddr = n ∧
    ⟨s.pipe.camDataMask, s.pipe.camDin, s.pipe.lutWrData⟩ = p.resetEntry n
  lut : ∀ n, n + 1 < k → s.lut n = p.resetEntry n
  waits : s.regs.regState = .waitForRequest
  wrReq : s.regs.wrReq = false
  reads : s.regs.regOut.Reads

/-- A cycle of initialisation in which the bus does not write. -/
structure Fills (p : TableParams c d) (i : TableIn c) (s s' : LookupTable c d) : Prop where
  regs : s'.regs = stepRegs p i s
  pipe : s'.pipe = stepPipe p i s
  lut : s'.lut = stepLut s
  reset : i.reset = false
  tableFlush : i.tableFlush = false
  reads : i.regIn.Reads

theorem filling_of_reset (hreset : i.reset = true) (hregs : s'.regs = stepRegs p i s)
    (hpipe : s'.pipe = stepPipe p i s) : Filling p 0 s' := by
  rw [stepRegs, hreset, if_pos rfl] at hregs
  rw [stepPipe, hreset, Bool.true_or, if_pos rfl] at hpipe
  exact ⟨by rw [hpipe]; rfl, by rw [hpipe]; rfl, by rw [hpipe]; exact ⟨rfl, rfl, rfl, rfl⟩,
    by rw [hpipe]; rfl, fun n hn => by omega, fun n hn => by omega, by rw [hregs],
    by rw [hregs], by rw [hregs]; exact fun h => by cases h⟩

/-- Lines are written in order, one in each cycle. -/
theorem Filling.stepLut {k : Nat} (h : Filling p k s) {n : Nat} (hn : n < k) :
    LookupTable.stepLut s n = p.resetEntry n := by
  rw [LookupTable.stepLut, h.we, decide_eq_true (by omega : 0 < k), if_pos rfl]
  obtain ⟨haddr, hline⟩ := h.port (k - 1) (by omega)
  rw [haddr, hline]
  by_cases hlast : n = k - 1
  · rw [hlast, Function.update_self]
  · rw [Function.update_of_ne hlast, h.lut n (by omega)]

theorem Fills.pipe_eq {k : Nat} (h : Fills p i s s') (hfill : Filling p k s) :
    s'.pipe = resetCycle p s.pipe := by
  rw [h.pipe, stepPipe, h.reset, h.tableFlush, hfill.state]
  rfl

theorem Filling.succ {k : Nat} (hfill : Filling p k s) (h : Fills p i s s')
    (hk : k < p.lutDepth) : Filling p (k + 1) s' := by
  have hregs := stepRegs_of_reads (p := p) h.reset hfill.waits h.reads
  rw [← h.regs] at hregs
  have hcycle := h.pipe_eq hfill
  rw [resetCycle, if_neg (by simp only [hfill.count]; omega)] at hcycle
  have haddr : k % 2 ^ log2 p.lutDepth = k :=
    Nat.mod_eq_of_lt (Nat.lt_of_lt_of_le hk (Nat.le_pow_clog (by omega) p.lutDepth))
  refine ⟨by rw [hcycle]; exact hfill.state, by rw [hcycle]; exact congrArg (· + 1) hfill.count,
    by rw [hcycle]; exact ⟨rfl, rfl, hfill.drained.encoded, rfl⟩, by rw [hcycle]; simp,
    fun n hn => ?_, fun n hn => ?_, hregs.1, hregs.2.1, hregs.2.2⟩
  · obtain rfl : n = k := by omega
    rw [hcycle]
    simp only [hfill.count, haddr]
    exact ⟨trivial, trivial⟩
  · rw [h.lut]
    exact hfill.stepLut (by omega)

/-- After the last line the table is ready with its reset entries. -/
theorem Filling.ready (hfill : Filling p p.lutDepth s) (h : Fills p i s s') :
    s'.pipe.state = .ready ∧ Drained s'.pipe ∧ Unwritten s' ∧
      ∀ n, n < p.lutDepth → s'.lut n = p.resetEntry n := by
  have hregs := stepRegs_of_reads (p := p) h.reset hfill.waits h.reads
  rw [← h.regs] at hregs
  have hcycle := h.pipe_eq hfill
  rw [resetCycle, if_pos hfill.count] at hcycle
  refine ⟨by rw [hcycle], by rw [hcycle]; exact ⟨rfl, rfl, hfill.drained.encoded, rfl⟩,
    ⟨hregs.1, hregs.2.1, by rw [hcycle], hregs.2.2⟩, fun n hn => ?_⟩
  rw [h.lut]
  exact hfill.stepLut hn

end LookupTable

namespace StatefulApp

variable {a : AppParams} {i : Nat → AppIn} {s : Nat → StatefulApp}

/-- An application that is reset in cycle zero and left alone for nine cycles. -/
structure Resets (a : AppParams) (i : Nat → AppIn) (s : Nat → StatefulApp) : Prop where
  follows : Follows (step a) i s
  start : (i 0).reset = true
  reset : ∀ t, 0 < t → t < 10 → (i t).reset = false
  tableFlush : ∀ t, 0 < t → t < 10 → (i t).tableFlush = false
  reads : ∀ t, 0 < t → t < 10 → (i t).regIn.Reads
  low : ∀ t, 0 < t → t < 10 → vld i t = false

theorem waiting_of_reset {x : AppIn} (h : x.reset = true) (s : StatefulApp) :
    Waiting (step a x s) := by
  have hbuf : ∀ (b : StatefulAppBuffer) (v : Bool) n, b.step true v n = false := by
    intro b v n
    cases n <;> rfl
  refine ⟨?_, ?_, ?_, ?_, ?_, ?_, ?_, ?_, ?_, ?_, ?_, ?_⟩ <;> simp only [step, h]
  iterate 5 exact FallthroughSmallFifo.vacant_of_reset _ _ _ _
  iterate 4 exact hbuf _ _
  · rfl
  · exact fun n _ => by simp [ActionModifier.step]
  · rfl

theorem Waiting.step {x : AppIn} {s : StatefulApp} (h : Waiting s) (hreset : x.reset = false)
    (hlow : x.matchFieldVld = false) (hat : s.atCamLutSm.pipe.lookupAck = false) :
    Waiting (step a x s) := by
  have hbuf : ∀ {b : StatefulAppBuffer}, (∀ n, b n = false) → ∀ n, b.step false false n = false := by
    intro b hb n
    cases n with
    | zero => rfl
    | succ n => exact hb n
  refine ⟨?_, ?_, ?_, ?_, ?_, ?_, ?_, ?_, ?_, ?_, ?_, ?_⟩ <;>
    simp only [StatefulApp.step, hreset, hlow, hat]
  · exact h.outputFifo.step _ _
  · exact h.sttFifo.step _ _
  · exact h.atFifo.step _ _
  · exact h.amFifo.step _ _
  · exact h.stFifo.step _ _
  · exact hbuf h.sttFifoEnBuf
  · exact hbuf h.atFifoEnBuf
  · exact hbuf h.amFifoEnBuf
  · exact hbuf h.stFifoEnBuf
  · rfl
  · exact h.high
  · rw [h.modificationDone]
    rfl

/-- The three tables are initialised side by side. -/
structure Initialising (a : AppParams) (k : Nat) (s : StatefulApp) : Prop where
  st : LookupTable.Filling a.stParams k s.stateCamLutSm
  stt : LookupTable.Filling a.sttParams k s.sttCamLutSm
  at' : LookupTable.Filling a.atParams k s.atCamLutSm
  waiting : Waiting s
  updateAddr : s.updateAddr = 0

namespace Initialising

variable {k : Nat} {x : AppIn} {s : StatefulApp}

theorem stFills (h : Initialising a k s) (hreset : x.reset = false) (hflush : x.tableFlush = false)
    (hreads : x.regIn.Reads) :
    LookupTable.Fills a.stParams (stateIn x) s.stateCamLutSm (step a x s).stateCamLutSm :=
  ⟨rfl, rfl, Update.apply_of_not_req h.stt.drained.ack _ _, hreset, hflush, hreads⟩

theorem sttFills (h : Initialising a k s) (hreset : x.reset = false)
    (hflush : x.tableFlush = false) :
    LookupTable.Fills a.sttParams (sttIn x s) s.sttCamLutSm (step a x s).sttCamLutSm :=
  ⟨rfl, rfl, rfl, hreset, hflush, h.at'.reads⟩

theorem atFills (h : Initialising a k s) (hreset : x.reset = false)
    (hflush : x.tableFlush = false) :
    LookupTable.Fills a.atParams (atIn x s) s.atCamLutSm (step a x s).atCamLutSm :=
  ⟨rfl, rfl, rfl, hreset, hflush, h.st.reads⟩

theorem updateAddr_step (h : Initialising a k s) (hreset : x.reset = false) :
    (step a x s).updateAddr = 0 := by
  show stepUpdateAddr x s = 0
  rw [stepUpdateAddr, hreset, h.st.drained.ack, Bool.and_false]
  exact h.updateAddr

end Initialising

theorem Resets.initialising (h : Resets a i s) {k : Nat} (hk : k ≤ 8) :
    Initialising a k (s (k + 1)) := by
  induction k with
  | zero =>
    rw [h.follows 0]
    exact ⟨LookupTable.filling_of_reset h.start rfl rfl, LookupTable.filling_of_reset h.start rfl rfl,
      LookupTable.filling_of_reset h.start rfl rfl, waiting_of_reset h.start _, if_pos h.start⟩
  | succ k ih =>
    have hk' := ih (by omega)
    have hreset := h.reset (k + 1) (by omega) (by omega)
    have hflush := h.tableFlush (k + 1) (by omega) (by omega)
    rw [h.follows (k + 1)]
    exact ⟨hk'.st.succ (hk'.stFills hreset hflush (h.reads (k + 1) (by omega) (by omega))) hk,
      hk'.stt.succ (hk'.sttFills hreset hflush) hk, hk'.at'.succ (hk'.atFills hreset hflush) hk,
      hk'.waiting.step hreset (h.low (k + 1) (by omega) (by omega)) hk'.at'.drained.ack,
      hk'.updateAddr_step hreset⟩

/-- Ten cycles after a reset the application is idle, with the reset entries in its tables. -/
theorem Resets.idle (h : Resets a i s) :
    Idle (s 10) ∧ (s 10).updateAddr = 0 ∧
      (∀ n, n < 8 → (s 10).stateCamLutSm.lut n = a.stParams.resetEntry n) ∧
      (∀ n, n < 8 → (s 10).sttCamLutSm.lut n = a.sttParams.resetEntry n) ∧
      ∀ n, n < 8 → (s 10).atCamLutSm.lut n = a.atParams.resetEntry n := by
  have hlast : Initialising a 8 (s 9) := h.initialising (Nat.le_refl 8)
  have hreset := h.reset 9 (by omega) (by omega)
  have hflush := h.tableFlush 9 (by omega) (by omega)
  rw [h.follows 9]
  obtain ⟨stReady, st, stUnwritten, stLut⟩ :=
    hlast.st.ready (hlast.stFills hreset hflush (h.reads 9 (by omega) (by omega)))
  obtain ⟨sttReady, stt, sttUnwritten, sttLut⟩ := hlast.stt.ready (hlast.sttFills hreset hflush)
  obtain ⟨atReady, at', atUnwritten, atLut⟩ := hlast.at'.ready (hlast.atFills hreset hflush)
  have hwaiting : Waiting (step a (i 9) (s 9)) :=
    hlast.waiting.step hreset (h.low 9 (by omega) (by omega)) hlast.at'.drained.ack
  exact ⟨⟨hwaiting, stReady, sttReady, atReady, st, stt, at', stUnwritten, sttUnwritten, atUnwritten⟩,
    hlast.updateAddr_step hreset, stLut, sttLut, atLut⟩

/-- From then on it runs. -/
theorem Resets.runs (h : Resets a i s) (hreset : ∀ t, (i (t + 10)).reset = false)
    (hflush : ∀ t, (i (t + 10)).tableFlush = false) (hreads : ∀ t, (i (t + 10)).regIn.Reads) :
    Runs a (fun t => i (t + 10)) (fun t => s (t + 10)) where
  follows t := h.follows (t + 10)
  reset := hreset
  tableFlush := hflush
  reads := hreads
  idle := h.idle.1

end StatefulApp

end Sdpa.Hardware
