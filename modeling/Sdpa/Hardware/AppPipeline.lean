import Sdpa.Hardware.AppSequence

/-!
# The pipeline of an application

A request goes through the application in fourteen cycles: the state table
answers after four, the transition table after eight, when the state is written
back, the action table after twelve. With requests at least nine cycles apart the
state table in cycle `t + 8` is what the requests before `t` leave when they are
served one at a time, so that every request reads what the last one wrote.
-/
namespace Sdpa.Hardware

open Lib.Clocked Lib.Fallthrough

namespace StatefulApp

/-- No request is under way outside the tables. -/
structure Waiting (s : StatefulApp) : Prop where
  outputFifo : s.outputFifo.Vacant
  sttFifo : s.sttFifo.Vacant
  atFifo : s.atFifo.Vacant
  amFifo : s.amFifo.Vacant
  stFifo : s.stFifo.Vacant
  sttFifoEnBuf : ∀ n, s.sttFifoEnBuf n = false
  atFifoEnBuf : ∀ n, s.atFifoEnBuf n = false
  amFifoEnBuf : ∀ n, s.amFifoEnBuf n = false
  stFifoEnBuf : ∀ n, s.stFifoEnBuf n = false
  modificationDone : s.am.modificationDone = false
  high : ∀ n, 256 ≤ n → s.am.actionOut.getLsbD n = false
  appDone : s.appDone = false

/-- No request is under way and nothing is being written to the tables. -/
structure Idle (s : StatefulApp) : Prop extends Waiting s where
  stReady : s.stateCamLutSm.pipe.state = .ready
  sttReady : s.sttCamLutSm.pipe.state = .ready
  atReady : s.atCamLutSm.pipe.state = .ready
  st : LookupTable.Drained s.stateCamLutSm.pipe
  stt : LookupTable.Drained s.sttCamLutSm.pipe
  at' : LookupTable.Drained s.atCamLutSm.pipe
  stUnwritten : LookupTable.Unwritten s.stateCamLutSm
  sttUnwritten : LookupTable.Unwritten s.sttCamLutSm
  atUnwritten : LookupTable.Unwritten s.atCamLutSm

/-- The tables as they are at the start. -/
def store (s : StatefulApp) : AppStore where
  st := s.stateCamLutSm.lut
  stt := s.sttCamLutSm.lut
  at' := s.atCamLutSm.lut
  updateAddr := s.updateAddr

/-- An idle application with the given tables. -/
def start (m : AppStore) : StatefulApp where
  stateCamLutSm := .start m.st
  sttCamLutSm := .start m.stt
  atCamLutSm := .start m.at'
  am := ⟨0, false⟩
  outputFifo := .start ⟨0, 0, 0, 0⟩
  sttFifo := .start 0
  sttFifoEnBuf := fun _ => false
  atFifo := .start 0
  atFifoEnBuf := fun _ => false
  amFifo := .start 0
  amFifoEnBuf := fun _ => false
  stFifo := .start 0
  stFifoEnBuf := fun _ => false
  updateAddr := m.updateAddr
  actionNextAppD2 := 0
  out := ⟨0, 0, 0, 0⟩
  appDone := false

theorem idle_start (m : AppStore) : Idle (start m) where
  stReady := rfl
  sttReady := rfl
  atReady := rfl
  st := ⟨rfl, rfl, rfl, rfl⟩
  stt := ⟨rfl, rfl, rfl, rfl⟩
  at' := ⟨rfl, rfl, rfl, rfl⟩
  stUnwritten := LookupTable.unwritten_start m.st
  sttUnwritten := LookupTable.unwritten_start m.stt
  atUnwritten := LookupTable.unwritten_start m.at'
  outputFifo := ⟨rfl, rfl, rfl⟩
  sttFifo := ⟨rfl, rfl, rfl⟩
  atFifo := ⟨rfl, rfl, rfl⟩
  amFifo := ⟨rfl, rfl, rfl⟩
  stFifo := ⟨rfl, rfl, rfl⟩
  sttFifoEnBuf _ := rfl
  atFifoEnBuf _ := rfl
  amFifoEnBuf _ := rfl
  stFifoEnBuf _ := rfl
  modificationDone := rfl
  high n _ := by simp [start]
  appDone := rfl

/-- Requests `r t` in the cycles in which `p` is high, with a silent bus. -/
def asks (p : Nat → Bool) (r : Nat → Request) (t : Nat) : AppIn :=
  ⟨r t, p t, ⟨false, false, false, 0, 0, 0⟩, false, false⟩

/-- The trajectory of an application past its initialisation that is asked for lookups and
register reads only. -/
structure Runs (a : AppParams) (i : Nat → AppIn) (s : Nat → StatefulApp) : Prop where
  follows : Follows (step a) i s
  reset : ∀ t, (i t).reset = false
  tableFlush : ∀ t, (i t).tableFlush = false
  reads : ∀ t, (i t).regIn.Reads
  idle : Idle (s 0)

/-- The same with any traffic on the bus. -/
structure Served (a : AppParams) (i : Nat → AppIn) (s : Nat → StatefulApp) : Prop where
  follows : Follows (step a) i s
  reset : ∀ t, (i t).reset = false
  tableFlush : ∀ t, (i t).tableFlush = false
  idle : Idle (s 0)

theorem Runs.served {a : AppParams} {i : Nat → AppIn} {s : Nat → StatefulApp} (h : Runs a i s) :
    Served a i s := ⟨h.follows, h.reset, h.tableFlush, h.idle⟩

theorem Served.runs {a : AppParams} {i : Nat → AppIn} {s : Nat → StatefulApp} (h : Served a i s)
    (hreads : ∀ t, (i t).regIn.Reads) : Runs a i s :=
  ⟨h.follows, h.reset, h.tableFlush, hreads, h.idle⟩

/-- The cycles of the requests. -/
def vld (i : Nat → AppIn) (t : Nat) : Bool := (i t).matchFieldVld

theorem runs_start (a : AppParams) (m : AppStore) (p : Nat → Bool) (r : Nat → Request) :
    Runs a (asks p r) (run (step a) (start m) (asks p r)) where
  follows := follows_run _ _ _
  reset _ := rfl
  tableFlush _ := rfl
  reads _ h := by cases h
  idle := idle_start m

/-- The tables before cycle `t` when requests are served one at a time. -/
def before (a : AppParams) (i : Nat → AppIn) (s : Nat → StatefulApp) (t : Nat) : AppStore :=
  (s 0).store.served a i t

/-! The application and the request times of the test bench. -/

def flowEntry : BitVec 248 := 0xffff000000219bf4e78af8b1569ee33808000a0000010a0000020604000050

def flowEntry2 : BitVec 248 := 0xffff000000219bf4e78af8b1569ee33808000a0000010a0000020604000051

def testbenchAction : BitVec 320 :=
  0#62 ++ 3#2 ++ 0#40 ++ 1#32 ++ 4#32 ++ 0#88 ++ 0#32 ++ 1#16 ++ 3#16

def testbenchParam : BitVec 320 :=
  0#62 ++ 3#2 ++ 0#40 ++ 1#32 ++ 5#32 ++ 0#88 ++ 0#32 ++ 2#16 ++ 4#16

def testbenchApp : AppParams where
  appId := 1
  stTag := 1
  sttTag := 3
  atTag := 2
  stDefaultCmpData := flowEntry
  stDefaultData := 2
  sttDefaultCmpData := 2#32 ++ 2#8
  sttDefaultLookupData := 3
  atDefaultCmpData := 3#8 ++ flowEntry
  atDefaultLookupData := 2#2 ++ testbenchParam ++ 0x042#16

def nineApart (t : Nat) : Bool := t == 0 || t == 9

theorem spaced_nineApart : Spaced 9 nineApart := by
  intro t u ht hu htu
  simp only [nineApart, Bool.or_eq_true, beq_iff_eq] at ht hu
  omega

namespace Served

variable {a : AppParams} {i : Nat → AppIn} {s : Nat → StatefulApp}

/-! ## The tables -/

theorem stServes (h : Served a i s) : LookupTable.Serves a.stParams (fun t => stateIn (i t))
    (fun t => (s t).stateCamLutSm) where
  regs t := by rw [h.follows t]; rfl
  pipe t := by rw [h.follows t]; rfl
  cam t := by rw [h.follows t]; rfl
  reset := h.reset
  tableFlush := h.tableFlush
  ready := h.idle.stReady

theorem sttServes (h : Served a i s) : LookupTable.Serves a.sttParams (fun t => sttIn (i t) (s t))
    (fun t => (s t).sttCamLutSm) where
  regs t := by rw [h.follows t]; rfl
  pipe t := by rw [h.follows t]; rfl
  cam t := by rw [h.follows t]; rfl
  reset := h.reset
  tableFlush := h.tableFlush
  ready := h.idle.sttReady

theorem atServes (h : Served a i s) : LookupTable.Serves a.atParams (fun t => atIn (i t) (s t))
    (fun t => (s t).atCamLutSm) where
  regs t := by rw [h.follows t]; rfl
  pipe t := by rw [h.follows t]; rfl
  cam t := by rw [h.follows t]; rfl
  reset := h.reset
  tableFlush := h.tableFlush
  ready := h.idle.atReady

/-! ## The valid bits -/

theorem stAck (h : Served a i s) (t : Nat) :
    (s t).stateCamLutSm.pipe.lookupAck = ago 4 (vld i) t := h.stServes.ack_eq_ago h.idle.st t

theorem sttAck (h : Served a i s) (t : Nat) :
    (s t).sttCamLutSm.pipe.lookupAck = ago 8 (vld i) t := by
  refine (h.sttServes.ack_eq_ago h.idle.stt t).trans ?_
  show ago 4 (fun u => (s u).stateCamLutSm.pipe.lookupAck) t = _
  rw [funext h.stAck, ago_ago]

theorem atAck (h : Served a i s) (t : Nat) :
    (s t).atCamLutSm.pipe.lookupAck = ago 12 (vld i) t := by
  refine (h.atServes.ack_eq_ago h.idle.at' t).trans ?_
  show ago 4 (fun u => (s u).sttCamLutSm.pipe.lookupAck) t = _
  rw [funext h.sttAck, ago_ago]

theorem modificationDone (h : Served a i s) (t : Nat) :
    (s t).am.modificationDone = ago 13 (vld i) t := by
  refine eq_ago_succ (q := fun t => (s t).am.modificationDone) h.idle.modificationDone (fun t => ?_) t
  rw [h.follows t, ← h.atAck t]
  show (ActionModifier.step (i t).reset _ _ _ _ _).modificationDone = _
  rw [h.reset t]
  cases (s t).atCamLutSm.pipe.lookupAck <;> rfl

theorem appDone (h : Served a i s) (t : Nat) : (s t).appDone = ago 14 (vld i) t := by
  refine eq_ago_succ (q := fun t => (s t).appDone) h.idle.appDone (fun t => ?_) t
  rw [h.follows t, ← h.modificationDone t]
  show (!(i t).reset && (s t).am.modificationDone) = _
  rw [h.reset t]
  rfl

end Served

namespace Runs

variable {a : AppParams} {i : Nat → AppIn} {s : Nat → StatefulApp}

/-! The register bus goes from the state table to the action table to the transition table. -/

theorem stUnwritten (h : Runs a i s) (t : Nat) : LookupTable.Unwritten (s t).stateCamLutSm :=
  h.served.stServes.unwritten h.reads h.idle.stUnwritten t

theorem atUnwritten (h : Runs a i s) (t : Nat) : LookupTable.Unwritten (s t).atCamLutSm :=
  h.served.atServes.unwritten (fun t => (h.stUnwritten t).reads) h.idle.atUnwritten t

theorem sttUnwritten (h : Runs a i s) (t : Nat) : LookupTable.Unwritten (s t).sttCamLutSm :=
  h.served.sttServes.unwritten (fun t => (h.atUnwritten t).reads) h.idle.sttUnwritten t

theorem sttLut (h : Runs a i s) (t : Nat) : (s t).sttCamLutSm.lut = (s 0).store.stt := by
  induction t with
  | zero => rfl
  | succ t ih =>
    rw [h.follows t]
    exact (LookupTable.stepLut_of_unwritten (h.sttUnwritten t)).trans ih

theorem atLut (h : Runs a i s) (t : Nat) : (s t).atCamLutSm.lut = (s 0).store.at' := by
  induction t with
  | zero => rfl
  | succ t ih =>
    rw [h.follows t]
    exact (LookupTable.stepLut_of_unwritten (h.atUnwritten t)).trans ih

theorem stLut_succ (h : Runs a i s) (t : Nat) : (s (t + 1)).stateCamLutSm.lut =
    (update a (s t)).apply (s t).stateCamLutSm.lut (s t).stateCamLutSm.lut := by
  rw [h.follows t]
  show (update a (s t)).apply _ (LookupTable.stepLut _) = _
  rw [LookupTable.stepLut_of_unwritten (h.stUnwritten t)]

/-! ## The FIFOs -/

/-- A chain of registers is a delay. -/
theorem buffer_eq_ago {b : Nat → StatefulAppBuffer} {p : Nat → Bool}
    (hb : ∀ t, b (t + 1) = (b t).step false (p t)) (hstart : ∀ n, b 0 n = false) (n t : Nat) :
    b t n = ago (n + 1) p t := by
  induction n generalizing t with
  | zero =>
    refine eq_ago_succ (q := fun t => b t 0) (hstart 0) (fun t => ?_) t
    rw [hb t, ago_zero]
    rfl
  | succ n ih =>
    refine eq_ago_succ (q := fun t => b t (n + 1)) (hstart (n + 1)) (fun t => ?_) t
    rw [hb t, ← ih t]
    rfl

/-- The request `u` is `T` or, if it comes less than `L` cycles later, the one after it. -/
def IsHead (p : Nat → Bool) (L T u : Nat) : Prop :=
  p u = true ∧ T ≤ u ∧ u < T + L ∧ ∀ v, T < v → v < T + L → p v = true → v = u

theorem IsHead.eq_of_spaced {p : Nat → Bool} {L T u : Nat} (h : IsHead p L T u)
    (hp : Spaced L p) (hT : p T = true) : u = T := by
  obtain ⟨hu, hle, hlt, -⟩ := h
  rcases Nat.lt_or_eq_of_le hle with hTu | rfl
  · rw [hp.low hT hTu hlt] at hu
    cases hu
  · rfl

/-- A FIFO that is read through a chain of `n` registers, in the cycle after the read. -/
theorem fifo_after_read {α : Type} (h : Runs a i s) (hvld : Spaced 9 (vld i)) {T : Nat}
    (hT : vld i T = true) (f : Nat → FallthroughSmallFifo α 3) (b : Nat → StatefulAppBuffer)
    (w : Nat → α) {n : Nat} (hn : 2 ≤ n) (hn' : n < 18)
    (hf : ∀ t, f (t + 1) = (f t).step (i t).reset (w t) (vld i t) ((b t).dout n))
    (hb : ∀ t, b (t + 1) = (b t).step (i t).reset (vld i t)) (hbuf : ∀ n, b 0 n = false)
    (hfifo : (f 0).Vacant) :
    ∃ u, IsHead (vld i) n T u ∧ (f (T + n + 1)).dout = w u := by
  have hstep : ∀ t, f (t + 1) = (f t).step false (w t) (vld i t) (ago n (vld i) t) := by
    intro t
    have hago := buffer_eq_ago (fun t => by rw [hb t, h.reset t]) hbuf (n - 1) t
    rw [hf t, h.reset t, StatefulAppBuffer.dout, hago, Nat.sub_add_cancel (by omega)]
  obtain ⟨u, hdout, hu⟩ := FallthroughSmallFifo.dout_after_read (by omega) hn hn' (by omega) hvld
    hstep hfifo hT
  exact ⟨u, hu, hdout⟩

/-- The event of a request is at the FIFO when the state table answers. -/
theorem event_at_stt (h : Runs a i s) (hvld : Spaced 9 (vld i)) {T : Nat} (hT : vld i T = true) :
    (s (T + 4)).sttFifo.dout = a.eventParamLocal (i T).request := by
  obtain ⟨u, hu, hdout⟩ := h.fifo_after_read hvld hT (fun t => (s t).sttFifo)
    (fun t => (s t).sttFifoEnBuf) (fun t => a.eventParamLocal (i t).request) (n := 3) (by omega)
    (by omega) (fun t => by rw [h.follows t]; rfl) (fun t => by rw [h.follows t]; rfl)
    h.idle.sttFifoEnBuf h.idle.sttFifo
  rwa [hu.eq_of_spaced (hvld.mono (by omega)) hT] at hdout

/-- Its match field is there when the transition table answers. -/
theorem match_at_at (h : Runs a i s) (hvld : Spaced 9 (vld i)) {T : Nat} (hT : vld i T = true) :
    (s (T + 8)).atFifo.dout = (i T).request.matchField := by
  obtain ⟨u, hu, hdout⟩ := h.fifo_after_read hvld hT (fun t => (s t).atFifo)
    (fun t => (s t).atFifoEnBuf) (fun t => (i t).request.matchField) (n := 7) (by omega)
    (by omega) (fun t => by rw [h.follows t]; rfl) (fun t => by rw [h.follows t]; rfl)
    h.idle.atFifoEnBuf h.idle.atFifo
  rwa [hu.eq_of_spaced (hvld.mono (by omega)) hT] at hdout

/-- And so is its application. -/
theorem appId_at_st (h : Runs a i s) (hvld : Spaced 9 (vld i)) {T : Nat} (hT : vld i T = true) :
    (s (T + 8)).stFifo.dout = (i T).request.appId := by
  obtain ⟨u, hu, hdout⟩ := h.fifo_after_read hvld hT (fun t => (s t).stFifo)
    (fun t => (s t).stFifoEnBuf) (fun t => (i t).request.appId) (n := 7) (by omega)
    (by omega) (fun t => by rw [h.follows t]; rfl) (fun t => by rw [h.follows t]; rfl)
    h.idle.stFifoEnBuf h.idle.stFifo
  rwa [hu.eq_of_spaced (hvld.mono (by omega)) hT] at hdout

theorem action_at_am (h : Runs a i s) (hvld : Spaced 9 (vld i)) {T : Nat} (hT : vld i T = true) :
    ∃ u, IsHead (vld i) 11 T u ∧ (s (T + 12)).amFifo.dout = (i u).request.action :=
  h.fifo_after_read hvld hT (fun t => (s t).amFifo) (fun t => (s t).amFifoEnBuf)
    (fun t => (i t).request.action) (by omega) (by omega) (fun t => by rw [h.follows t]; rfl)
    (fun t => by rw [h.follows t]; rfl) h.idle.amFifoEnBuf h.idle.amFifo

theorem request_at_out (h : Runs a i s) (hvld : Spaced 9 (vld i)) {T : Nat}
    (hT : vld i T = true) :
    ∃ u, IsHead (vld i) 12 T u ∧ (s (T + 13)).outputFifo.dout = (i u).request := by
  obtain ⟨u, hdout, hu⟩ := FallthroughSmallFifo.dout_after_read (f := fun t => (s t).outputFifo)
    (w := fun t => (i t).request) (d := 9) (L := 12) (by omega) (by omega) (by omega) (by omega)
    hvld (fun t => by
      rw [← h.served.atAck t, h.follows t]
      show FallthroughSmallFifo.step (i t).reset _ _ _ _ = _
      rw [h.reset t]
      rfl) h.idle.outputFifo hT
  exact ⟨u, hu, hdout⟩

/-! ## The state table -/

/-- No request is served in the eight cycles before one. -/
theorem before_sub (hvld : Spaced 9 (vld i)) {T k : Nat} (hT : vld i T = true) (hk : k ≤ 8) :
    before a i s (T - k) = before a i s T := by
  refine (AppStore.served_eq_of_low (by omega) fun v hv hvT => ?_).symm
  exact hvld.low_before hT hvT (by omega)

theorem before_add (hvld : Spaced 9 (vld i)) {T k : Nat} (hT : vld i T = true) (hk : 0 < k)
    (hk' : k ≤ 9) : before a i s (T + k) = (before a i s T).serve a (i T).request := by
  have hlow : before a i s (T + k) = before a i s (T + 1) :=
    AppStore.served_eq_of_low (by omega) fun v hv hvT => hvld.low hT (by omega) (by omega)
  rw [hlow]
  exact if_pos hT

/-- What the state table answers, if it is as it should be up to the cycle of the answer. -/
theorem st_answer (h : Runs a i s) (hvld : Spaced 9 (vld i)) {T : Nat} (hT : vld i T = true)
    (hst : ∀ u, u ≤ T + 3 → (s u).stateCamLutSm.lut = (before a i s (u - 8)).st) :
    (s (T + 4)).stateCamLutSm.pipe.lookupHit = ((before a i s T).line a (i T).request).isSome ∧
      (s (T + 4)).state = (before a i s T).state a (i T).request ∧
      ∀ n, (before a i s T).line a (i T).request = some n →
        (s (T + 4)).stateCamLutSm.pipe.lookupAddress = n := by
  have hnow : (s T).stateCamLutSm.lut = (before a i s T).st := by
    rw [hst T (by omega), before_sub hvld hT (by omega)]
  have hthen : (s (T + 3)).stateCamLutSm.lut = (before a i s T).st := by
    rw [hst (T + 3) (by omega), Nat.add_sub_add_right T 3 5, before_sub hvld hT (by omega)]
  obtain ⟨hhit, hdata⟩ := h.served.stServes.answer (t := T) hT rfl hnow hthen
  refine ⟨hhit, hdata, fun n hn => ?_⟩
  rw [AppStore.line, ← hnow] at hn
  exact (h.served.stServes.answer_of_find hT hn).2.1

/-- What the transition table answers. -/
theorem stt_answer (h : Runs a i s) (hvld : Spaced 9 (vld i)) {T : Nat} (hT : vld i T = true)
    (hst : ∀ u, u ≤ T + 3 → (s u).stateCamLutSm.lut = (before a i s (u - 8)).st) :
    (s (T + 8)).sttCamLutSm.pipe.lookupHit = (before a i s T).moves a (i T).request ∧
      (s (T + 8)).nextState = (before a i s T).nextState a (i T).request := by
  have hreq : (sttIn (i (T + 4)) (s (T + 4))).lookupReq = true := by
    show (s (T + 4)).stateCamLutSm.pipe.lookupAck = true
    rw [h.served.stAck, ago_add, hT]
  have hkey : (sttIn (i (T + 4)) (s (T + 4))).lookupCmpData =
      (before a i s T).sttKey a (i T).request := by
    show (s (T + 4)).sttFifo.dout ++ (s (T + 4)).state = _
    rw [h.event_at_stt hvld hT, (h.st_answer hvld hT hst).2.1, AppStore.sttKey]
  have hlut : ∀ t, (s t).sttCamLutSm.lut = (before a i s T).stt := fun t => by
    rw [h.sttLut t, before, AppStore.served_stt]
  exact h.served.sttServes.answer (t := T + 4) hreq hkey (hlut _) (hlut _)

theorem before_succ_of_low {t k : Nat} (hlow : ago k (vld i) t = false) :
    before a i s (t + 1 - k) = before a i s (t - k) := by
  by_cases hk : k ≤ t
  · have hvld : vld i (t - k) = false := by simpa [ago, hk] using hlow
    rw [Nat.sub_add_comm hk]
    exact if_neg (by rw [show (i (t - k)).matchFieldVld = false from hvld]; simp)
  · rw [show t + 1 - k = t - k by omega]

/-- The state table and the address register are those that the requests up to eight and four
cycles ago leave behind. -/
theorem st_eq_before (h : Runs a i s) (hvld : Spaced 9 (vld i)) (t : Nat) :
    (s t).stateCamLutSm.lut = (before a i s (t - 8)).st ∧
      (s t).updateAddr = (before a i s (t - 4)).updateAddr := by
  induction t using Nat.strong_induction_on with
  | h t ih =>
    cases t with
    | zero => exact ⟨rfl, rfl⟩
    | succ t =>
      have hst : ∀ u, u ≤ t → (s u).stateCamLutSm.lut = (before a i s (u - 8)).st :=
        fun u hu => (ih u (by omega)).1
      obtain ⟨hlut, haddr⟩ := ih t (by omega)
      constructor
      · rw [h.stLut_succ t]
        cases hreq : ago 8 (vld i) t with
        | false =>
          rw [Update.apply_of_not_req ((h.served.sttAck t).trans hreq), hlut, before_succ_of_low hreq]
        | true =>
          rw [Update.apply_self ((h.served.sttAck t).trans hreq)]
          obtain ⟨T, rfl, hT⟩ := ago_iff.mp hreq
          obtain ⟨hhit, hnext⟩ := h.stt_answer hvld hT fun u hu => hst u (by omega)
          have hvalid : (update a (s (T + 8))).vld =
              ((before a i s T).moves a (i T).request && a.isFor (i T).request.appId) := by
            show ((s (T + 8)).sttCamLutSm.pipe.lookupHit && a.isFor (s (T + 8)).stFifo.dout) = _
            rw [hhit, h.appId_at_st hvld hT]
          have hpair : (update a (s (T + 8))).addr = (before a i s T).addr a (i T).request := by
            show (s (T + 8)).updateAddr = _
            rw [haddr, show T + 8 - 4 = T + 4 by omega, before_add hvld hT (by omega) (by omega)]
            rfl
          rw [hvalid, hpair, hlut, show T + 8 + 1 - 8 = T + 1 by omega, Nat.add_sub_cancel,
            before_add hvld hT (by omega) (by omega)]
          show (if _ then setPair _ _ (s (T + 8)).nextState else _) = _
          rw [hnext]
          rfl
      · rw [h.follows t]
        show stepUpdateAddr (i t) (s t) = _
        rw [stepUpdateAddr, h.reset t, h.served.stAck t]
        cases hack : ago 4 (vld i) t with
        | false =>
          rw [before_succ_of_low hack]
          simpa using haddr
        | true =>
          obtain ⟨T, rfl, hT⟩ := ago_iff.mp hack
          obtain ⟨hhit, -, hline⟩ := h.st_answer hvld hT fun u hu => hst u (by omega)
          rw [show T + 4 + 1 - 4 = T + 1 by omega, before_add hvld hT (by omega) (by omega), hhit]
          show _ = ((before a i s T).line a (i T).request).getD _
          cases hn : (before a i s T).line a (i T).request with
          | none => simpa using haddr
          | some n => simpa using hline n hn

theorem stLut_eq_before (h : Runs a i s) (hvld : Spaced 9 (vld i)) (t : Nat) :
    (s t).stateCamLutSm.lut = (before a i s (t - 8)).st := (h.st_eq_before hvld t).1

/-! ## The answers -/

theorem at_answer (h : Runs a i s) (hvld : Spaced 9 (vld i)) {T : Nat} (hT : vld i T = true) :
    (s (T + 12)).atLookupData = (before a i s T).atEntry a (i T).request := by
  have hreq : (atIn (i (T + 8)) (s (T + 8))).lookupReq = true := by
    show (s (T + 8)).sttCamLutSm.pipe.lookupAck = true
    rw [h.served.sttAck, ago_add, hT]
  have hkey : (atIn (i (T + 8)) (s (T + 8))).lookupCmpData =
      (before a i s T).atKey a (i T).request := by
    show (s (T + 8)).nextState ++ (s (T + 8)).atFifo.dout = _
    rw [(h.stt_answer hvld hT fun u _ => h.stLut_eq_before hvld u).2, h.match_at_at hvld hT,
      AppStore.atKey]
  have hlut : ∀ t, (s t).atCamLutSm.lut = (before a i s T).at' := fun t => by
    rw [h.atLut t, before, AppStore.served_at]
  exact (h.served.atServes.answer (t := T + 8) hreq hkey (hlut _) (hlut _)).2

/-- The bits of the modifier above the fields stay zero. -/
theorem high_zero (h : Runs a i s) (t : Nat) :
    ∀ n, 256 ≤ n → (s t).am.actionOut.getLsbD n = false := by
  induction t with
  | zero => exact h.idle.high
  | succ t ih =>
    intro n hn
    rw [h.follows t]
    show (ActionModifier.step (i t).reset _ _ _ _ _).actionOut.getLsbD n = false
    rw [h.reset t, ActionModifier.step]
    cases (s t).atCamLutSm.pipe.lookupAck with
    | false => exact ih n hn
    | true => exact (getLsbD_modifyAction_high _ _ _ _ hn).trans (ih n hn)

/-- What is at the outputs when a request is done: the entry is the one found for the request
itself; the action that it modifies and the words that are handed on are those of the request
or of the one after it. -/
theorem out_of_request (h : Runs a i s) (hvld : Spaced 9 (vld i)) {T : Nat}
    (hT : vld i T = true) :
    ∃ u v, IsHead (vld i) 11 T u ∧ IsHead (vld i) 12 T v ∧ (s (T + 14)).out =
      if a.isFor (i v).request.appId then
        { (i v).request with
          action := modifyAction (actionFlag ((before a i s T).atEntry a (i T).request))
            (i u).request.action (actionParam ((before a i s T).atEntry a (i T).request)) 0
          appId := actionNextApp ((before a i s T).atEntry a (i T).request) }
      else (i v).request := by
  obtain ⟨u, hu, ham⟩ := h.action_at_am hvld hT
  obtain ⟨v, hv, hout⟩ := h.request_at_out hvld hT
  have hentry := h.at_answer hvld hT
  have hack : (s (T + 12)).atCamLutSm.pipe.lookupAck = true := by rw [h.served.atAck, ago_add, hT]
  have hdone : (s (T + 13)).am.modificationDone = true := by rw [h.served.modificationDone, ago_add, hT]
  have haction : (s (T + 13)).am.actionOut =
      modifyAction (actionFlag ((before a i s T).atEntry a (i T).request))
        (i u).request.action (actionParam ((before a i s T).atEntry a (i T).request)) 0 := by
    rw [h.follows (T + 12)]
    show (ActionModifier.step (i (T + 12)).reset _ _ _ _ _).actionOut = _
    rw [h.reset, ActionModifier.step, hack, ham, hentry]
    exact modifyAction_of_high_zero _ _ _ (h.high_zero (T + 12))
  have hnext : (s (T + 13)).actionNextAppD2 =
      actionNextApp ((before a i s T).atEntry a (i T).request) := by
    rw [h.follows (T + 12), ← hentry]
    rfl
  refine ⟨u, v, hu, hv, ?_⟩
  rw [h.follows (T + 13)]
  show stepOut a (i (T + 13)) (s (T + 13)) = _
  rw [stepOut, h.reset, hdone, hout, haction, hnext]
  rfl

end Runs

end StatefulApp

end Sdpa.Hardware
