import Sdpa.Hardware.LookupTable

/-!
# Lookups and writes of the bus

The keys are compared in the cycle of a request and the data are read three cycles
later. A write of the bus waits while a lookup is in the stages between, but not
for the request itself: a write that is at the write port in the cycle of the
request, or granted in it, goes into the table after the keys were compared and
before the data are read.
-/
namespace Sdpa.Hardware

open Lib.Clocked

variable {c d : Nat}

/-- The key and the entry agree in every bit that the mask does not hide. -/
def Entry.Matches (e : Entry c d) (key : BitVec c) : Prop :=
  ∀ k, k < c → e.dmask.getLsbD k = false → e.cmp.getLsbD k = key.getLsbD k

theorem Entry.hits_iff (e : Entry c d) (key : BitVec c) : e.hits key = true ↔ e.Matches key := by
  rw [hits, decide_eq_true_eq]
  constructor
  · intro hones k hk hmask
    have hbit := congrArg (·.getLsbD k) hones
    simp only [BitVec.getLsbD_or, BitVec.getLsbD_not, BitVec.getLsbD_xor, hmask, hk,
      BitVec.getLsbD_allOnes, decide_true, Bool.true_and, Bool.or_false] at hbit
    cases hcmp : e.cmp.getLsbD k <;> cases hkey : key.getLsbD k <;> simp_all
  · intro hmatch
    refine BitVec.eq_of_getLsbD_eq fun k hk => ?_
    have hbit := hmatch k hk
    simp only [BitVec.getLsbD_or, BitVec.getLsbD_not, BitVec.getLsbD_xor, hk,
      BitVec.getLsbD_allOnes, decide_true, Bool.true_and]
    cases hmask : e.dmask.getLsbD k with
    | true => rw [Bool.or_true]
    | false => rw [hbit hmask, Bool.xor_self, Bool.not_false, Bool.true_or]

namespace LookupTable

variable {p : TableParams c d} {i : Nat → TableIn c} {s : Nat → LookupTable c d}

/-- Line `n` of `lut` is the lowest that matches the key. -/
def Lowest (p : TableParams c d) (lut : Nat → Entry c d) (key : BitVec c) (n : Nat) : Prop :=
  n < p.lutDepth ∧ (lut n).Matches key ∧ ∀ m, m < n → ¬ (lut m).Matches key

/-- The outputs are what the table `lut` has for the key. -/
structure Answers (p : TableParams c d) (lut : Nat → Entry c d) (key : BitVec c)
    (s : LookupTable c d) : Prop where
  hit : s.pipe.lookupHit = true ↔ ∃ n, n < p.lutDepth ∧ (lut n).Matches key
  lowest : s.pipe.lookupHit = true → Lowest p lut key s.pipe.lookupAddress
  data : s.pipe.lookupHit = true → lookupData s = (lut s.pipe.lookupAddress).data

/-- Every request is acknowledged four cycles later, and in no other cycle there is an
acknowledge; the answer is that of one version of the table between the two cycles. -/
structure Atomic (p : TableParams c d) (i : Nat → TableIn c) (s : Nat → LookupTable c d) :
    Prop where
  acks : ∀ t, (s t).pipe.lookupAck = ago 4 (fun u => (i u).lookupReq) t
  version : ∀ t, (i t).lookupReq = true →
    ∃ u, t ≤ u ∧ u ≤ t + 4 ∧ Answers p (s u).lut (i t).lookupCmpData (s (t + 4))

/-- The trajectory of an initialised table that nothing but the bus writes to. No write is at the
write port at the start. -/
structure BusWritten (p : TableParams c d) (i : Nat → TableIn c) (s : Nat → LookupTable c d) :
    Prop extends Serves p i s where
  lut : ∀ t, (s (t + 1)).lut = stepLut (s t)
  drained : Drained (s 0).pipe
  camWe : (s 0).pipe.camWe = false
  waits : (s 0).regs.wrReq = true → (s 0).regs.regState = .waitForWriteAck

/-! ## What is found -/

theorem find_eq_some_iff {lut : Nat → Entry c d} {key : BitVec c} {n : Nat} :
    find p lut key = some n ↔ Lowest p lut key n := by
  rw [Lowest, find, List.find?_range_eq_some, List.mem_range, Entry.hits_iff]
  constructor
  · rintro ⟨hmatch, hn, hlower⟩
    refine ⟨hn, hmatch, fun m hm => ?_⟩
    rw [← Entry.hits_iff]
    simpa using hlower m hm
  · rintro ⟨hn, hmatch, hlower⟩
    refine ⟨hmatch, hn, fun m hm => ?_⟩
    have hnot := hlower m hm
    rw [← Entry.hits_iff] at hnot
    simpa using hnot

theorem find_eq_none_iff {lut : Nat → Entry c d} {key : BitVec c} :
    find p lut key = none ↔ ∀ n, n < p.lutDepth → ¬ (lut n).Matches key := by
  rw [find, List.find?_eq_none]
  refine forall_congr' fun n => ?_
  rw [List.mem_range, Entry.hits_iff]

theorem answers_of_miss {lut : Nat → Entry c d} {key : BitVec c} {s : LookupTable c d}
    (hfind : find p lut key = none) (hhit : s.pipe.lookupHit = false) : Answers p lut key s := by
  have hnone := find_eq_none_iff.mp hfind
  refine ⟨⟨fun h => ?_, ?_⟩, fun h => ?_, fun h => ?_⟩
  · rw [hhit] at h
    cases h
  · rintro ⟨n, hn, hmatch⟩
    exact absurd hmatch (hnone n hn)
  · rw [hhit] at h
    cases h
  · rw [hhit] at h
    cases h

theorem answers_iff_of_hit {lut : Nat → Entry c d} {key : BitVec c} {s : LookupTable c d} {n : Nat}
    (hhit : s.pipe.lookupHit = true) (haddr : s.pipe.lookupAddress = n) :
    Answers p lut key s ↔ find p lut key = some n ∧ lookupData s = (lut n).data := by
  rw [find_eq_some_iff]
  constructor
  · intro h
    have hlowest := h.lowest hhit
    have hdata := h.data hhit
    rw [haddr] at hlowest hdata
    exact ⟨hlowest, hdata⟩
  · rintro ⟨hlowest, hdata⟩
    subst haddr
    exact ⟨⟨fun _ => ⟨_, hlowest.1, hlowest.2.1⟩, fun _ => hhit⟩, fun _ => hlowest, fun _ => hdata⟩

/-- A write of an entry that matches leaves the line of the entry the lowest that does. -/
theorem find_written {lut : Nat → Entry c d} {key : BitVec c} {n : Nat} {e : Entry c d}
    (hfind : find p lut key = some n) (hmatch : e.Matches key) :
    find p (Function.update lut n e) key = some n := by
  rw [find_eq_some_iff] at hfind ⊢
  obtain ⟨hn, -, hlower⟩ := hfind
  refine ⟨hn, by rwa [Function.update_self], fun m hm => ?_⟩
  rw [Function.update_of_ne (by omega)]
  exact hlower m hm

/-! ## The write under way -/

/-- The write that is at the write port in this cycle, or else granted in it. -/
def underWay (s : LookupTable c d) : Option (Nat × Entry c d) :=
  if s.pipe.camWe then
    some (s.pipe.camWrAddr, ⟨s.pipe.camDataMask, s.pipe.camDin, s.pipe.lutWrData⟩)
  else if grantsWrite s then some (s.regs.wrAddr, wrEntry s.regs.regFile)
  else none

/-- The table with a write. -/
def written (lut : Nat → Entry c d) : Option (Nat × Entry c d) → Nat → Entry c d
  | some (n, e) => Function.update lut n e
  | none => lut

/-- A write under way in the cycle of a request does not go to the line that the request finds, or
leaves the data of that line as they are, or is of an entry that matches the request as well. -/
def Clear (p : TableParams c d) (i : TableIn c) (s : LookupTable c d) : Prop :=
  ∀ n e, underWay s = some (n, e) → Lowest p s.lut i.lookupCmpData n →
    e.data = (s.lut n).data ∨ e.Matches i.lookupCmpData

/-- The bus asks for a write until it is acknowledged, so that the write at the port is the one it
asks for. -/
structure Coupled (s : LookupTable c d) : Prop where
  waits : s.regs.wrReq = true → s.regs.regState = .waitForWriteAck
  same : s.pipe.camWe = true → s.regs.wrReq = true →
    s.pipe.camWrAddr = s.regs.wrAddr ∧
      ⟨s.pipe.camDataMask, s.pipe.camDin, s.pipe.lutWrData⟩ = wrEntry s.regs.regFile

/-- While a write is asked for, only the acknowledge changes the registers of the bus side. -/
theorem stepRegs_of_wrReq {x : TableIn c} {s : LookupTable c d} (hreset : x.reset = false)
    (hwaits : s.regs.regState = .waitForWriteAck) :
    (stepRegs p x s).wrAddr = s.regs.wrAddr ∧ (stepRegs p x s).regFile = s.regs.regFile ∧
      ((stepRegs p x s).wrReq = true → (stepRegs p x s).regState = .waitForWriteAck) := by
  rw [stepRegs, hreset, hwaits]
  cases s.pipe.wrAck with
  | false => exact ⟨rfl, rfl, fun _ => hwaits⟩
  | true => exact ⟨rfl, rfl, fun h => by cases h⟩

theorem waits_stepRegs {x : TableIn c} {s : LookupTable c d} (hreset : x.reset = false) :
    (stepRegs p x s).wrReq = true → (stepRegs p x s).regState = .waitForWriteAck := by
  cases hstate : s.regs.regState with
  | waitForWriteAck => exact (stepRegs_of_wrReq hreset hstate).2.2
  | waitForReadAck =>
    rw [stepRegs, hreset, hstate]
    cases s.pipe.rdAck <;> exact fun h => by cases h
  | waitForRequest =>
    rw [stepRegs, hreset, hstate]
    simp only [Bool.false_eq_true, if_false]
    split
    · split
      · exact fun h => by cases h
      · split
        · exact fun _ => rfl
        · split <;> exact fun h => by cases h
    · exact fun h => by cases h

theorem wrReq_of_grantsWrite {s : LookupTable c d} (h : grantsWrite s = true) :
    s.regs.wrReq = true := by
  rw [grantsWrite] at h
  simp only [Bool.and_eq_true] at h
  exact h.1.1.1

namespace BusWritten

variable (h : BusWritten p i s)

include h

theorem coupled (t : Nat) : Coupled (s t) := by
  induction t with
  | zero => exact ⟨h.waits, fun hwe => by rw [h.camWe] at hwe; cases hwe⟩
  | succ t ih =>
    refine ⟨by rw [h.regs t]; exact waits_stepRegs (h.reset t), fun hwe hreq => ?_⟩
    have hpipe := h.pipe_succ t
    have hgrant : grantsWrite (s t) = true := by
      rw [hpipe] at hwe
      exact hwe
    obtain ⟨haddr, hfile, -⟩ :=
      stepRegs_of_wrReq (p := p) (h.reset t) (ih.waits (wrReq_of_grantsWrite hgrant))
    rw [h.regs t, haddr, hfile, hpipe, lookupCycle, hgrant]
    exact ⟨rfl, rfl⟩

/-- The write at the port goes into the table, and so does the one granted. -/
theorem lut_two (t : Nat) : (s (t + 2)).lut = written (s t).lut (underWay (s t)) := by
  have hpipe := h.pipe_succ t
  have hgranted : stepLut (s (t + 1)) = if grantsWrite (s t) then
      Function.update (s (t + 1)).lut (s t).regs.wrAddr (wrEntry (s t).regs.regFile)
      else (s (t + 1)).lut := by
    rw [stepLut, hpipe]
    cases hgrant : grantsWrite (s t) <;> simp [lookupCycle, hgrant]
  rw [h.lut (t + 1), hgranted, h.lut t, underWay, stepLut]
  cases hwe : (s t).pipe.camWe with
  | false => cases grantsWrite (s t) <;> rfl
  | true =>
    cases hgrant : grantsWrite (s t) with
    | false => rfl
    | true =>
      obtain ⟨haddr, hentry⟩ := (h.coupled t).same hwe (wrReq_of_grantsWrite hgrant)
      simp only [if_true, written, haddr, hentry, Function.update_idem]

theorem lut_one (t : Nat) :
    (s (t + 1)).lut = (s t).lut ∨ (s (t + 1)).lut = written (s t).lut (underWay (s t)) := by
  rw [h.lut t, underWay, stepLut]
  cases (s t).pipe.camWe with
  | false => exact .inl rfl
  | true => exact .inr rfl

/-- A write waits for the lookups in the stages after the first. -/
theorem lut_succ_of_busy {t : Nat}
    (hbusy : (s t).pipe.lookupLatched = true ∨ (s t).pipe.camMatchFound = true) :
    (s (t + 2)).lut = (s (t + 1)).lut := by
  have hgrant : grantsWrite (s t) = false := by
    rw [grantsWrite]
    rcases hbusy with hbusy | hbusy <;> simp [hbusy]
  have hwe : (s (t + 1)).pipe.camWe = false := by
    rw [h.pipe_succ t]
    exact hgrant
  rw [h.lut (t + 1), stepLut, hwe]
  rfl

theorem lut_three {t : Nat} (ht : (i t).lookupReq = true) :
    (s (t + 3)).lut = written (s t).lut (underWay (s t)) := by
  rw [← h.lut_two t]
  refine h.lut_succ_of_busy (t := t + 1) (.inl ?_)
  rw [h.latched t, ht]

/-- The tables between a request and its answer: the one of the request, and the one with the write
under way. -/
theorem lut_cases {t n : Nat} (ht : (i t).lookupReq = true)
    (hfind : find p (s t).lut (i t).lookupCmpData = some n) {u : Nat} (htu : t ≤ u)
    (hu : u ≤ t + 4) :
    (s u).lut = (s t).lut ∨ (s u).lut = written (s t).lut (underWay (s t)) := by
  have hthree := h.lut_three ht
  obtain rfl | rfl | rfl | rfl | rfl : u = t ∨ u = t + 1 ∨ u = t + 2 ∨ u = t + 3 ∨ u = t + 4 := by
    omega
  · exact .inl rfl
  · exact h.lut_one t
  · exact .inr (h.lut_two t)
  · exact .inr hthree
  · refine .inr ((h.lut_succ_of_busy (t := t + 2) (.inr ?_)).trans hthree)
    rw [h.matchFound t, ht, hfind]
    rfl

/-- One request. -/
theorem version_iff {t : Nat} (ht : (i t).lookupReq = true) :
    (∃ u, t ≤ u ∧ u ≤ t + 4 ∧ Answers p (s u).lut (i t).lookupCmpData (s (t + 4))) ↔
      Clear p (i t) (s t) := by
  cases hfind : find p (s t).lut (i t).lookupCmpData with
  | none =>
    have hanswer := answers_of_miss hfind (h.answer_of_miss hfind).1
    refine ⟨fun _ n e _ hn => ?_, fun _ => ⟨t, by omega, by omega, hanswer⟩⟩
    exact absurd hn.2.1 (find_eq_none_iff.mp hfind n hn.1)
  | some n =>
    obtain ⟨hhit, haddr, hdata⟩ := h.answer_of_find ht hfind
    rw [h.lut_three ht] at hdata
    have hanswers : ∀ lut, Answers p lut (i t).lookupCmpData (s (t + 4)) ↔
        find p lut (i t).lookupCmpData = some n ∧
          (written (s t).lut (underWay (s t)) n).data = (lut n).data := by
      intro lut
      rw [answers_iff_of_hit hhit haddr, hdata]
    constructor
    · rintro ⟨u, htu, hu, hanswer⟩ m e hunder hm
      obtain rfl : n = m := Option.some.inj (hfind.symm.trans (find_eq_some_iff.mpr hm))
      obtain ⟨hfind', hsame⟩ := (hanswers _).mp hanswer
      rw [hunder, written, Function.update_self] at hsame
      rcases h.lut_cases ht hfind htu hu with hlut | hlut
      · rw [hlut] at hsame
        exact .inl hsame
      · rw [hlut, hunder, written, find_eq_some_iff, Lowest, Function.update_self] at hfind'
        exact .inr hfind'.2.1
    · intro hclear
      cases hunder : underWay (s t) with
      | none =>
        refine ⟨t, by omega, by omega, (hanswers _).mpr ⟨hfind, ?_⟩⟩
        rw [hunder, written]
      | some write =>
        obtain ⟨m, e⟩ := write
        by_cases hmn : m = n
        · subst hmn
          rcases hclear m e hunder (find_eq_some_iff.mp hfind) with hsame | hmatch
          · refine ⟨t, by omega, by omega, (hanswers _).mpr ⟨hfind, ?_⟩⟩
            rw [hunder, written, Function.update_self, hsame]
          · refine ⟨t + 2, by omega, by omega, (hanswers _).mpr ⟨?_, by rw [h.lut_two t]⟩⟩
            rw [h.lut_two t, hunder]
            exact find_written hfind hmatch
        · refine ⟨t, by omega, by omega, (hanswers _).mpr ⟨hfind, ?_⟩⟩
          rw [hunder, written, Function.update_of_ne (Ne.symm hmn)]

end BusWritten

/-! ## From reset on -/

/-- `k` lines have gone to the write port. -/
structure Resetting (k : Nat) (pipe : TablePipe c d) : Prop where
  state : pipe.state = .reset
  count : pipe.resetCount = k
  drained : Drained pipe

theorem resetting_of_clear {x : TableIn c} (s : LookupTable c d)
    (hclear : (x.reset || x.tableFlush) = true) : Resetting 0 (stepPipe p x s) := by
  rw [stepPipe, if_pos hclear]
  exact ⟨rfl, rfl, rfl, rfl, rfl, rfl⟩

theorem Resetting.stepPipe_eq {k : Nat} {x : TableIn c} {s : LookupTable c d}
    (h : Resetting k s.pipe) (hclear : (x.reset || x.tableFlush) = false) :
    stepPipe p x s = resetCycle p s.pipe := by
  rw [stepPipe, hclear, h.state]
  rfl

theorem Resetting.succ {k : Nat} {x : TableIn c} {s : LookupTable c d} (h : Resetting k s.pipe)
    (hclear : (x.reset || x.tableFlush) = false) (hk : k < p.lutDepth) :
    Resetting (k + 1) (stepPipe p x s) := by
  rw [h.stepPipe_eq hclear, resetCycle, if_neg (by simp only [h.count]; omega)]
  exact ⟨h.state, congrArg (· + 1) h.count, rfl, rfl, h.drained.encoded, rfl⟩

theorem Resetting.ready {x : TableIn c} {s : LookupTable c d} (h : Resetting p.lutDepth s.pipe)
    (hclear : (x.reset || x.tableFlush) = false) :
    (stepPipe p x s).state = .ready ∧ Drained (stepPipe p x s) ∧
      (stepPipe p x s).camWe = false := by
  rw [h.stepPipe_eq hclear, resetCycle, if_pos h.count]
  exact ⟨rfl, ⟨rfl, rfl, h.drained.encoded, rfl⟩, rfl⟩

/-- The number of cycles since reset or flush. -/
def sinceClear (i : Nat → TableIn c) : Nat → Nat
  | 0 => 0
  | t + 1 => if (i t).reset || (i t).tableFlush then 0 else sinceClear i t + 1

theorem sinceClear_eq (h : ∀ t, ((i t).reset || (i t).tableFlush) = false) (t : Nat) :
    sinceClear i t = t := by
  induction t with
  | zero => rfl
  | succ t ih => rw [sinceClear, h t, if_neg Bool.false_ne_true, ih]

theorem sinceClear_add_le (i : Nat → TableIn c) (t n : Nat) :
    sinceClear i (t + n) ≤ sinceClear i t + n := by
  induction n with
  | zero => exact Nat.le_refl _
  | succ n ih =>
    rw [← Nat.add_assoc, sinceClear]
    split <;> omega

/-- The trajectory of a table from its reset on. -/
structure Initialises (p : TableParams c d) (i : Nat → TableIn c) (s : Nat → LookupTable c d) :
    Prop where
  follows : Follows (step p) i s
  start : Resetting 0 (s 0).pipe

/-- One line after the other is written, then lookups are served. -/
theorem Initialises.phase (h : Initialises p i s) (t : Nat) :
    (sinceClear i t ≤ p.lutDepth ∧ Resetting (sinceClear i t) (s t).pipe) ∨
      (p.lutDepth < sinceClear i t ∧ (s t).pipe.state = .ready) := by
  induction t with
  | zero => exact .inl ⟨Nat.zero_le _, h.start⟩
  | succ t ih =>
    have hpipe : (s (t + 1)).pipe = stepPipe p (i t) (s t) := congrArg (·.pipe) (h.follows t)
    rw [hpipe, sinceClear]
    cases hclear : (i t).reset || (i t).tableFlush with
    | true => exact .inl ⟨Nat.zero_le _, resetting_of_clear (s t) hclear⟩
    | false =>
      rw [if_neg Bool.false_ne_true]
      rcases ih with ⟨hle, hresetting⟩ | ⟨hlt, hready⟩
      · rcases Nat.lt_or_eq_of_le hle with hlt | heq
        · exact .inl ⟨hlt, hresetting.succ hclear hlt⟩
        · rw [heq] at hresetting ⊢
          exact .inr ⟨Nat.lt_succ_self _, (hresetting.ready hclear).1⟩
      · refine .inr ⟨Nat.lt_succ_of_lt hlt, ?_⟩
        rw [stepPipe, hclear, hready]
        rfl

/-- Whatever the bus does meanwhile, `LUT_DEPTH + 1` cycles later it alone writes to the table. -/
theorem Initialises.busWritten (h : Initialises p i s) (hreset : ∀ t, (i t).reset = false)
    (hflush : ∀ t, (i t).tableFlush = false) :
    BusWritten p (fun t => i (t + (p.lutDepth + 1))) (fun t => s (t + (p.lutDepth + 1))) := by
  have hclear : ∀ t, ((i t).reset || (i t).tableFlush) = false := by
    intro t
    rw [hreset, hflush]
    rfl
  have hlast : Resetting p.lutDepth (s p.lutDepth).pipe := by
    have hphase := h.phase p.lutDepth
    rw [sinceClear_eq hclear] at hphase
    rcases hphase with ⟨-, hresetting⟩ | ⟨hlt, -⟩
    · exact hresetting
    · exact absurd hlt (Nat.lt_irrefl _)
  obtain ⟨hready, hdrained, hwe⟩ := hlast.ready (hclear p.lutDepth)
  have hstart : s (0 + (p.lutDepth + 1)) = step p (i p.lutDepth) (s p.lutDepth) := by
    rw [Nat.zero_add]
    exact h.follows p.lutDepth
  have hstep : ∀ t, s (t + 1 + (p.lutDepth + 1)) =
      step p (i (t + (p.lutDepth + 1))) (s (t + (p.lutDepth + 1))) := by
    intro t
    rw [Nat.add_right_comm t 1]
    exact h.follows (t + (p.lutDepth + 1))
  exact
    { regs := fun t => congrArg (·.regs) (hstep t)
      pipe := fun t => congrArg (·.pipe) (hstep t)
      cam := fun t => congrArg (·.matchAddrUnencodedReg) (hstep t)
      reset := fun t => hreset _
      tableFlush := fun t => hflush _
      ready := by rw [hstart]; exact hready
      lut := fun t => congrArg (·.lut) (hstep t)
      drained := by rw [hstart]; exact hdrained
      camWe := by rw [hstart]; exact hwe
      waits := by rw [hstart]; exact waits_stepRegs (hreset p.lutDepth) }

/-- The state table, too, as long as no state is written back. -/
theorem busWritten_of_stateTable {u : Nat → Update d} (h : ∀ t, s (t + 1) =
      StateTable.step p (i t) (u t) (s t)) (hupdate : ∀ t, (u t).req = false)
    (hreset : ∀ t, (i t).reset = false) (hflush : ∀ t, (i t).tableFlush = false)
    (hready : (s 0).pipe.state = .ready) (hdrained : Drained (s 0).pipe)
    (hwe : (s 0).pipe.camWe = false)
    (hwaits : (s 0).regs.wrReq = true → (s 0).regs.regState = .waitForWriteAck) :
    BusWritten p i s where
  regs t := congrArg (·.regs) (h t)
  pipe t := congrArg (·.pipe) (h t)
  cam t := congrArg (·.matchAddrUnencodedReg) (h t)
  reset := hreset
  tableFlush := hflush
  ready := hready
  lut t := by
    rw [h t]
    show (u t).apply _ _ = _
    rw [Update.apply, hupdate t]
    rfl
  drained := hdrained
  camWe := hwe
  waits := hwaits

theorem busWritten_start {p : TableParams c d} {i : Nat → TableIn c} (lut : Nat → Entry c d)
    (hreset : ∀ t, (i t).reset = false) (hflush : ∀ t, (i t).tableFlush = false) :
    BusWritten p i (run (step p) (start lut) i) where
  regs _ := rfl
  pipe _ := rfl
  cam _ := rfl
  reset := hreset
  tableFlush := hflush
  ready := rfl
  lut _ := rfl
  drained := ⟨rfl, rfl, rfl, rfl⟩
  camWe := rfl
  waits hreq := by cases hreq

/-! A line is cleared by the bus, with a request for its key in cycle `u`. -/

def eightLines : TableParams 8 8 := unencodedCamLutSm 8 1

def oneEntry (n : Nat) : Entry 8 8 := if n = 0 then ⟨0, 5, 7⟩ else ⟨0, 1, 0⟩

def clearing (u t : Nat) : TableIn 8 where
  lookupReq := t == u
  lookupCmpData := 5
  regIn := ⟨t == 0, false, false, 0x404, 0, 0⟩
  tableFlush := false
  reset := false

/-- Lookups are atomic exactly if no write under way in the cycle of a request changes the data
of the line found and no longer matches. -/
theorem BusWritten.atomic_iff (h : BusWritten p i s) :
    Atomic p i s ↔ ∀ t, (i t).lookupReq = true → Clear p (i t) (s t) :=
  ⟨fun hatomic t ht => (h.version_iff ht).mp (hatomic.version t ht), fun hclear =>
    ⟨h.ack_eq_ago h.drained, fun t ht => (h.version_iff ht).mpr (hclear t ht)⟩⟩

/-- The request comes in the cycle in which the bus asks. -/
theorem atomic_before_write :
    Atomic eightLines (clearing 0) (run (step eightLines) (start oneEntry) (clearing 0)) := by
  refine (busWritten_start oneEntry (fun _ => rfl) fun _ => rfl).atomic_iff.mpr
    fun t ht n e hunder _ => ?_
  obtain rfl : t = 0 := by simpa [clearing] using ht
  cases hunder

/-- The request comes two cycles later: it finds the line by its old key and reads its new
data. -/
theorem torn_by_write :
    let s := run (step eightLines) (start oneEntry) (clearing 2)
    BusWritten eightLines (clearing 2) s ∧ ¬ Atomic eightLines (clearing 2) s := by
  intro s
  have h : BusWritten eightLines (clearing 2) s :=
    busWritten_start oneEntry (fun _ => rfl) fun _ => rfl
  refine ⟨h, fun hatomic => ?_⟩
  have hclear := (h.version_iff (t := 2) rfl).mp (hatomic.version 2 rfl)
  have hunder : underWay (s 2) = some (0, ⟨0, 0, 0⟩) := rfl
  have hfind : find eightLines (s 2).lut 5 = some 0 := by decide
  rcases hclear 0 ⟨0, 0, 0⟩ hunder (find_eq_some_iff.mp hfind) with hdata | hmatch
  · exact absurd hdata (by decide)
  · exact absurd (hmatch 0 (by decide) rfl) (by decide)

end LookupTable

end Sdpa.Hardware
