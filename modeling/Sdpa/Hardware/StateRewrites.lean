import Sdpa.Hardware.StateUpdates

/-!
# Entries that the controller rewrites

A request writes the state back eight cycles after its keys were compared, to the
pair of lines that it found then. The write port of the bus is free in the cycles
between: a line of the pair that the controller gives to another flow in them
gets the state of the request, and a write in the cycle of the write-back is
lost.
-/
namespace Sdpa.Hardware

open Lib.Clocked

/-- The update port leaves other pairs alone. -/
theorem Update.apply_of_ne {c d : Nat} (u : Update d) (old lut : Nat → Entry c d) {n : Nat}
    (hn : n / 2 ≠ u.addr / 2) : u.apply old lut n = lut n := by
  rw [Update.apply]
  split
  · rw [Function.update_of_ne (by omega), Function.update_of_ne (by omega)]
  · rfl

namespace StatefulApp

/-- The bus writes line `n` of the state table. -/
def Rewrites (s : StatefulApp) (n : Nat) : Prop :=
  s.stateCamLutSm.pipe.camWe = true ∧ s.stateCamLutSm.pipe.camWrAddr = n

instance (s : StatefulApp) (n : Nat) : Decidable (Rewrites s n) := instDecidableAnd

/-- The write-back for the request of cycle `T` changes only lines with the keys that they had in
that cycle, and what the bus wrote to a line meanwhile stays. -/
structure SparesRewrites (s : Nat → StatefulApp) (T : Nat) : Prop where
  keys : ∀ n, (s (T + 9)).stateCamLutSm.lut n ≠ (s (T + 8)).stateCamLutSm.stepLut n →
    ((s (T + 8)).stateCamLutSm.lut n).cmp = ((s T).stateCamLutSm.lut n).cmp ∧
      ((s (T + 8)).stateCamLutSm.lut n).dmask = ((s T).stateCamLutSm.lut n).dmask
  kept : ∀ u n, T ≤ u → u ≤ T + 8 → Rewrites (s u) n →
    (∀ v, u < v → v ≤ T + 8 → ¬ Rewrites (s v) n) →
    ((s (T + 9)).stateCamLutSm.lut n).data = (s u).stateCamLutSm.pipe.lutWrData

theorem stepLut_of_not_rewrites {s : StatefulApp} {n : Nat} (h : ¬ Rewrites s n) :
    s.stateCamLutSm.stepLut n = s.stateCamLutSm.lut n := by
  rw [LookupTable.stepLut]
  split
  next hwe => exact Function.update_of_ne (fun hn => h ⟨hwe, hn.symm⟩) _ _
  next => rfl

theorem stepLut_of_rewrites {s : StatefulApp} {n : Nat} (h : Rewrites s n) :
    (s.stateCamLutSm.stepLut n).data = s.stateCamLutSm.pipe.lutWrData := by
  rw [LookupTable.stepLut, h.1, if_pos rfl, ← h.2, Function.update_self]

namespace Served

variable {a : AppParams} {i : Nat → AppIn} {s : Nat → StatefulApp} (h : Served a i s)

include h

theorem stLut_succ (t : Nat) : (s (t + 1)).stateCamLutSm.lut =
    (update a (s t)).apply (s t).stateCamLutSm.lut (s t).stateCamLutSm.stepLut := by
  rw [h.follows t]
  rfl

variable (hvld : Spaced 9 (vld i)) {T : Nat} (hT : vld i T = true)

include hvld hT

/-- No state is written back until the request of cycle `T` does so. -/
theorem stLut_succ_of_lt {t : Nat} (hTt : T ≤ t) (ht : t < T + 8) :
    (s (t + 1)).stateCamLutSm.lut = (s t).stateCamLutSm.stepLut := by
  have hlow : ago 8 (vld i) t = false := by
    rw [Bool.eq_false_iff]
    intro hago
    obtain ⟨u, rfl, hu⟩ := ago_iff.mp hago
    have := hvld u T hu hT (by omega)
    omega
  rw [h.stLut_succ t, Update.apply_of_not_req ((h.sttAck t).trans hlow)]

/-- A line that the bus does not write. -/
theorem stLut_of_not_rewrites {n u t : Nat} (hTu : T ≤ u) (hut : u ≤ t) (ht : t ≤ T + 8)
    (hnot : ∀ v, u ≤ v → v < t → ¬ Rewrites (s v) n) :
    (s t).stateCamLutSm.lut n = (s u).stateCamLutSm.lut n := by
  induction t, hut using Nat.le_induction with
  | base => rfl
  | succ t hut ih =>
    rw [h.stLut_succ_of_lt hvld hT (by omega) (by omega),
      stepLut_of_not_rewrites (hnot t hut (by omega))]
    exact ih (by omega) fun v hv hvt => hnot v hv (by omega)

/-- The line found is the one written back to. -/
theorem updateAddr_of_find {j : Nat}
    (hj : LookupTable.find a.stParams (s T).stateCamLutSm.lut (i T).request.matchField = some j) :
    (s (T + 8)).updateAddr = j := by
  obtain ⟨hhit, haddr, -⟩ := h.stServes.answer_of_find (t := T) hT hj
  have hack : ∀ t, (s t).stateCamLutSm.pipe.lookupAck = ago 4 (vld i) t := h.stAck
  have hstep : ∀ t, (s (t + 1)).updateAddr = stepUpdateAddr (i t) (s t) := fun t => by
    rw [h.follows t]
    rfl
  have hfirst : (s (T + 5)).updateAddr = j := by
    rw [hstep (T + 4), stepUpdateAddr, h.reset, hhit, hack, ago_add, hT]
    exact haddr
  have hstays : ∀ t, T + 4 < t → t < T + 13 → (s (t + 1)).updateAddr = (s t).updateAddr := by
    intro t hlt hle
    have hlow := (hvld.ago 4).low (t := T + 4) (by rw [ago_add, hT]) hlt (by omega)
    rw [hstep t, stepUpdateAddr, h.reset, hack, hlow, Bool.and_false]
    rfl
  rw [hstays (T + 7) (by omega) (by omega), hstays (T + 6) (by omega) (by omega),
    hstays (T + 5) (by omega) (by omega), hfirst]

end Served

/-! The packet of the test bench in cycle zero, and a write of line `n` by the bus: the write waits for
the lookup and reaches the table in the cycles five and six. -/

def rewriting (n : BitVec 32) (t : Nat) : AppIn :=
  { asks (fun t => t == 0) samePacket t with regIn := ⟨t == 3, false, false, 0x412, n, 0⟩ }

def rewritten (n : BitVec 32) : Nat → StatefulApp :=
  run (step testbenchApp) (start (.afterReset testbenchApp)) (rewriting n)

theorem served_rewriting (n : BitVec 32) : Served testbenchApp (rewriting n) (rewritten n) where
  follows := follows_run _ _ _
  reset _ := rfl
  tableFlush _ := rfl
  idle := idle_start _

theorem spaced_rewriting (n : BitVec 32) : Spaced 9 (vld (rewriting n)) := by
  intro t u ht hu htu
  change (t == 0) = true at ht
  change (u == 0) = true at hu
  rw [beq_iff_eq] at ht hu
  omega

theorem find_rewriting (n : BitVec 32) :
    LookupTable.find testbenchApp.stParams (rewritten n 0).stateCamLutSm.lut
      (rewriting n 0).request.matchField = some 1 := by
  show LookupTable.find testbenchApp.stParams testbenchApp.stParams.resetEntry flowEntry = some 1
  decide

/-- A request that finds line `j`, with no write of the bus to the pair of the line up to the
write-back. -/
theorem sparesRewrites {a : AppParams} {i : Nat → AppIn} {s : Nat → StatefulApp}
    (h : Served a i s) (hvld : Spaced 9 (vld i)) {T j : Nat} (hT : vld i T = true)
    (hj : LookupTable.find a.stParams (s T).stateCamLutSm.lut (i T).request.matchField = some j)
    (hpair : ∀ u n, T ≤ u → u ≤ T + 8 → Rewrites (s u) n → n / 2 ≠ j / 2) :
    SparesRewrites s T := by
  have haddr : (update a (s (T + 8))).addr = j := h.updateAddr_of_find hvld hT hj
  have hlut := h.stLut_succ (T + 8)
  refine ⟨fun n hn => ?_, fun u n hTu hu hwrites hlast => ?_⟩
  · have hsame : n / 2 = j / 2 := by
      by_contra hne
      rw [hlut, Update.apply_of_ne _ _ _ (haddr ▸ hne)] at hn
      exact hn rfl
    rw [h.stLut_of_not_rewrites hvld hT (Nat.le_refl T) (Nat.le_add_right T 8) (Nat.le_refl _)
      fun v hv hvT hwrites => hpair v n hv (by omega) hwrites hsame]
    exact ⟨rfl, rfl⟩
  · have hne := hpair u n hTu hu hwrites
    rw [hlut, Update.apply_of_ne _ _ _ (haddr ▸ hne)]
    rcases Nat.lt_or_eq_of_le hu with hlt | rfl
    · rw [stepLut_of_not_rewrites (hlast (T + 8) hlt (Nat.le_refl _)),
        h.stLut_of_not_rewrites hvld hT (u := u + 1) (by omega) (by omega) (Nat.le_refl _)
          fun v hv hvT => hlast v hv (by omega),
        h.stLut_succ_of_lt hvld hT hTu hlt]
      exact stepLut_of_rewrites hwrites
    · exact stepLut_of_rewrites hwrites

/-- The bus writes a line of another pair. -/
theorem rewrite_of_other_pair_spared : SparesRewrites (rewritten 4) 0 := by
  have hpair : ∀ u, u < 9 → (rewritten 4 u).stateCamLutSm.pipe.camWe = true →
      (rewritten 4 u).stateCamLutSm.pipe.camWrAddr / 2 ≠ 1 / 2 := by decide +kernel
  refine sparesRewrites (served_rewriting 4) (spaced_rewriting 4) rfl (find_rewriting 4)
    fun u n _ hu hwrites => ?_
  rw [← hwrites.2]
  exact hpair u (by omega) hwrites.1

/-- The bus writes the line found, with state zero: three cycles later it is in the state that the
packet leads to. -/
theorem rewritten_entry_moved :
    Served testbenchApp (rewriting 1) (rewritten 1) ∧ Spaced 9 (vld (rewriting 1)) ∧
      LookupTable.find testbenchApp.stParams (rewritten 1 0).stateCamLutSm.lut
        (rewriting 1 0).request.matchField = some 1 ∧
      ¬ SparesRewrites (rewritten 1) 0 := by
  refine ⟨served_rewriting 1, spaced_rewriting 1, find_rewriting 1, fun hspares => ?_⟩
  have hwrites : Rewrites (rewritten 1 6) 1 := by decide +kernel
  have hlast : ∀ v, v < 9 → 6 < v → ¬ Rewrites (rewritten 1 v) 1 := by decide +kernel
  have hkept := hspares.kept 6 1 (by decide) (by decide) hwrites
    fun v hv hle => hlast v (by omega) hv
  exact absurd hkept (by decide +kernel)

end StatefulApp

end Sdpa.Hardware
