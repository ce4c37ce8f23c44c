import Sdpa.Hardware.AppPipeline

/-!
# Requests and their results

An application is done with a request fourteen cycles after it, and what it
hands on is that request with the action modified, as long as requests are at
least twelve cycles apart. The output FIFO is read twelve cycles after a request
and used one cycle later: a request that comes in between, nine to eleven cycles
after, is handed on in the place of the one before it.
-/
namespace Sdpa.Hardware

open Lib.Clocked

namespace StatefulApp

/-- Every request is answered once, in order, with its own words, its own action and the action
table entry found for it. -/
structure KeepsTogether (a : AppParams) (i : Nat → AppIn) (s : Nat → StatefulApp) : Prop where
  pulses : ∀ t, (s t).appDone = ago 14 (vld i) t
  words : ∀ t, vld i t = true →
    (s (t + 14)).out.matchField = (i t).request.matchField ∧
      (s (t + 14)).out.eventParam = (i t).request.eventParam
  own : ∀ t, vld i t = true → a.isFor (i t).request.appId = true →
    (s (t + 14)).out.appId = actionNextApp ((before a i s t).atEntry a (i t).request) ∧
      ModifiedBy (actionFlag ((before a i s t).atEntry a (i t).request))
        (actionParam ((before a i s t).atEntry a (i t).request)) (i t).request.action
        (s (t + 14)).out.action
  other : ∀ t, vld i t = true → a.isFor (i t).request.appId = false →
    (s (t + 14)).out.appId = (i t).request.appId ∧
      (s (t + 14)).out.action = (i t).request.action

variable {a : AppParams} {i : Nat → AppIn} {s : Nat → StatefulApp}

/-- At twelve cycles, the answer is that of the application without the clock. -/
theorem Runs.out_eq_answer (h : Runs a i s) (hvld : Spaced 12 (vld i)) {t : Nat}
    (ht : vld i t = true) : (s (t + 14)).out = (before a i s t).answer a (i t).request := by
  obtain ⟨u, v, hu, hv, hout⟩ := h.out_of_request (hvld.mono (by omega)) ht
  rw [hout, hu.eq_of_spaced (hvld.mono (by omega)) ht, hv.eq_of_spaced hvld ht]
  rfl

theorem Runs.keepsTogether (h : Runs a i s) (hvld : Spaced 12 (vld i)) : KeepsTogether a i s where
  pulses := h.served.appDone
  words t ht := by
    rw [h.out_eq_answer hvld ht, AppStore.answer]
    split <;> exact ⟨rfl, rfl⟩
  own t ht hfor := by
    rw [h.out_eq_answer hvld ht, AppStore.answer, if_pos hfor]
    exact ⟨rfl, modifiedBy_modifyAction _ _ _ _⟩
  other t ht hfor := by
    rw [h.out_eq_answer hvld ht, AppStore.answer, hfor]
    exact ⟨rfl, rfl⟩

/-- A request less than twelve cycles after another is handed on in its place. -/
theorem Runs.matchField_of_next (h : Runs a i s) (hvld : Spaced 9 (vld i)) {t u : Nat}
    (ht : vld i t = true) (hu : vld i u = true) (htu : t < u) (hut : u < t + 12) :
    (s (t + 14)).out.matchField = (i u).request.matchField := by
  obtain ⟨w, v, -, hv, hout⟩ := h.out_of_request hvld ht
  rw [hout, ← hv.2.2.2 u htu hut hu]
  split <;> rfl

/-- For requests in the cycles of `p`, at least nine cycles apart: whatever they carry and
whatever the tables hold, they and their results stay together, if and only if they are at least
twelve cycles apart. -/
theorem keepsTogether_iff_spaced (a : AppParams) {p : Nat → Bool} (hp : Spaced 9 p) :
    (∀ i s, Runs a i s → vld i = p → KeepsTogether a i s) ↔ Spaced 12 p := by
  constructor
  · intro hkeeps t u ht hu htu
    by_contra hlt
    -- All requests up to the first have match field zero, those after it one.
    let r : Nat → Request := fun v => ⟨0, if v ≤ t then 0 else 1, 0, 0⟩
    let m : AppStore := ⟨fun _ => ⟨0, 0, 0⟩, fun _ => ⟨0, 0, 0⟩, fun _ => ⟨0, 0, 0⟩, 0⟩
    have hruns := runs_start a m p r
    have hown := ((hkeeps _ _ hruns rfl).words t ht).1
    rw [hruns.matchField_of_next hp ht hu htu (by omega)] at hown
    have hzero : (r t).matchField = 0 := if_pos (Nat.le_refl t)
    have hone : (r u).matchField = 1 := if_neg (by omega)
    change (r u).matchField = (r t).matchField at hown
    rw [hzero, hone] at hown
    exact absurd hown (by decide)
  · rintro hspaced i s h rfl
    exact h.keepsTogether hspaced

/-! The test bench sends the same packet twice, nine cycles apart. Here the second packet is the
other one that it declares. -/

def twoPackets (t : Nat) : Request := ⟨2, if t = 0 then flowEntry else flowEntry2, 1, testbenchAction⟩

theorem keepsTogether_nineApart :
    ¬ ∀ i s, Runs testbenchApp i s → vld i = nineApart → KeepsTogether testbenchApp i s := by
  rw [keepsTogether_iff_spaced testbenchApp spaced_nineApart]
  intro h
  have := h 0 9 rfl rfl (by omega)
  omega

/-- The application is done with the first packet and shows the match field of the second. -/
theorem second_packet_handed_on :
    let s := run (step testbenchApp) (start (.afterReset testbenchApp)) (asks nineApart twoPackets)
    Runs testbenchApp (asks nineApart twoPackets) s ∧ (s 14).appDone = true ∧
      (twoPackets 0).matchField = flowEntry ∧ (s 14).out.matchField = flowEntry2 := by
  intro s
  have h := runs_start testbenchApp (.afterReset testbenchApp) nineApart twoPackets
  refine ⟨h, ?_, rfl, ?_⟩
  · rw [h.served.appDone]
    rfl
  · exact h.matchField_of_next spaced_nineApart (t := 0) (u := 9) rfl rfl (by omega) (by omega)

end StatefulApp

end Sdpa.Hardware
