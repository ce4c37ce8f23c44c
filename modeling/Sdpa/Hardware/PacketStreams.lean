import Sdpa.Hardware.FlowEntries
import Sdpa.Lib.Streams

/-!
# Streams of packets

A sender of packets writes the words of one packet after the other. `streamWord` is such
a stream, and `frame` makes packets to send.
-/
namespace Sdpa.Hardware

open Lib.Clocked Lib.Streams Lib.Frames

/-- The words of the stream are those of the packets. -/
theorem Carries.getElem? {pkts : Nat → Packet} {wr : Nat → Bool} {w : Nat → Word}
    (h : Carries pkts wr w) {t n k j : Nat} {x : Word} (hat : IsAt (lengths pkts) n k j)
    (hx : (sent wr w t)[n]? = some x) : (pkts k).words[j]? = some x := by
  rw [sent, List.getElem?_map, Option.map_eq_some_iff] at hx
  obtain ⟨F, hF, rfl⟩ := hx
  have hnth := isNth_of_pulses hF
  exact h F k j hnth.pulse (by rwa [hnth.before])

/-- Word `n` of the stream of packets. -/
def streamWord (pkts : Nat → Packet) (n : Nat) : Word :=
  (flat (fun k => (pkts k).words) (n + 1)).getD n ⟨0, 0⟩

theorem carries_streamWord (pkts : Nat → Packet) (wr : Nat → Bool) {w : Nat → Word}
    (hw : ∀ t, w t = streamWord pkts (count wr t)) : Carries pkts wr w := by
  intro t k j _ hat
  -- Every packet has a word, so that a packet has no larger number than its words.
  have hk : k < count wr t + 1 := by
    have hmul : start (lengths pkts) 0 + 1 * k ≤ start (lengths pkts) (0 + k) :=
      start_add_le (fun k => (pkts k).length_pos) 0 k
    have heq := hat.eq
    rw [start_zero, Nat.zero_add, Nat.zero_add] at hmul
    omega
  have hget := flat_getElem? (f := fun k => (pkts k).words) hat hk
  have hsome := List.getElem?_eq_getElem (l := (pkts k).words) hat.lt
  rw [hw t, streamWord, List.getD_eq_getElem?_getD, hget, hsome]
  rfl

theorem frame_hdrs_ctrl (d : BitVec 64) : ∀ w ∈ [(⟨ioQueueStageNum, d⟩ : Word)], w.ctrl ≠ 0 := by
  intro w hw
  rw [List.mem_singleton.mp hw]
  show ioQueueStageNum ≠ 0
  decide

theorem frame_ioq (d : BitVec 64) :
    ∃ w ∈ [(⟨ioQueueStageNum, d⟩ : Word)], w.ctrl = ioQueueStageNum :=
  ⟨_, List.mem_singleton_self _, rfl⟩

theorem frame_body_ctrl (second : BitVec 64) (n : Nat) :
    ∀ w ∈ ⟨0, 0⟩ :: ⟨0, second⟩ :: List.replicate (n + 5) (⟨0, 0⟩ : Word), w.ctrl = 0 := by
  intro w hw
  rcases List.mem_cons.mp hw with rfl | hw
  · rfl
  rcases List.mem_cons.mp hw with rfl | hw
  · rfl
  · rw [List.eq_of_mem_replicate hw]

theorem frame_size (second : BitVec 64) (n : Nat) :
    7 ≤ (⟨0, 0⟩ :: ⟨0, second⟩ :: List.replicate (n + 5) (⟨0, 0⟩ : Word)).length := by simp

theorem frame_last_ctrl : (⟨0x10, 0⟩ : Word).ctrl ≠ 0 := by decide

/-- A frame of `n + 8` data words with a given second data word. Its counts are those of nine data
words, of which the last one has four bytes. -/
def frame (second : BitVec 64) (n : Nat) : Packet where
  hdrs := [⟨ioQueueStageNum, 0x0000000900000044⟩]
  body := ⟨0, 0⟩ :: ⟨0, second⟩ :: List.replicate (n + 5) ⟨0, 0⟩
  last := ⟨0x10, 0⟩
  hdrs_ctrl := frame_hdrs_ctrl _
  ioq := frame_ioq _
  body_ctrl := frame_body_ctrl second n
  last_ctrl := frame_last_ctrl
  size := frame_size second n

end Sdpa.Hardware
