import Mathlib.Data.List.Basic
import Mathlib.Data.Nat.Notation

/-!
# Packets on the data path

A packet is a run of 64-bit words, each with a control byte: module headers,
whose control is not zero and one of which is the header of the input queue, then
the data words. The control of a data word is zero except for the last one.
-/
namespace Sdpa.Hardware

/-- `{in_ctrl, in_data}`. -/
structure Word where
  ctrl : BitVec 8
  data : BitVec 64
deriving DecidableEq, Repr

def ioQueueStageNum : BitVec 8 := 0xff

def vlanCtrlWord : BitVec 8 := 0x42

/-- `v[pos +: w] <= x`. -/
def putBits {n w : Nat} (pos : Nat) (x : BitVec w) (v : BitVec n) : BitVec n :=
  v &&& ~~~((BitVec.allOnes w).setWidth n <<< pos) ||| x.setWidth n <<< pos

/-- A well-formed packet. It has at least eight data words: an Ethernet frame has sixty bytes or
more. -/
structure Packet where
  hdrs : List Word
  body : List Word
  last : Word
  hdrs_ctrl : ∀ w ∈ hdrs, w.ctrl ≠ 0
  ioq : ∃ w ∈ hdrs, w.ctrl = ioQueueStageNum
  body_ctrl : ∀ w ∈ body, w.ctrl = 0
  last_ctrl : last.ctrl ≠ 0
  size : 7 ≤ body.length

namespace Packet

variable (pk : Packet)

def data : List Word := pk.body ++ [pk.last]

def words : List Word := pk.hdrs ++ pk.data

/-- Data word `d`. -/
def word (d : Nat) : BitVec 64 := (pk.data.getD d ⟨0, 0⟩).data

theorem length_words : pk.words.length = pk.hdrs.length + pk.data.length := List.length_append

theorem length_data : pk.data.length = pk.body.length + 1 := by simp [data]

theorem length_data_ge : 8 ≤ pk.data.length := by
  have := pk.size
  rw [length_data]
  omega

theorem length_hdrs_pos : 0 < pk.hdrs.length := by
  obtain ⟨w, hw, -⟩ := pk.ioq
  exact List.length_pos_of_mem hw

theorem length_pos : 0 < pk.words.length := by
  have := pk.length_hdrs_pos
  rw [length_words]
  omega

variable {pk} {w : Word} {j : Nat}

theorem mem_hdrs (hj : j < pk.hdrs.length) (hw : pk.words[j]? = some w) : w ∈ pk.hdrs := by
  rw [words, List.getElem?_append_left hj] at hw
  exact List.mem_of_getElem? hw

theorem ctrl_of_hdr (hj : j < pk.hdrs.length) (hw : pk.words[j]? = some w) : w.ctrl ≠ 0 :=
  pk.hdrs_ctrl w (mem_hdrs hj hw)

/-- Of the data words, only the last one has a control. -/
theorem ctrl_eq_zero_iff (hj : pk.hdrs.length ≤ j) (hw : pk.words[j]? = some w) :
    w.ctrl = 0 ↔ j + 1 < pk.words.length := by
  rw [words, List.getElem?_append_right hj] at hw
  rw [length_words, length_data]
  by_cases hbody : j - pk.hdrs.length < pk.body.length
  · rw [data, List.getElem?_append_left hbody] at hw
    exact ⟨fun _ => by omega, fun _ => pk.body_ctrl w (List.mem_of_getElem? hw)⟩
  · rw [data, List.getElem?_append_right (by omega), List.getElem?_singleton] at hw
    split at hw
    · obtain rfl : pk.last = w := Option.some.inj hw
      exact ⟨fun hzero => absurd hzero pk.last_ctrl, fun hlt => by omega⟩
    · cases hw

theorem data_eq_word {d : Nat} (hw : pk.words[pk.hdrs.length + d]? = some w) :
    w.data = pk.word d := by
  rw [words, List.getElem?_append_right (by omega), Nat.add_sub_cancel_left] at hw
  rw [word, List.getD_eq_getElem?_getD, hw]
  rfl

end Packet

end Sdpa.Hardware
