import Sdpa.Hardware.OplPhases

/-!
# The three registers on the way out

A word is pushed into the first of three registers, and `out_wr_prep1` to `out_wr_prep3` say
which of them hold a word that is to be written. When nothing moves, `out_wr_prep1` falls, and
the word that was pushed in the cycle before is passed over when the registers move on. Only
the last three words of a packet leave whatever the registers say. `owed` are the words in the
registers that will leave.
-/
namespace Sdpa.Hardware

open OplAction OplProcessor OplRewriter

/-! ## The registers on the way out -/

/-- The registers hold the words pushed before, the last one first, and nothing of the packet
before is left to be written. -/
structure Piped (ws : List Word) (t : Nat) (s : OplProcessor) : Prop where
  slot1 : ∀ m w, t = m + 1 → ws[m]? = some w → s.slot1 = w
  slot2 : ∀ m w, t = m + 2 → ws[m]? = some w → s.slot2 = w
  slot3 : ∀ m w, t = m + 3 → ws[m]? = some w → s.slot3 = w
  prep1 : s.outWrPrep1 = true → 1 ≤ t
  prep2 : s.outWrPrep2 = true → 2 ≤ t
  prep3 : s.outWrPrep3 = true → 3 ≤ t

/-- No word is to be written. -/
structure Quiet (s : OplProcessor) : Prop where
  prep1 : s.outWrPrep1 = false
  prep2 : s.outWrPrep2 = false
  prep3 : s.outWrPrep3 = false
  ctrl : s.inFifoCtrlD1 ≠ 0

namespace Piped

variable {ws : List Word} {t : Nat} {s s' : OplProcessor}

theorem push {w : Word} (h : Piped ws t s) (hw : ws[t]? = some w) (hpush : Pushes w s s') :
    Piped ws (t + 1) s' where
  slot1 m v hm hv := by
    obtain rfl : t = m := by omega
    rw [hpush.slot1]
    exact Option.some.inj (hw.symm.trans hv)
  slot2 m v hm hv := hpush.slot2.trans (h.slot1 m v (by omega) hv)
  slot3 m v hm hv := hpush.slot3.trans (h.slot2 m v (by omega) hv)
  prep1 _ := by omega
  prep2 hprep := by
    have := h.prep1 (hpush.prep2 ▸ hprep)
    omega
  prep3 hprep := by
    have := h.prep2 (hpush.prep3 ▸ hprep)
    omega

theorem flush (h : Piped ws t s) (ht : ws.length ≤ t) (hflush : Flushes s s') :
    Piped ws (t + 1) s' where
  slot1 m v hm hv := by
    have := (List.getElem?_eq_some_iff.mp hv).1
    omega
  slot2 m v hm hv := hflush.slot2.trans (h.slot1 m v (by omega) hv)
  slot3 m v hm hv := hflush.slot3.trans (h.slot2 m v (by omega) hv)
  prep1 hprep := by rw [hflush.prep1] at hprep; cases hprep
  prep2 hprep := by rw [hflush.prep2] at hprep; cases hprep
  prep3 hprep := by rw [hflush.prep3] at hprep; cases hprep

theorem hold (h : Piped ws t s) : Piped ws t s.hold where
  slot1 := h.slot1
  slot2 := h.slot2
  slot3 := h.slot3
  prep1 hprep := by cases hprep
  prep2 := h.prep2
  prep3 := h.prep3

/-- At the start of a packet. -/
theorem zero (h : Quiet s) : Piped ws 0 s where
  slot1 m w hm := by omega
  slot2 m w hm := by omega
  slot3 m w hm := by omega
  prep1 hprep := by rw [h.prep1] at hprep; cases hprep
  prep2 hprep := by rw [h.prep2] at hprep; cases hprep
  prep3 hprep := by rw [h.prep3] at hprep; cases hprep

end Piped

/-! ## Words that are still to leave -/

/-- What leaves of the word that was pushed `a` words ago, if it is one to be written or one of
the last three. -/
def owes (ws : List Word) (t a : Nat) (prep : Bool) : List Word :=
  if a ≤ t ∧ (prep = true ∨ ws.length + a ≤ t + 3) then (ws[t - a]?).toList else []

/-- What leaves of the words in the registers. -/
def owed (ws : List Word) (t : Nat) (s : OplProcessor) : List Word :=
  owes ws t 3 s.outWrPrep3 ++ owes ws t 2 s.outWrPrep2 ++ owes ws t 1 s.outWrPrep1

section Owed

variable {ws : List Word} {t : Nat} {s s' : OplProcessor}

theorem owes_succ (ws : List Word) (t a : Nat) (prep : Bool) :
    owes ws (t + 1) (a + 1) prep = owes ws t a prep := by
  have hlast : ws.length + (a + 1) ≤ t + 1 + 3 ↔ ws.length + a ≤ t + 3 := by omega
  simp only [owes, Nat.add_sub_add_right, Nat.add_le_add_iff_right, hlast]

theorem owes_of_last {a : Nat} (h : ws.length + a ≤ t + 3) (p q : Bool) :
    owes ws t a p = owes ws t a q := by
  rw [owes, owes]
  congr 1
  exact propext ⟨fun hp => ⟨hp.1, .inr h⟩, fun hq => ⟨hq.1, .inr h⟩⟩

theorem owes_of_ge {a : Nat} (h : ws.length + a ≤ t) (p : Bool) : owes ws t a p = [] := by
  rw [owes, List.getElem?_eq_none (by omega)]
  exact ite_self _

theorem owed_over (h : ws.length + 3 ≤ t) : owed ws t s = [] := by
  rw [owed, owes_of_ge h, owes_of_ge (by omega), owes_of_ge (by omega)]
  rfl

theorem owed_zero : owed ws 0 s = [] := by
  simp [owed, owes]

/-- The word `out` leaves when the registers move on. -/
def leaves (s : OplProcessor) (out : Word) : List Word := if s.outWr then [out] else []

theorem owed_push {ps : List Word} {w out : Word} (h : Piped ps t s) (ht : t < ws.length)
    (hlen : 3 ≤ t → ws[t - 3]? = some out) (hw : ws[t]? = some w) {v : Word}
    (hpush : Pushes v s s') :
    leaves s' out ++ owed ws (t + 1) s' = owed ws t s ++ [w] := by
  have hfirst : leaves s' out = owes ws t 3 s.outWrPrep3 := by
    rw [leaves, hpush.wr, owes]
    cases hprep : s.outWrPrep3 with
    | true =>
      have h3 := h.prep3 hprep
      rw [if_pos rfl, if_pos ⟨h3, .inl rfl⟩, hlen h3]
      rfl
    | false =>
      rw [if_neg Bool.false_ne_true, if_neg]
      rintro ⟨-, hfalse | hle⟩
      · cases hfalse
      · omega
  have hlast : owes ws (t + 1) 1 s'.outWrPrep1 = [w] := by
    rw [owes, hpush.prep1, if_pos ⟨by omega, .inl rfl⟩, Nat.add_sub_cancel, hw]
    rfl
  rw [owed, owed, hlast, hpush.prep3, hpush.prep2, owes_succ, owes_succ, hfirst]
  simp only [List.append_assoc]

theorem owed_flush (ws : List Word) {out : Word} (ht : ws.length ≤ t) (h3 : 3 ≤ t)
    (hout : ws[t - 3]? = some out) (hflush : Flushes s s') :
    leaves s' out ++ owed ws (t + 1) s' = owed ws t s := by
  have hfirst : leaves s' out = owes ws t 3 s.outWrPrep3 := by
    rw [leaves, hflush.wr, owes, if_pos rfl, if_pos ⟨h3, .inr (by omega)⟩, hout]
    rfl
  have hlast : owes ws (t + 1) 1 s'.outWrPrep1 = [] := owes_of_ge (by omega) _
  rw [owed, owed, hlast, owes_succ, owes_succ, hfirst,
    owes_of_last (by omega) s'.outWrPrep3 s.outWrPrep2,
    owes_of_last (by omega) s'.outWrPrep2 s.outWrPrep1, List.append_nil, List.append_assoc]

/-- The processor is held up after it has pushed a word that is not one of the last three. -/
theorem owed_hold {ps : List Word} (h : Piped ps t s) :
    owed ws t s.hold =
      if s.outWrPrep1 = true ∧ t + 3 ≤ ws.length then (owed ws t s).dropLast else owed ws t s := by
  have hhold : owed ws t s.hold =
      owes ws t 3 s.outWrPrep3 ++ owes ws t 2 s.outWrPrep2 ++ owes ws t 1 false := rfl
  rw [hhold, owed]
  split_ifs with hlost
  · obtain ⟨hprep, hle⟩ := hlost
    have h1 := h.prep1 hprep
    have hget := List.getElem?_eq_getElem (l := ws) (i := t - 1) (by omega)
    have hnone : owes ws t 1 false = [] := by
      rw [owes, if_neg]
      rintro ⟨-, hfalse | hlast⟩
      · cases hfalse
      · omega
    have hone : owes ws t 1 true = [ws[t - 1]] := by
      rw [owes, if_pos ⟨h1, .inl rfl⟩, hget]
      rfl
    rw [hprep, hnone, hone, List.dropLast_concat, List.append_nil]
  · congr 1
    cases hprep : s.outWrPrep1 with
    | false => rfl
    | true => exact owes_of_last (by have := not_and.mp hlost hprep; omega) _ _

theorem owed_ne_nil {ps : List Word} (h : Piped ps t s) (hprep : s.outWrPrep1 = true)
    (ht : t ≤ ws.length) : owed ws t s ≠ [] := by
  have h1 := h.prep1 hprep
  have hget := List.getElem?_eq_getElem (l := ws) (i := t - 1) (by omega)
  rw [owed, hprep, owes, owes, owes, if_pos (show 1 ≤ t ∧ (true = true ∨ _) from ⟨h1, .inl rfl⟩), hget]
  simp

end Owed

/-! ## The words sent for a packet -/

section Sent

variable {a : BitVec 320} {pk : Packet} {n m : Nat}

theorem length_sentWords (a : BitVec 320) (pk : Packet) :
    (sentWords a pk).length = pushCount a pk := by
  rw [sentWords, List.length_append, List.length_map, List.length_range]
  rfl

theorem length_pushed_eq : (pushed a pk).length = pushCount a pk := length_pushed a pk

theorem sentWords_of_lt (hm : m < hdrCount a pk) : (sentWords a pk)[m]? = (pushed a pk)[m]? := by
  rw [sentWords, pushed, List.getElem?_append_left hm, List.getElem?_append_left hm]

theorem sentWords_data (hn : n < pk.data.length) :
    (sentWords a pk)[hdrCount a pk + n]? =
      some ⟨(pk.data.getD n ⟨0, 0⟩).ctrl, newWord a pk n⟩ := by
  rw [sentWords, hdrCount, List.getElem?_append_right (Nat.le_add_right _ _),
    Nat.add_sub_cancel_left, List.getElem?_map, List.getElem?_range hn]
  rfl

theorem pushed_getD (hn : n < pk.data.length) :
    (pushed a pk)[hdrCount a pk + n]? = some (pk.data.getD n ⟨0, 0⟩) := by
  rw [pushed, hdrCount, List.getElem?_append_right (Nat.le_add_right _ _),
    Nat.add_sub_cancel_left, List.getD_eq_getElem?_getD, List.getElem?_eq_getElem hn]
  rfl

end Sent

namespace Opl

/-- Both state machines within a packet. -/
structure Within (a : BitVec 320) (pk : Packet) (j t : Nat) (s : Opl) : Prop where
  sending : Sending a pk j t s.proc
  piped : Piped (pushed a pk) t s.proc
  post : PostAt a pk (t - hdrCount a pk) s.post

namespace Within

variable {a : BitVec 320} {pk : Packet} {j t : Nat} {i : OplIn} {s : Opl}

theorem ctrl_step (hticks : Ticks a pk j t i s.proc (s.proc.step i)) :
    (s.step i).proc.outCtrl = s.proc.inFifoCtrlD3 := by
  by_cases ht : t < pushCount a pk
  · obtain ⟨w, -, hpush⟩ := hticks.pushes ht
    exact hpush.ctrl
  · exact (hticks.flushes (by omega)).ctrl

theorem piped_step (h : Within a pk j t s) (hticks : Ticks a pk j t i s.proc (s.proc.step i)) :
    Piped (pushed a pk) (t + 1) (s.step i).proc := by
  by_cases ht : t < pushCount a pk
  · obtain ⟨w, hw, hpush⟩ := hticks.pushes ht
    exact h.piped.push hw hpush
  · refine h.piped.flush ?_ (hticks.flushes (by omega))
    rw [length_pushed_eq]
    omega

theorem hold (h : Within a pk j t s) (hreset : i.reset = false)
    (henb : outDataEnb i s.proc = false) : Within a pk j t (s.step i) := by
  have hstep : (s.step i).proc = s.proc.hold := (h.sending.stays hreset henb).1
  refine ⟨?_, ?_, h.post.hold hreset henb h.sending.known.within⟩
  · rw [hstep]
    exact h.sending.hold
  · rw [hstep]
    exact h.piped.hold

variable (hreset : i.reset = false) (ha : i.resultFifoDout.2 = a)
  (hword : inFifoRdEn i s.proc = true → pk.words[j]? = some i.inFifo)

include hreset ha hword

/-- The second state machine goes on with the first one, and the word that leaves is the one that
the action makes of what was pushed. -/
theorem rewrites (h : Within a pk j t s) (henb : outDataEnb i s.proc = true) :
    PostAt a pk (t + 1 - hdrCount a pk) (s.step i).post ∧
      (3 ≤ t → (sentWords a pk)[t - 3]? = some (s.step i).out) := by
  have hticks := h.sending.tick hreset ha hword henb
  have hlt := h.sending.lt
  have hctrl := ctrl_step hticks
  have hslot : ∀ w, 3 ≤ t → (pushed a pk)[t - 3]? = some w → s.proc.slot3 = w :=
    fun w h3 hw => h.piped.slot3 (t - 3) w (by omega) hw
  have hparsed := h.sending.known.toParsed
  -- Up to the third data word the words leave as they were pushed.
  have hearly : t - hdrCount a pk < 3 → 3 ≤ t →
      (sentWords a pk)[t - 3]? = some (s.step i).out := by
    intro hn h3
    have hdata : (s.step i).post.outData = s.proc.inFifoDataD3 :=
      h.post.tick_early hreset hn hparsed henb
    have hget := List.getElem?_eq_getElem (l := pushed a pk) (i := t - 3)
      (by rw [length_pushed_eq]; omega)
    have hout : (s.step i).out = s.proc.slot3 := by rw [out, hctrl, hdata]; rfl
    rw [sentWords_of_lt (by omega), hget, hout, hslot _ h3 hget]
  by_cases ht : t < hdrCount a pk
  · have hzero : t - hdrCount a pk = 0 := by omega
    refine ⟨?_, hearly (by omega)⟩
    have hpost := h.post
    rw [hzero] at hpost hparsed
    rw [show t + 1 - hdrCount a pk = 0 by omega]
    exact hpost.tick_hdr hreset (hparsed.first rfl)
  · obtain ⟨n, rfl⟩ : ∃ n, t = hdrCount a pk + n := ⟨t - hdrCount a pk, by omega⟩
    have hn : hdrCount a pk + n - hdrCount a pk = n := Nat.add_sub_cancel_left _ _
    have hpost := h.post
    rw [hn] at hpost hparsed hearly
    have hin : n < pk.data.length → i.inFifo.data = pk.word n := by
      intro hn'
      obtain ⟨hrd, hj⟩ := h.sending.reads (i := i) (Nat.le_add_right _ _) (Nat.add_lt_add_left hn' _)
      rw [hn] at hj
      rw [henb] at hrd
      have hw := hword hrd
      rw [hj] at hw
      exact Packet.data_eq_word hw
    rw [pushCount, Nat.add_assoc, Nat.add_lt_add_iff_left] at hlt
    have hslot' : 3 ≤ n → s.proc.slot3 = pk.data.getD (n - 3) ⟨0, 0⟩ := by
      intro h3
      refine hslot _ (by omega) ?_
      rw [Nat.add_sub_assoc h3]
      exact pushed_getD (by omega)
    obtain ⟨hnext, hout⟩ := hpost.tick hreset hparsed henb ha hin
      (fun h3 => congrArg Word.data (hslot' h3)) hlt
    refine ⟨by rw [Nat.add_assoc, Nat.add_sub_cancel_left]; exact hnext, fun h3 => ?_⟩
    by_cases hsmall : n < 3
    · exact hearly hsmall h3
    · have h3n : 3 ≤ n := by omega
      have hdata : (s.step i).post.outData = newWord a pk (n - 3) := hout h3n
      rw [Nat.add_sub_assoc h3n, sentWords_data (by omega), out, hctrl, hdata, ← hslot' h3n]
      rfl

theorem tick (h : Within a pk j t s) (henb : outDataEnb i s.proc = true)
    (ht : t < pushCount a pk + 2) :
    Within a pk (j + if inFifoRdEn i s.proc then 1 else 0) (t + 1) (s.step i) := by
  have hticks := h.sending.tick hreset ha hword henb
  exact ⟨hticks.goes ht, h.piped_step hticks, (h.rewrites hreset ha hword henb).1⟩

end Within

end Opl

end Sdpa.Hardware
