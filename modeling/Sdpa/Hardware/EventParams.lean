import Sdpa.Hardware.FlowEntries

/-!
# The parameters of events

`param_counter` counts the cycles since a word with control `0xff`, whether a word
is written in them or not, and a parameter is taken from the word that is there
when the counter is at its position. It is the right word if the words of the
packet come without a gap up to that one, and if the flow entry is announced
after it and before the counter comes round.
-/
namespace Sdpa.Hardware

open Lib.Clocked Lib.Frames

namespace HeaderParser

/-- `param_pos_k[4:1]`. -/
def wordAt (pos : BitVec 5) : Nat := (pos.extractLsb' 1 4).toNat

/-- The half of a word that `param_pos_k[0]` names. -/
def halfAt (pos : BitVec 5) (x : BitVec 64) : BitVec 32 :=
  if pos.getLsbD 0 then x.extractLsb' 0 32 else x.extractLsb' 32 32

/-- What the position names in a packet. -/
def paramOf (pos : BitVec 5) (pk : Packet) : BitVec 32 := halfAt pos (pk.word (wordAt pos))

def paramPos1 (s : HeaderParser) : BitVec 5 := s.paramPos.extractLsb' 0 5
def paramPos2 (s : HeaderParser) : BitVec 5 := s.paramPos.extractLsb' 5 5
def paramPos3 (s : HeaderParser) : BitVec 5 := s.paramPos.extractLsb' 10 5

/-- The bus writes the positions. -/
def setsParamPos (i : ParserIn) : Bool :=
  selected i && !i.regIn.rdWrL && addr i = regHpParamPosAddr

theorem setsParamPos_of_not_req {i : ParserIn} (h : i.regIn.req = false) :
    setsParamPos i = false := by
  rw [setsParamPos, selected, h, Bool.and_false, Bool.false_and, Bool.false_and]

theorem stepParamPos_of_not {i : ParserIn} (s : HeaderParser) (hreset : i.reset = false)
    (hsets : setsParamPos i = false) : stepParamPos i s = s.paramPos := by
  rw [setsParamPos] at hsets
  rw [stepParamPos, hreset, hsets]
  rfl

theorem wordAt_lt (pos : BitVec 5) : wordAt pos < 16 := (pos.extractLsb' 1 4).isLt

theorem stepEventParam_eq {i : ParserIn} {s : HeaderParser} {n : Nat} (pos : BitVec 5)
    (old : BitVec 32) (hreset : i.reset = false) (hcounter : s.paramCounter = BitVec.ofNat 4 n) :
    stepEventParam i s pos old = if n % 16 = wordAt pos then halfAt pos i.word.data else old := by
  have hpos : s.paramCounter = pos.extractLsb' 1 4 ↔ n % 16 = wordAt pos := by
    rw [hcounter, BitVec.toNat_eq, BitVec.toNat_ofNat]
    rfl
  rw [stepEventParam, hreset, if_neg Bool.false_ne_true]
  simp only [hpos]
  rfl

variable {i : Nat → ParserIn} {s : Nat → HeaderParser} (hfollows : Follows step i s)
  (hreset : ∀ t, (i t).reset = false) {H : Nat} (hheader : (i H).word.ctrl = 0xff)

include hfollows hreset hheader

/-- The counter tells the distance from the last word with control `0xff`. -/
theorem paramCounter_eq {n : Nat}
    (hquiet : ∀ u, H < u → u < H + 1 + n → (i u).word.ctrl ≠ 0xff) :
    (s (H + 1 + n)).paramCounter = BitVec.ofNat 4 n := by
  induction n with
  | zero =>
    rw [Nat.add_zero, hfollows H]
    show stepParamCounter (i H) (s H) = _
    rw [stepParamCounter, hreset, if_neg Bool.false_ne_true, if_pos hheader]
    rfl
  | succ n ih =>
    have hbefore := ih fun u hu hun => hquiet u hu (by omega)
    have hctrl := hquiet (H + 1 + n) (by omega) (by omega)
    rw [← Nat.add_assoc, hfollows (H + 1 + n)]
    show stepParamCounter (i (H + 1 + n)) (s (H + 1 + n)) = _
    rw [stepParamCounter, hreset, if_neg Bool.false_ne_true, if_neg hctrl, hbefore,
      BitVec.ofNat_add]
    rfl

/-- A parameter stays until the counter has come round. -/
theorem eventParam_eq {e : Nat → BitVec 32} {pos : BitVec 5}
    (he : ∀ t, e (t + 1) = stepEventParam (i t) (s t) pos (e t)) {n : Nat} (hn : n < 16)
    (hquiet : ∀ u, H < u → u < H + 1 + wordAt pos + n → (i u).word.ctrl ≠ 0xff) :
    e (H + 1 + wordAt pos + n + 1) = halfAt pos (i (H + 1 + wordAt pos)).word.data := by
  have hlt := wordAt_lt pos
  induction n with
  | zero =>
    have hcounter := paramCounter_eq hfollows hreset hheader hquiet
    rw [he, Nat.add_zero, stepEventParam_eq pos _ (hreset _) hcounter, if_pos (by omega)]
  | succ n ih =>
    have hbefore := ih (by omega) fun u hu hun => hquiet u hu (by omega)
    rw [Nat.add_assoc (H + 1)] at hquiet hbefore ⊢
    have hcounter := paramCounter_eq hfollows hreset hheader hquiet
    rw [he, stepEventParam_eq pos _ (hreset _) hcounter, if_neg (by omega)]
    exact hbefore

end HeaderParser

open HeaderParser (wordAt paramOf setsParamPos stepEventParam)

/-- Whenever `flow_entry_vld` is high, the parameters are those of its packet. -/
def EventParams (pkts : Nat → Packet) (s : Nat → HeaderParser) : Prop :=
  ∀ k T, IsNth (fun t => (s t).fsm.flowEntryVld) k T →
    (s T).eventParam1 = paramOf (s T).paramPos1 (pkts k) ∧
      (s T).eventParam2 = paramOf (s T).paramPos2 (pkts k) ∧
      (s T).eventParam3 = paramOf (s T).paramPos3 (pkts k)

/-- Data word `p` of packet `k` comes `p + 1` cycles after a word with control `0xff`. No other such
word comes until the entry word, which is not before data word `p` and less than sixteen cycles after
it. -/
def InTime (pkts : Nat → Packet) (i : Nat → ParserIn) (k p : Nat) : Prop :=
  ∀ E, IsNth (fun t => (i t).inWr) (entryAt pkts k) E →
    ∃ H, (i H).word.ctrl = 0xff ∧ (∀ u, H < u → u < E → (i u).word.ctrl ≠ 0xff) ∧
      IsNth (fun t => (i t).inWr) (start (lengths pkts) k + ((pkts k).hdrs.length + p))
        (H + 1 + p) ∧ p ≤ (pkts k).entryWord ∧ E < H + 1 + p + 16

/-- It does so if the packet has one header and no cycle is idle up to the entry word. -/
theorem inTime_of_consecutive {pkts : Nat → Packet} {i : Nat → ParserIn} {k p : Nat}
    (hcarries : Carries pkts (fun t => (i t).inWr) fun t => (i t).word)
    (hhdr : (pkts k).hdrs.length = 1) (hin : (pkts k).HeaderInside)
    (hconsecutive : ∀ H, IsNth (fun t => (i t).inWr) (start (lengths pkts) k) H →
      ∀ j, j ≤ 1 + (pkts k).entryWord →
        IsNth (fun t => (i t).inWr) (start (lengths pkts) k + j) (H + j))
    (hp : p ≤ (pkts k).entryWord) : InTime pkts i k p := by
  intro E hE
  have hentry : entryAt pkts k = start (lengths pkts) k + (1 + (pkts k).entryWord) := by
    rw [entryAt, hhdr]
  have hlen := (pkts k).length_words
  have hle := (pkts k).entryWord_le
  rw [Packet.HeaderInside] at hin
  have hsent : start (lengths pkts) k < count (fun t => (i t).inWr) (E + 1) := by
    have := (hE.lt_iff (E + 1)).mpr (Nat.lt_succ_self E)
    omega
  obtain ⟨H, -, hH⟩ := exists_nth hsent
  have hcycles := hconsecutive H hH
  obtain rfl : E = H + (1 + (pkts k).entryWord) :=
    (hentry ▸ hE).unique (hcycles _ (Nat.le_refl _))
  refine ⟨H, ?_, fun u hu huE => ?_, ?_, hp, by omega⟩
  · obtain ⟨hdr, hhdrs⟩ := List.length_eq_one_iff.mp hhdr
    obtain ⟨w, hw, hctrl⟩ := (pkts k).ioq
    have hfirst : (i H).word ∈ (pkts k).hdrs := Packet.mem_hdrs (by omega)
      (hcarries H k 0 hH.pulse ⟨hH.before, (pkts k).length_pos⟩)
    rw [hhdrs, List.mem_singleton] at hw hfirst
    rw [hfirst, ← hw]
    exact hctrl
  · obtain ⟨j, rfl⟩ : ∃ j, u = H + j := ⟨u - H, by omega⟩
    have hj := hcycles j (by omega)
    have hword : (pkts k).words[j]? = some (i (H + j)).word :=
      hcarries (H + j) k j hj.pulse ⟨hj.before, by rw [lengths]; omega⟩
    rw [(Packet.ctrl_eq_zero_iff (by omega) hword).mpr (by omega)]
    decide
  · rw [hhdr, Nat.add_assoc]
    exact hcycles (1 + p) (by omega)

namespace Presented

variable {pkts : Nat → Packet} {i : Nat → ParserIn} {s : Nat → HeaderParser}
  (h : Presented pkts i s)

include h

/-- Packet `k` is announced in cycle `E + 1`. -/
theorem eventParam_of_inTime {e : Nat → BitVec 32} {pos : BitVec 5}
    (he : ∀ t, e (t + 1) = stepEventParam (i t) (s t) pos (e t)) {k E : Nat}
    (hin : (pkts k).HeaderInside) (hE : IsNth (fun t => (i t).inWr) (entryAt pkts k) E)
    (htime : InTime pkts i k (wordAt pos)) : e (E + 1) = paramOf pos (pkts k) := by
  obtain ⟨H, hheader, hquiet, hword, hle, hround⟩ := htime E hE
  rw [Packet.HeaderInside] at hin
  have hlen := (pkts k).length_words
  have hnot : ¬ E < H + 1 + wordAt pos := by
    rw [← hE.lt_iff, hword.before, entryAt]
    omega
  obtain ⟨n, rfl⟩ : ∃ n, E = H + 1 + wordAt pos + n := ⟨E - (H + 1 + wordAt pos), by omega⟩
  have hdata : (i (H + 1 + wordAt pos)).word.data = (pkts k).word (wordAt pos) :=
    Packet.data_eq_word (h.carries _ k _ hword.pulse ⟨hword.before, by rw [lengths]; omega⟩)
  rw [HeaderParser.eventParam_eq h.follows h.reset hheader he (by omega) hquiet, hdata, paramOf]

theorem paramPos_eq (hset : ∀ t, setsParamPos (i t) = false) (t : Nat) :
    (s t).paramPos = (s 0).paramPos := by
  induction t with
  | zero => rfl
  | succ t ih =>
    rw [h.follows t, ← ih]
    exact HeaderParser.stepParamPos_of_not (s t) (h.reset t) (hset t)

end Presented

/-- The parameters are right if the words at the positions come in time. -/
theorem Presented.eventParams {pkts : Nat → Packet} {i : Nat → ParserIn} {s : Nat → HeaderParser}
    (h : Presented pkts i s) (hset : ∀ t, setsParamPos (i t) = false)
    (hin : ∀ k, (pkts k).HeaderInside)
    (htime : ∀ k, InTime pkts i k (wordAt (s 0).paramPos1) ∧
      InTime pkts i k (wordAt (s 0).paramPos2) ∧ InTime pkts i k (wordAt (s 0).paramPos3)) :
    EventParams pkts s := by
  have hpos := h.paramPos_eq hset
  intro k T hT
  obtain ⟨E, rfl, hE⟩ := isNth_of_flowEntryVld (f := fun t => (s t).fsm) h.fsm h.waits h.carries
    hin h.vld hT
  obtain ⟨htime1, htime2, htime3⟩ := htime k
  rw [HeaderParser.paramPos1, HeaderParser.paramPos2, HeaderParser.paramPos3, hpos]
  refine ⟨h.eventParam_of_inTime (e := fun t => (s t).eventParam1) (fun t => ?_) (hin k) hE htime1,
    h.eventParam_of_inTime (e := fun t => (s t).eventParam2) (fun t => ?_) (hin k) hE htime2,
    h.eventParam_of_inTime (e := fun t => (s t).eventParam3) (fun t => ?_) (hin k) hE htime3⟩
  all_goals
    show _ = stepEventParam _ _ _ _
    rw [h.follows t, ← hpos t]
    rfl

/-- Packets without a gap. -/
theorem eventParams_of_udp :
    EventParams (fun _ => udpOf 5)
      (run HeaderParser.step .start (.repeating (udpOf 5) fun _ => true)) := by
  have h := presented_repeating (udpOf 5) fun _ => true
  have hin : (udpOf 5).HeaderInside := by
    show (udpOf 5).entryWord < (udpOf 5).data.length
    decide
  have htime : ∀ k p, p ≤ (udpOf 5).entryWord →
      InTime (fun _ => udpOf 5) (.repeating (udpOf 5) fun _ => true) k p := by
    intro k p hp
    refine inTime_of_consecutive h.carries rfl hin (fun H hH j _ => ?_) hp
    obtain rfl := hH.unique (isNth_high _)
    exact isNth_high _
  exact h.eventParams (fun _ => HeaderParser.setsParamPos_of_not_req rfl) (fun _ => hin) fun k =>
    ⟨htime k 1 (by decide), htime k 1 (by decide), htime k 0 (by decide)⟩

/-- The cycle after the header is idle: the counter goes on, and data word zero is taken for data
word one. -/
theorem idle_cycle_counted :
    let i := ParserIn.repeating (udpOf 5) fun t => t != 1
    let s := run HeaderParser.step .start i
    Presented (fun _ => udpOf 5) i s ∧ ¬ EventParams (fun _ => udpOf 5) s := by
  intro i s
  refine ⟨presented_repeating _ _, fun hparams => ?_⟩
  have hnth : IsNth (fun t => (s t).fsm.flowEntryVld) 0 8 := ⟨by decide, by decide⟩
  exact absurd (hparams 0 8 hnth).1 (by decide)

end Sdpa.Hardware
