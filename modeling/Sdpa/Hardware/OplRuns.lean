import Sdpa.Hardware.OplPipe
import Sdpa.Hardware.PacketStreams

/-!
# Runs of the output port lookup processor

Each packet is sent as its action has it, or not at all if no output port is set. The words
pushed are those of the packets in their order. What comes out is a log of them from which
the last word is taken back whenever the processor is held up behind it, the last three
words of a packet apart. So a processor that is never held up within a packet sends every
packet as it should be, and one that is sends packets with words missing.
-/
namespace Sdpa.Hardware.Opl

open OplAction OplProcessor OplRewriter Lib.Clocked Lib.Frames Lib.Streams

variable (pkts : Nat → Packet) (act : Nat → BitVec 320)

/-- The words that packet `k` should be sent as. -/
def sentOf (k : Nat) : List Word :=
  if forwardBitmask (act k) = 0 then [] else sentWords (act k) (pkts k)

/-- How many words were to be pushed before packet `k`. -/
def pushedBefore (k : Nat) : Nat := start (fun k => (sentOf pkts act k).length) k

/-! ## One cycle

`P` words were pushed and `G` results were taken before. -/

section Cycle

variable (i : OplIn) (s : Opl) (P G : Nat)

def push : Bool := outDataEnb i s.proc && s.proc.state ≠ .writeLastWord

/-- The word pushed. -/
def pushWord : Word := (flat (sentOf pkts act) G).getD P ⟨0, 0⟩

/-- The word pushed in the cycle before is lost: nothing moves, and three or more words of the
packet are still to be pushed. -/
def loses : Bool :=
  s.proc.outWrPrep1 && !outDataEnb i s.proc && 3 ≤ pushedBefore pkts act G - P

end Cycle

/-- In how many steps packet `k` is done: its result is taken, it is begun, and then its words are
read or the registers move on. -/
def stepsOf (k : Nat) : Nat :=
  2 + if forwardBitmask (act k) = 0 then (pkts k).words.length else pushCount (act k) (pkts k) + 3

/-- The processor is done with `k` packets and `p` steps of the next one when `R` words were read,
`P` words were pushed and `G` results were taken. The words in the last argument are still to
leave. -/
inductive At (k p R P G : Nat) (s : Opl) : List Word → Prop
  | waits (state : s.proc.state = .waitForInput) (pos : p = 0) (quiet : Quiet s.proc)
      (read : R = start (lengths pkts) k) (pushed : P = pushedBefore pkts act k)
      (taken : G = k) : At k p R P G s []
  | granted (state : s.proc.state = .writeReplacements) (pos : p = 1) (quiet : Quiet s.proc)
      (read : R = start (lengths pkts) k) (pushed : P = pushedBefore pkts act k)
      (taken : G = k + 1) : At k p R P G s []
  | drops {j : Nat} (state : s.proc.state = .dropPkt) (pos : p = 2 + j)
      (mask : forwardBitmask (act k) = 0)
      (prep1 : s.proc.outWrPrep1 = false) (prep2 : s.proc.outWrPrep2 = false)
      (prep3 : s.proc.outWrPrep3 = false)
      (ctrl : s.proc.inFifoCtrlD1 = 0 ↔ (pkts k).hdrs.length < j)
      (read : R = start (lengths pkts) k + j) (lt : j < (pkts k).words.length)
      (pushed : P = pushedBefore pkts act k) (taken : G = k + 1) : At k p R P G s []
  | sends {j t : Nat} (within : Within (act k) (pkts k) j t s) (pos : p = 2 + t)
      (mask : forwardBitmask (act k) ≠ 0) (read : R = start (lengths pkts) k + j)
      (pushed : P = pushedBefore pkts act k + min t (pushCount (act k) (pkts k)))
      (taken : G = k + 1) : At k p R P G s (owed (sentWords (act k) (pkts k)) t s.proc)

/-- The steps done altogether. -/
def mark (k p : Nat) : Nat := start (stepsOf pkts act) k + p

/-- What the processor waits for is there: a result, the output or a word. -/
def awaited (i : OplIn) (s : OplProcessor) : Bool :=
  match s.state with
  | .waitForInput => !i.resultFifoEmpty
  | .writeReplacements => i.forwardBitmask = 0 || i.outRdy
  | .dropPkt => !i.inFifoEmpty
  | _ => outDataEnb i s

/-- What one cycle does: the words that leave or are still to leave are those from before and the
one that is pushed, or without the last one if it is lost. -/
structure Steps (i : OplIn) (s : Opl) (k p R P G : Nat) (ow : List Word) : Prop where
  next : ∃ k' p' ow', mark pkts act k p + (if awaited i s.proc then 1 else 0) ≤
      mark pkts act k' p' ∧
    At pkts act k' p' (R + if inFifoRdEn i s.proc then 1 else 0)
      (P + if push i s then 1 else 0) (G + if resultFifoRdEn i s.proc then 1 else 0) (s.step i) ow' ∧
    leaves (s.step i).proc (s.step i).out ++ ow' =
      if push i s then ow ++ [pushWord pkts act P G]
      else if loses pkts act i s P G then ow.dropLast
      else ow
  pushed : push i s = true → P < (flat (sentOf pkts act) G).length
  lost : loses pkts act i s P G = true → push i s = false ∧ ow ≠ []

variable {pkts act} {i : OplIn} {s : Opl} {k p R P G : Nat}

theorem pushedBefore_succ (k : Nat) :
    pushedBefore pkts act (k + 1) = pushedBefore pkts act k + (sentOf pkts act k).length := rfl

theorem sentOf_of_mask (pkts : Nat → Packet) (h : forwardBitmask (act k) ≠ 0) :
    sentOf pkts act k = sentWords (act k) (pkts k) := if_neg h

theorem sentOf_of_drop (h : forwardBitmask (act k) = 0) : sentOf pkts act k = [] := if_pos h

theorem length_sentOf (pkts : Nat → Packet) (h : forwardBitmask (act k) ≠ 0) :
    (sentOf pkts act k).length = pushCount (act k) (pkts k) := by
  rw [sentOf_of_mask pkts h, length_sentWords]

theorem length_flat_sentOf (k : Nat) :
    (flat (sentOf pkts act) k).length = pushedBefore pkts act k := length_flat _ k

theorem awaited_of_sending {a : BitVec 320} {pk : Packet} {j t : Nat}
    (h : Sending a pk j t s.proc) : awaited i s.proc = outDataEnb i s.proc := by
  rw [awaited]
  cases h.phase with
  | dest state => rw [state]
  | ioHdr state => rw [state]
  | hdr1st state => rw [state]
  | data state => rcases state with state | state <;> rw [state]
  | flush state => rw [state]

theorem mark_le_succ {b : Bool} : mark pkts act k p + (if b then 1 else 0) ≤ mark pkts act k (p + 1) := by
  rw [mark, mark]
  split <;> omega

/-- The last step of a packet. -/
theorem mark_le_next {b : Bool} {p' : Nat} (hp : p + 1 = stepsOf pkts act k) :
    mark pkts act k p + (if b then 1 else 0) ≤ mark pkts act (k + 1) p' := by
  rw [mark, mark, start_succ, ← hp]
  split <;> omega

/-- A cycle in which nothing is pushed and nothing leaves. -/
theorem Steps.of_quiet {ow : List Word} (hprep : s.proc.outWrPrep1 = false)
    (henb : outDataEnb i s.proc = false) (hwr : (s.step i).proc.outWr = false)
    (hnext : ∃ k' p', mark pkts act k p + (if awaited i s.proc then 1 else 0) ≤
        mark pkts act k' p' ∧
      At pkts act k' p' (R + if inFifoRdEn i s.proc then 1 else 0) P
        (G + if resultFifoRdEn i s.proc then 1 else 0) (s.step i) ow) :
    Steps pkts act i s k p R P G ow := by
  have hpush : push i s = false := by rw [push, henb, Bool.false_and]
  have hloses : loses pkts act i s P G = false := by rw [loses, hprep, Bool.false_and, Bool.false_and]
  obtain ⟨k', p', hmark, hat⟩ := hnext
  refine ⟨⟨k', p', ow, hmark, ?_, ?_⟩, fun h => ?_, fun h => ?_⟩
  · rw [hpush]
    exact hat
  · rw [hpush, hloses, leaves, hwr]
    rfl
  · rw [hpush] at h
    cases h
  · rw [hloses] at h
    cases h

/-- After a packet. -/
theorem at_afterPacket {s' : Opl} (hstate : s'.proc.state = afterPacket i) (hquiet : Quiet s'.proc)
    (hread : R = start (lengths pkts) k) (hpushed : P = pushedBefore pkts act k) :
    At pkts act k (if !i.resultFifoEmpty then 1 else 0) R P
      (k + if !i.resultFifoEmpty then 1 else 0) s' [] := by
  rw [afterPacket] at hstate
  cases hempty : i.resultFifoEmpty with
  | true =>
    rw [hempty] at hstate
    exact .waits hstate rfl hquiet hread hpushed rfl
  | false =>
    rw [hempty] at hstate
    exact .granted hstate rfl hquiet hread hpushed rfl

section Step

variable (hreset : i.reset = false)

include hreset

theorem steps_waits (hstate : s.proc.state = .waitForInput) (hquiet : Quiet s.proc)
    (hread : R = start (lengths pkts) k) (hpushed : P = pushedBefore pkts act k) :
    Steps pkts act i s k 0 R P k [] := by
  have hstep : (s.step i).proc = { hold s.proc with state := afterPacket i } :=
    step_waitForInput hreset hstate
  have hrd : inFifoRdEn i s.proc = false := by rw [inFifoRdEn, hstate]
  have hres : resultFifoRdEn i s.proc = !i.resultFifoEmpty := by
    rw [resultFifoRdEn, finished, hstate, Bool.true_and]
  have hawaited : awaited i s.proc = !i.resultFifoEmpty := by rw [awaited, hstate]
  refine .of_quiet hquiet.prep1 (by rw [outDataEnb, hstate]) (by rw [hstep]; rfl)
    ⟨k, _, Nat.le_refl _, ?_⟩
  rw [hrd, hres, hawaited]
  refine at_afterPacket (by rw [hstep]) ?_ hread hpushed
  rw [hstep]
  exact ⟨rfl, hquiet.prep2, hquiet.prep3, hquiet.ctrl⟩

theorem steps_granted (ha : i.resultFifoDout.2 = act k) (hstate : s.proc.state = .writeReplacements)
    (hquiet : Quiet s.proc) (hread : R = start (lengths pkts) k)
    (hpushed : P = pushedBefore pkts act k) : Steps pkts act i s k 1 R P (k + 1) [] := by
  have hstep : (s.step i).proc = stepWriteReplacements i s.proc :=
    step_writeReplacements hreset hstate
  have hrd : inFifoRdEn i s.proc = false := by rw [inFifoRdEn, hstate]
  have hres : resultFifoRdEn i s.proc = false :=
    resultFifoRdEn_of_not_finished _ _ (by rw [finished, hstate])
  have hmask : i.forwardBitmask = forwardBitmask (act k) := by
    rw [← ha]
    rfl
  have hquiet' : Quiet (s.step i).proc := by
    rw [hstep]
    exact ⟨rfl, hquiet.prep2, hquiet.prep3, hquiet.ctrl⟩
  refine .of_quiet hquiet.prep1 (by rw [outDataEnb, hstate]) (by rw [hstep]; rfl) ?_
  rw [hrd, hres]
  by_cases hzero : i.forwardBitmask = 0
  · have hstate' : (s.step i).proc.state = .dropPkt := by
      rw [hstep]
      exact if_pos hzero
    refine ⟨k, 2, mark_le_succ, .drops (j := 0) hstate' rfl (hmask ▸ hzero) hquiet'.prep1
      hquiet'.prep2 hquiet'.prep3 ?_ hread (pkts k).length_pos hpushed rfl⟩
    exact ⟨fun h => absurd h hquiet'.ctrl, fun h => absurd h (Nat.not_lt_zero _)⟩
  · cases hrdy : i.outRdy with
    | false =>
      have hstate' : (s.step i).proc.state = .writeReplacements := by
        rw [hstep, stepWriteReplacements, if_neg hzero, hrdy]
        rfl
      refine ⟨k, 1, ?_, .granted hstate' rfl hquiet' hread hpushed rfl⟩
      rw [awaited, hstate, decide_eq_false hzero, hrdy]
      exact Nat.le_refl _
    | true =>
      have hwithin : Within (act k) (pkts k) 0 0 (s.step i) := by
        refine ⟨sending_zero hreset hstate hzero hrdy hquiet.ctrl, .zero hquiet', ?_⟩
        rw [Nat.zero_sub]
        exact postAt_of_writeReplacements hreset hstate
      have hsends : At pkts act k 2 R P (k + 1) (s.step i) _ :=
        .sends hwithin rfl (hmask ▸ hzero) hread (by rw [Nat.zero_min]; exact hpushed) rfl
      rw [owed_zero] at hsends
      exact ⟨k, 2, mark_le_succ, hsends⟩

omit hreset in
/-- The control of the last word of a dropped packet comes behind one that is zero. -/
theorem isEop_of_drop {pk : Packet} {j : Nat} {f : OplProcessor} (hw : pk.words[j]? = some i.inFifo)
    (hj : j < pk.words.length) (hctrl : f.inFifoCtrlD1 = 0 ↔ pk.hdrs.length < j) :
    (isEop i f = true ↔ j + 1 = pk.words.length) ∧
      (j + 1 < pk.words.length → (i.inFifo.ctrl = 0 ↔ pk.hdrs.length < j + 1)) := by
  have hlen := pk.length_words
  have hdata := pk.length_data_ge
  rw [isEop, Bool.and_eq_true, decide_eq_true_eq, decide_eq_true_eq, hctrl]
  by_cases hhdr : j < pk.hdrs.length
  · have hne := Packet.ctrl_of_hdr hhdr hw
    exact ⟨⟨fun h => by omega, fun h => by omega⟩, fun _ =>
      ⟨fun h => absurd h hne, fun h => by omega⟩⟩
  · have hzero := Packet.ctrl_eq_zero_iff (by omega) hw
    rw [ne_eq, hzero]
    exact ⟨⟨fun h => by omega, fun h => ⟨by omega, by omega⟩⟩, fun h =>
      ⟨fun _ => by omega, fun _ => h⟩⟩

theorem steps_drops {j : Nat} (hword : inFifoRdEn i s.proc = true → (pkts k).words[j]? = some i.inFifo)
    (hstate : s.proc.state = .dropPkt) (hmask : forwardBitmask (act k) = 0)
    (hprep1 : s.proc.outWrPrep1 = false) (hprep2 : s.proc.outWrPrep2 = false)
    (hprep3 : s.proc.outWrPrep3 = false)
    (hctrl : s.proc.inFifoCtrlD1 = 0 ↔ (pkts k).hdrs.length < j)
    (hread : R = start (lengths pkts) k + j) (hj : j < (pkts k).words.length)
    (hpushed : P = pushedBefore pkts act k) : Steps pkts act i s k (2 + j) R P (k + 1) [] := by
  have hstep : (s.step i).proc = if inFifoRdEn i s.proc then stepDropPkt i s.proc else hold s.proc :=
    step_dropPkt hreset hstate
  have hrdEn : inFifoRdEn i s.proc = !i.inFifoEmpty := by rw [inFifoRdEn, hstate]
  have hres : resultFifoRdEn i s.proc =
      (inFifoRdEn i s.proc && isEop i s.proc && !i.resultFifoEmpty) := by
    rw [resultFifoRdEn, finished, hstate, hrdEn]
  have hwr : (s.step i).proc.outWr = false := by
    rw [hstep]
    split <;> rfl
  refine .of_quiet hprep1 (by rw [outDataEnb, hstate]) hwr ?_
  cases hrd : inFifoRdEn i s.proc with
  | false =>
    rw [hrd, if_neg Bool.false_ne_true] at hstep
    have hempty : i.inFifoEmpty = true := by rwa [hrd, eq_comm, Bool.not_eq_false'] at hrdEn
    rw [hres, hrd]
    refine ⟨k, 2 + j, ?_, .drops ?_ rfl hmask ?_ ?_ ?_ ?_ hread hj hpushed rfl⟩
    · rw [awaited, hstate, hempty]
      exact Nat.le_refl _
    all_goals rw [hstep]
    exacts [hstate, rfl, hprep2, hprep3, hctrl]
  | true =>
    rw [hrd, if_pos rfl] at hstep
    obtain ⟨heop, hnext⟩ := isEop_of_drop (hword hrd) hj hctrl
    by_cases hlast : j + 1 = (pkts k).words.length
    · have heop' := heop.mpr hlast
      have hne : i.inFifo.ctrl ≠ 0 := by
        rw [isEop, Bool.and_eq_true, decide_eq_true_eq] at heop'
        exact heop'.1
      rw [hres, hrd, heop', Bool.true_and, Bool.true_and]
      refine ⟨k + 1, _, mark_le_next ?_, at_afterPacket ?_ ?_ ?_ ?_⟩
      · rw [stepsOf, if_pos hmask]
        omega
      · rw [hstep]
        exact if_pos heop'
      · rw [hstep]
        exact ⟨rfl, hprep2, hprep3, hne⟩
      · rw [hread, if_pos rfl, start_succ, Nat.add_assoc, hlast]
        rfl
      · rw [hpushed, pushedBefore_succ, sentOf_of_drop hmask]
        rfl
    · have heop' : isEop i s.proc = false := Bool.eq_false_iff.mpr (heop.not.mpr hlast)
      have hlt : j + 1 < (pkts k).words.length := by omega
      rw [hres, heop', Bool.and_false, Bool.false_and]
      refine ⟨k, 2 + j + 1, mark_le_succ, .drops (j := j + 1) ?_ rfl hmask ?_ ?_ ?_ ?_ ?_ hlt hpushed
        rfl⟩
      · rw [hstep, stepDropPkt, heop']
        rfl
      · rw [hstep]
        rfl
      · rw [hstep]
        exact hprep2
      · rw [hstep]
        exact hprep3
      · rw [hstep]
        exact hnext hlt
      · rw [hread, if_pos rfl, Nat.add_assoc]

/-! A packet that is sent. -/

omit hreset in
theorem pushWord_eq {t : Nat} (hmask : forwardBitmask (act k) ≠ 0)
    (ht : t < pushCount (act k) (pkts k)) (hpushed : P = pushedBefore pkts act k + t) :
    (sentWords (act k) (pkts k))[t]? = some (pushWord pkts act P (k + 1)) := by
  have hlen := length_sentOf pkts hmask
  have hget := List.getElem?_eq_getElem (l := sentOf pkts act k) (i := t) (by omega)
  have hflat := flat_getElem? (f := sentOf pkts act) (n := P) (k := k) (j := t) (m := k + 1)
    ⟨hpushed, by omega⟩ (Nat.lt_succ_self k)
  rw [pushWord, List.getD_eq_getElem?_getD, hflat, hget, ← sentOf_of_mask pkts hmask, hget]
  rfl

/-- Nothing moves. -/
theorem steps_stays {j t : Nat} (h : Within (act k) (pkts k) j t s)
    (hmask : forwardBitmask (act k) ≠ 0) (henb : outDataEnb i s.proc = false)
    (hread : R = start (lengths pkts) k + j)
    (hpushed : P = pushedBefore pkts act k + min t (pushCount (act k) (pkts k))) :
    Steps pkts act i s k (2 + t) R P (k + 1) (owed (sentWords (act k) (pkts k)) t s.proc) := by
  obtain ⟨hstep, hrd⟩ := h.sending.stays hreset henb
  have hstep' : (s.step i).proc = hold s.proc := hstep
  have hpush : push i s = false := by rw [push, henb, Bool.false_and]
  have hres : resultFifoRdEn i s.proc = false := by
    rw [resultFifoRdEn, h.sending.finished_eq, henb, Bool.false_and, Bool.false_and]
  have hlen := length_sentOf pkts hmask
  have hloses : loses pkts act i s P (k + 1) = true ↔
      s.proc.outWrPrep1 = true ∧ t + 3 ≤ (sentWords (act k) (pkts k)).length := by
    rw [loses, henb, Bool.not_false, Bool.and_true, Bool.and_eq_true, decide_eq_true_eq,
      pushedBefore_succ, hlen, length_sentWords]
    refine and_congr_right fun _ => ?_
    omega
  refine ⟨⟨k, 2 + t, owed (sentWords (act k) (pkts k)) t (s.step i).proc, ?_, ?_, ?_⟩, fun hp => ?_,
    fun hl => ?_⟩
  · rw [awaited_of_sending h.sending, henb]
    exact Nat.le_refl _
  · rw [hpush, hrd, hres]
    exact .sends (h.hold hreset henb) rfl hmask hread hpushed rfl
  · rw [hpush, if_neg Bool.false_ne_true, hstep', leaves, owed_hold h.piped]
    have hwr : (hold s.proc).outWr = false := rfl
    rw [hwr, if_neg Bool.false_ne_true, List.nil_append]
    exact if_congr hloses.symm rfl rfl
  · rw [hpush] at hp
    cases hp
  · obtain ⟨hprep, hle⟩ := hloses.mp hl
    exact ⟨hpush, owed_ne_nil h.piped hprep (by omega)⟩

/-- The registers move on. -/
theorem steps_moves {j t : Nat} (ha : i.resultFifoDout.2 = act k)
    (hword : inFifoRdEn i s.proc = true → (pkts k).words[j]? = some i.inFifo)
    (h : Within (act k) (pkts k) j t s) (hmask : forwardBitmask (act k) ≠ 0)
    (henb : outDataEnb i s.proc = true) (hread : R = start (lengths pkts) k + j)
    (hpushed : P = pushedBefore pkts act k + min t (pushCount (act k) (pkts k))) :
    Steps pkts act i s k (2 + t) R P (k + 1) (owed (sentWords (act k) (pkts k)) t s.proc) := by
  have hticks := h.sending.tick hreset ha hword henb
  obtain ⟨-, hout⟩ := h.rewrites hreset ha hword henb
  have hlen := length_sentWords (act k) (pkts k)
  have hcount := hdrCount_lt_pushCount (act k) (pkts k)
  have hlt := h.sending.lt
  have hres : resultFifoRdEn i s.proc =
      (decide (t = pushCount (act k) (pkts k) + 2) && !i.resultFifoEmpty) := by
    rw [resultFifoRdEn, h.sending.finished_eq, henb, Bool.true_and]
  have hloses : loses pkts act i s P (k + 1) = false := by
    rw [loses, henb, Bool.not_true, Bool.and_false, Bool.false_and]
  by_cases ht : t < pushCount (act k) (pkts k)
  · have hpush : push i s = true := by
      rw [push, henb, decide_eq_true (h.sending.state_ne ht)]
      rfl
    obtain ⟨v, -, hv⟩ := hticks.pushes ht
    have hw := pushWord_eq hmask ht (P := P) (by omega)
    refine ⟨⟨k, 2 + t + 1, owed (sentWords (act k) (pkts k)) (t + 1) (s.step i).proc, mark_le_succ,
      ?_, ?_⟩, fun _ => ?_, fun hl => ?_⟩
    · rw [hpush, hres, decide_eq_false (by omega), Bool.false_and]
      exact .sends (h.tick hreset ha hword henb (by omega)) rfl hmask (by omega)
        (by rw [if_pos rfl]; omega) rfl
    · rw [hpush, if_pos rfl]
      exact owed_push h.piped (by omega) hout hw hv
    · rw [length_flat_sentOf, pushedBefore_succ, length_sentOf pkts hmask]
      omega
    · rw [hloses] at hl
      cases hl
  · obtain ⟨hstate, hj⟩ := h.sending.over (by omega)
    have hpush : push i s = false := by
      rw [push, hstate, henb]
      rfl
    have hrd : inFifoRdEn i s.proc = false := by rw [inFifoRdEn, hstate]
    have hflush := hticks.flushes (by omega)
    have howed := owed_flush (sentWords (act k) (pkts k)) (by omega) (by omega)
      (hout (by omega)) hflush
    refine ⟨?_, fun hp => ?_, fun hl => ?_⟩
    · rw [hpush, hloses, hrd, if_neg Bool.false_ne_true, if_neg Bool.false_ne_true, ← howed, hres]
      by_cases hmore : t < pushCount (act k) (pkts k) + 2
      · have hwithin := h.tick hreset ha hword henb hmore
        rw [hrd] at hwithin
        rw [decide_eq_false (by omega), Bool.false_and]
        exact ⟨k, 2 + t + 1, _, mark_le_succ, .sends hwithin rfl hmask hread (by omega) rfl, rfl⟩
      · -- The packet is over.
        have heq : t = pushCount (act k) (pkts k) + 2 := by omega
        obtain ⟨hfinished, hctrl⟩ := hticks.ends heq
        have hstate' : (s.step i).proc.state = afterPacket i := state_of_finished hreset hfinished
        rw [decide_eq_true heq, Bool.true_and, owed_over (by omega)]
        refine ⟨k + 1, _, [], mark_le_next ?_, at_afterPacket hstate'
          ⟨hflush.prep1, hflush.prep2, hflush.prep3, hctrl⟩ ?_ ?_, rfl⟩
        · rw [stepsOf, if_neg hmask]
          omega
        · rw [hread, hj]
          rfl
        · rw [pushedBefore_succ, length_sentOf pkts hmask]
          omega
    · rw [hpush] at hp
      cases hp
    · rw [hloses] at hl
      cases hl

/-- Without what it waits for, the processor stays where it is. -/
theorem state_of_not_awaited {f : OplProcessor} (h : awaited i f = false) :
    (f.step i).state = f.state := by
  have held {g : OplProcessor} {rd : Bool} (hrd : rd = false)
      (hstep : f.step i = if rd then g else f.hold) : (f.step i).state = f.state := by
    rw [hstep, hrd]
    rfl
  rw [awaited] at h
  cases hstate : f.state with
  | waitForInput =>
    simp only [hstate, Bool.not_eq_false'] at h
    rw [step_waitForInput hreset hstate]
    exact if_pos h
  | writeReplacements =>
    simp only [hstate, Bool.or_eq_false_iff, decide_eq_false_iff_not] at h
    rw [step_writeReplacements hreset hstate, stepWriteReplacements, if_neg h.1, h.2]
    rfl
  | dropPkt =>
    simp only [hstate] at h
    exact (held (by rw [inFifoRdEn, hstate]; exact h) (step_dropPkt hreset hstate)).trans hstate
  | writeIoHdr =>
    simp only [hstate, outDataEnb] at h
    exact (held h (step_writeIoHdr hreset hstate)).trans hstate
  | writeLastWord =>
    simp only [hstate, outDataEnb] at h
    exact (held h (step_writeLastWord hreset hstate)).trans hstate
  | writeOutputDestination =>
    simp only [hstate, outDataEnb] at h
    exact (held (by rw [inFifoRdEn, hstate]; exact h)
      (step_writeOutputDestination hreset hstate)).trans hstate
  | hdr1st =>
    simp only [hstate, outDataEnb] at h
    exact (held (by rw [inFifoRdEn, hstate]; exact h) (step_hdr1st hreset hstate)).trans hstate
  | hdrCont =>
    simp only [hstate, outDataEnb] at h
    exact (held (by rw [inFifoRdEn, hstate]; exact h) (step_hdrCont hreset hstate)).trans hstate
  | writePacket =>
    simp only [hstate, outDataEnb] at h
    exact (held (by rw [inFifoRdEn, hstate]; exact h) (step_writePacket hreset hstate)).trans hstate

end Step

/-- What one cycle does, wherever the processor is. -/
theorem At.step {ow : List Word} (h : At pkts act k p R P G s ow) (hreset : i.reset = false)
    (hresult : ∀ k, G = k + 1 → i.resultFifoDout.2 = act k)
    (hword : ∀ k j, inFifoRdEn i s.proc = true → IsAt (lengths pkts) R k j →
      (pkts k).words[j]? = some i.inFifo) : Steps pkts act i s k p R P G ow := by
  cases h with
  | waits state pos quiet read pushed taken =>
    subst pos taken
    exact steps_waits hreset state quiet read pushed
  | granted state pos quiet read pushed taken =>
    subst pos taken
    exact steps_granted hreset (hresult k rfl) state quiet read pushed
  | drops state pos mask prep1 prep2 prep3 ctrl read lt pushed taken =>
    subst pos taken
    exact steps_drops hreset (fun hrd => hword k _ hrd ⟨read, lt⟩) state mask prep1 prep2 prep3 ctrl
      read lt pushed
  | sends within pos mask read pushed taken =>
    subst pos taken
    cases henb : outDataEnb i s.proc with
    | false => exact steps_stays hreset within mask henb read pushed
    | true =>
      refine steps_moves hreset (hresult k rfl) (fun hrd => ?_) within mask henb read pushed
      exact hword k _ hrd ⟨read, within.sending.lt_of_rd hrd⟩

/-! ## Whole runs -/

section Run

variable (pkts act) (i : Nat → OplIn) (s : Nat → Opl)

def reads : Nat → Bool := wordRd i fun t => (s t).proc

def taken : Nat → Bool := resultRd i fun t => (s t).proc

def pushes (t : Nat) : Bool := push (i t) (s t)

def pushWords (t : Nat) : Word := pushWord pkts act (count (pushes i s) t) (count (taken i s) t)

/-- The cycles in which a word is lost. -/
def lost (t : Nat) : Bool :=
  loses pkts act (i t) (s t) (count (pushes i s) t) (count (taken i s) t)

/-- The words written before cycle `t`. -/
def written (t : Nat) : List Word := sent (fun t => (s t).proc.outWr) (fun t => (s t).out) t

/-- A processor that waits at first, whose input FIFO shows the words of the packets and whose
result FIFO has the actions. -/
structure Fed : Prop where
  follows : Follows step i s
  reset : ∀ t, (i t).reset = false
  state : (s 0).proc.state = .waitForInput
  quiet : Quiet (s 0).proc
  outWr : (s 0).proc.outWr = false
  words : ∀ t k j, reads i s t = true → IsAt (lengths pkts) (count (reads i s) t) k j →
    (pkts k).words[j]? = some (i t).inFifo
  results : ∀ t k, count (taken i s) t = k + 1 → (i t).resultFifoDout.2 = act k

/-- Where the processor is in cycle `t`: what was written and what is still to leave is the log of
what was pushed. -/
structure Stands (t k p : Nat) (ow : List Word) : Prop where
  pos : At pkts act k p (count (reads i s) t) (count (pushes i s) t) (count (taken i s) t) (s t) ow
  log_eq : written s (t + 1) ++ ow =
    log (pushes i s) (pushWords pkts act i s) (lost pkts act i s) t

end Run

namespace Fed

variable {i : Nat → OplIn} {s : Nat → Opl} (h : Fed pkts act i s)

include h

theorem stands_zero : Stands pkts act i s 0 0 0 [] := by
  refine ⟨.waits h.state rfl h.quiet rfl rfl rfl, ?_⟩
  rw [written, sent_succ, h.outWr]
  rfl

theorem steps {t k p : Nat} {ow : List Word} (hat : Stands pkts act i s t k p ow) :
    Steps pkts act (i t) (s t) k p (count (reads i s) t) (count (pushes i s) t)
      (count (taken i s) t) ow :=
  hat.pos.step (h.reset t) (h.results t) (h.words t)

theorem stands_succ {t k p : Nat} {ow : List Word} (hat : Stands pkts act i s t k p ow) :
    ∃ k' p' ow', mark pkts act k p + (if awaited (i t) (s t).proc then 1 else 0) ≤
        mark pkts act k' p' ∧
      Stands pkts act i s (t + 1) k' p' ow' := by
  have hsteps := h.steps hat
  obtain ⟨k', p', ow', hmark, hat', hleaves⟩ := hsteps.next
  rw [← h.follows t] at hat' hleaves
  refine ⟨k', p', ow', hmark, ?_, ?_⟩
  · rw [count_succ, count_succ, count_succ]
    exact hat'
  · have hnext : written s (t + 1 + 1) =
        written s (t + 1) ++ leaves (s (t + 1)).proc (s (t + 1)).out := sent_succ _ _ _
    rw [hnext, List.append_assoc, hleaves, log, ← hat.log_eq]
    show written s (t + 1) ++ (if pushes i s t then _ else if lost pkts act i s t then _ else _) = _
    split_ifs with hpush hlost
    · exact (List.append_assoc _ _ _).symm
    · exact (List.dropLast_append_of_ne_nil (hsteps.lost hlost).2).symm
    · rfl

theorem stands (t : Nat) : ∃ k p ow, Stands pkts act i s t k p ow := by
  induction t with
  | zero => exact ⟨0, 0, [], h.stands_zero⟩
  | succ t ih =>
    obtain ⟨k, p, ow, hat⟩ := ih
    obtain ⟨k', p', ow', -, hat'⟩ := h.stands_succ hat
    exact ⟨k', p', ow', hat'⟩

/-- The words are pushed in the order of the packets. -/
theorem sent_pushes (t : Nat) :
    sent (pushes i s) (pushWords pkts act i s) t <+: flat (sentOf pkts act) (count (taken i s) t) := by
  induction t with
  | zero => exact List.nil_prefix
  | succ t ih =>
    have hmono := flat_mono (sentOf pkts act) (count_mono (taken i s) (Nat.le_succ t))
    rw [sent_succ]
    cases hpush : pushes i s t with
    | false =>
      rw [if_neg Bool.false_ne_true, List.append_nil]
      exact ih.trans hmono
    | true =>
      obtain ⟨k, p, ow, hat⟩ := h.stands t
      have hlt := (h.steps hat).pushed hpush
      have hget : (flat (sentOf pkts act) (count (taken i s) t))[count (pushes i s) t]? =
          some (pushWords pkts act i s t) := by
        rw [pushWords, pushWord, List.getD_eq_getElem?_getD, List.getElem?_eq_getElem hlt]
        rfl
      have htake : sent (pushes i s) (pushWords pkts act i s) t =
          (flat (sentOf pkts act) (count (taken i s) t)).take (count (pushes i s) t) := by
        rw [List.prefix_iff_eq_take.mp ih, length_sent]
      rw [if_pos rfl, htake, ← take_succ_of_getElem? hget]
      refine List.IsPrefix.trans ?_ hmono
      exact List.take_prefix _ _

end Fed

end Sdpa.Hardware.Opl
