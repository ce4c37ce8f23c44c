import Sdpa.Hardware.OplRuns

/-!
# What the output port lookup processor sends

In every run the words written are those of the packets as their actions have them, in
order, without the words that were lost: each cycle in which the processor is held up right
behind a word that is not one of the last three of its packet costs that word. If there is no
such cycle, every packet leaves as it should.
-/
namespace Sdpa.Hardware.Opl

open OplAction OplProcessor OplRewriter Lib.Clocked Lib.Frames Lib.Streams

variable {pkts : Nat → Packet} {act : Nat → BitVec 320} {i : Nat → OplIn} {s : Nat → Opl}

/-- A word is pushed that is not lost in the next cycle. -/
def leaving (pkts : Nat → Packet) (act : Nat → BitVec 320) (i : Nat → OplIn) (s : Nat → Opl) :
    Nat → Bool := kept (pushes i s) (lost pkts act i s)

theorem push_of_outWrPrep1 {x : OplIn} {o : Opl} (hreset : x.reset = false)
    (h : (o.step x).proc.outWrPrep1 = true) : push x o = true := by
  change (o.proc.step x).outWrPrep1 = true at h
  rw [OplProcessor.step, hreset, if_neg Bool.false_ne_true] at h
  rw [push, outDataEnb]
  cases hstate : o.proc.state with
  | writeOutputDestination | hdr1st | hdrCont | writePacket =>
    simp only [hstate, inFifoRdEn] at h ⊢
    split at h
    · rename_i hrd
      rw [hrd]
      decide
    · cases h
  | writeIoHdr =>
    simp only [hstate] at h ⊢
    split at h
    · rename_i hrdy
      rw [hrdy]
      decide
    · cases h
  | waitForInput | writeReplacements =>
    rw [hstate] at h
    cases h
  | dropPkt | writeLastWord =>
    rw [hstate] at h
    dsimp only at h
    split at h <;> cases h

/-! ## Progress -/

section

variable {k p R P G : Nat} {o : Opl} {ow : List Word}

theorem At.lt (h : At pkts act k p R P G o ow) : p < stepsOf pkts act k := by
  rw [stepsOf]
  cases h with
  | waits state pos => omega
  | granted state pos => omega
  | drops state pos mask prep1 prep2 prep3 ctrl read lt =>
    rw [if_pos mask]
    omega
  | sends within pos mask =>
    have := within.sending.lt
    rw [if_neg mask]
    omega

theorem length_owes_le (ws : List Word) (t a : Nat) (prep : Bool) :
    (owes ws t a prep).length ≤ if a ≤ t then 1 else 0 := by
  rw [owes]
  split_ifs with h ha
  · cases ws[t - a]? <;> simp
  · exact absurd h.1 ha
  · exact Nat.zero_le _
  · exact Nat.le_refl _

theorem length_owed_le (ws : List Word) (t : Nat) (s : OplProcessor) :
    (owed ws t s).length ≤ min t 3 := by
  have h3 := length_owes_le ws t 3 s.outWrPrep3
  have h2 := length_owes_le ws t 2 s.outWrPrep2
  have h1 := length_owes_le ws t 1 s.outWrPrep1
  rw [owed, List.length_append, List.length_append]
  split_ifs at h1 h2 h3 <;> omega

theorem At.le_taken (h : At pkts act k p R P G o ow) : k ≤ G := by
  cases h with
  | waits state pos quiet read pushed taken => omega
  | granted state pos quiet read pushed taken => omega
  | drops state pos mask prep1 prep2 prep3 ctrl read lt pushed taken => omega
  | sends within pos mask read pushed taken => omega

/-- The words that are still to leave are words of the packet that is being sent. -/
theorem At.length_le (h : At pkts act k p R P G o ow) : pushedBefore pkts act k + ow.length ≤ P := by
  cases h with
  | waits state pos quiet read pushed => exact Nat.le_of_eq pushed.symm
  | granted state pos quiet read pushed => exact Nat.le_of_eq pushed.symm
  | drops state pos mask prep1 prep2 prep3 ctrl read lt pushed => exact Nat.le_of_eq pushed.symm
  | @sends j t within pos mask read pushed =>
    have hle := length_owed_le (sentWords (act k) (pkts k)) t o.proc
    have hcount := hdrCount_lt_pushCount (act k) (pkts k)
    omega

end

namespace Fed

variable (h : Fed pkts act i s)

include h

/-- The processor never goes back. -/
theorem stands_later {t u k p : Nat} {ow : List Word} (htu : t ≤ u)
    (hat : Stands pkts act i s t k p ow) :
    ∃ k' p' ow', mark pkts act k p ≤ mark pkts act k' p' ∧ Stands pkts act i s u k' p' ow' := by
  induction u, htu using Nat.le_induction with
  | base => exact ⟨k, p, ow, Nat.le_refl _, hat⟩
  | succ u _ ih =>
    obtain ⟨k', p', ow', hle, hat'⟩ := ih
    obtain ⟨k'', p'', ow'', hmark, hat''⟩ := h.stands_succ hat'
    exact ⟨k'', p'', ow'', by omega, hat''⟩

/-- If what it waits for comes whenever fewer than `n` packets are done, all of them are done at
some time. -/
theorem packets_done (n : Nat)
    (hnext : ∀ t k p ow, Stands pkts act i s t k p ow → k < n →
      ∃ u, t ≤ u ∧ awaited (i u) (s u).proc = true) :
    ∃ t k p ow, n ≤ k ∧ Stands pkts act i s t k p ow := by
  have hgrows : ∀ m, ∃ t k p ow, (n ≤ k ∨ m ≤ mark pkts act k p) ∧
      Stands pkts act i s t k p ow := by
    intro m
    induction m with
    | zero => exact ⟨0, 0, 0, [], .inr (Nat.zero_le _), h.stands_zero⟩
    | succ m ih =>
      obtain ⟨t, k, p, ow, hle | hle, hat⟩ := ih
      · exact ⟨t, k, p, ow, .inl hle, hat⟩
      · by_cases hk : n ≤ k
        · exact ⟨t, k, p, ow, .inl hk, hat⟩
        · obtain ⟨u, htu, hu⟩ := hnext t k p ow hat (by omega)
          obtain ⟨k', p', ow', hle', hat'⟩ := h.stands_later htu hat
          obtain ⟨k'', p'', ow'', hmark, hat''⟩ := h.stands_succ hat'
          rw [hu, if_pos rfl] at hmark
          exact ⟨u + 1, k'', p'', ow'', .inr (by omega), hat''⟩
  obtain ⟨t, k, p, ow, hle | hle, hat⟩ := hgrows (start (stepsOf pkts act) n)
  · exact ⟨t, k, p, ow, hle, hat⟩
  · refine ⟨t, k, p, ow, Nat.le_of_not_lt fun hlt => ?_, hat⟩
    have hmono := start_mono (stepsOf pkts act) (show k + 1 ≤ n from hlt)
    have hp := hat.pos.lt
    rw [start_succ] at hmono
    rw [mark] at hle
    omega

/-- A processor that gets nothing of what it waits for stays in its state. -/
theorem state_eq_of_not_awaited {t : Nat}
    (hnot : ∀ u, t ≤ u → awaited (i u) (s u).proc = false) {u : Nat} (htu : t ≤ u) :
    (s u).proc.state = (s t).proc.state := by
  induction u, htu using Nat.le_induction with
  | base => rfl
  | succ u htu ih =>
    have hstep : (s (u + 1)).proc = (s u).proc.step (i u) := congrArg Opl.proc (h.follows u)
    rw [hstep, state_of_not_awaited (h.reset u) (hnot u htu), ih]

/-- It gets what it waits for if words, results and the output are there again and again. -/
theorem awaited_of_recurs (hready : Recurs fun t => (i t).outRdy && !(i t).inFifoEmpty)
    (hresult : Recurs fun t => !(i t).resultFifoEmpty) (t : Nat) :
    ∃ u, t ≤ u ∧ awaited (i u) (s u).proc = true := by
  by_contra hnone
  have hnot : ∀ u, t ≤ u → awaited (i u) (s u).proc = false := fun u htu =>
    Bool.eq_false_iff.mpr fun hu => hnone ⟨u, htu, hu⟩
  by_cases hwaits : (s t).proc.state = .waitForInput
  · obtain ⟨u, htu, hu⟩ := hresult t
    have hfalse := hnot u htu
    rw [awaited, h.state_eq_of_not_awaited hnot htu, hwaits] at hfalse
    exact Bool.false_ne_true (hfalse.symm.trans hu)
  · obtain ⟨u, htu, hu⟩ := hready t
    have hfalse := hnot u htu
    rw [Bool.and_eq_true, Bool.not_eq_true'] at hu
    rw [← h.state_eq_of_not_awaited hnot htu] at hwaits
    rw [awaited] at hfalse
    cases hstate : (s u).proc.state <;> simp_all [outDataEnb]

/-! ## What is written -/

theorem log_ne_nil {t : Nat} (hlost : lost pkts act i s t = true) :
    pushes i s t = false ∧
      log (pushes i s) (pushWords pkts act i s) (lost pkts act i s) t ≠ [] := by
  obtain ⟨k, p, ow, hat⟩ := h.stands t
  obtain ⟨hpush, hne⟩ := (h.steps hat).lost hlost
  refine ⟨hpush, ?_⟩
  rw [← hat.log_eq]
  exact List.append_ne_nil_of_right_ne_nil _ hne

/-- The word that is lost is that of the cycle before. -/
theorem pushes_of_lost {t : Nat} (hlost : lost pkts act i s (t + 1) = true) : pushes i s t = true := by
  rw [lost, loses, Bool.and_eq_true, Bool.and_eq_true] at hlost
  have hprep := hlost.1.1
  rw [h.follows t] at hprep
  exact push_of_outWrPrep1 (h.reset t) hprep

/-- The words that are not lost. -/
theorem sent_leaving (t : Nat) :
    sent (leaving pkts act i s) (pushWords pkts act i s) t =
      if lost pkts act i s t then
        (log (pushes i s) (pushWords pkts act i s) (lost pkts act i s) t).dropLast
      else log (pushes i s) (pushWords pkts act i s) (lost pkts act i s) t :=
  sent_kept _ (fun _ hlost => (h.log_ne_nil hlost).1) (fun _ => h.pushes_of_lost) t

theorem written_le_leaving (t : Nat) :
    written s (t + 1) <+: sent (leaving pkts act i s) (pushWords pkts act i s) t := by
  obtain ⟨k, p, ow, hat⟩ := h.stands t
  rw [h.sent_leaving, ← hat.log_eq]
  split_ifs with hlost
  · rw [List.dropLast_append_of_ne_nil ((h.steps hat).lost hlost).2]
    exact List.prefix_append _ _
  · exact List.prefix_append _ _

/-- While the processor waits for a result, everything has left. -/
theorem at_of_waits {t : Nat} (hstate : (s t).proc.state = .waitForInput) :
    count (pushes i s) t = pushedBefore pkts act (count (taken i s) t) ∧
      written s (t + 1) = log (pushes i s) (pushWords pkts act i s) (lost pkts act i s) t := by
  obtain ⟨k, p, ow, hat, hlog⟩ := h.stands t
  cases hat with
  | waits state pos quiet read pushed taken =>
    rw [List.append_nil] at hlog
    exact ⟨by rw [pushed, taken], hlog⟩
  | granted state => cases hstate.symm.trans state
  | drops state => cases hstate.symm.trans state
  | sends within =>
    cases within.sending.phase with
    | dest state => cases hstate.symm.trans state
    | ioHdr state => cases hstate.symm.trans state
    | hdr1st state => cases hstate.symm.trans state
    | data state => rcases state with state | state <;> cases hstate.symm.trans state
    | flush state => cases hstate.symm.trans state

/-- All words of the packets have been pushed then, and those that were not lost have left. -/
theorem written_of_waits {t : Nat} (hstate : (s t).proc.state = .waitForInput) :
    sent (pushes i s) (pushWords pkts act i s) t = flat (sentOf pkts act) (count (taken i s) t) ∧
      written s (t + 1) = sent (leaving pkts act i s) (pushWords pkts act i s) t := by
  obtain ⟨hpushed, hlog⟩ := h.at_of_waits hstate
  have hlost : lost pkts act i s t = false := by
    rw [lost, loses, hpushed, Nat.sub_self]
    exact Bool.and_false _
  refine ⟨(h.sent_pushes t).eq_of_length ?_, ?_⟩
  · rw [length_sent, hpushed, length_flat_sentOf]
  · rw [h.sent_leaving, hlost, if_neg Bool.false_ne_true, hlog]

/-- Without losses the words come as they should. -/
theorem written_le (hlost : ∀ t, lost pkts act i s t = false) (t : Nat) :
    written s (t + 1) <+: flat (sentOf pkts act) (count (taken i s) t) := by
  obtain ⟨k, p, ow, -, hlog⟩ := h.stands t
  rw [log_eq_sent _ hlost] at hlog
  exact List.IsPrefix.trans ⟨ow, hlog⟩ (h.sent_pushes t)

/-- And every packet comes. -/
theorem exists_written (hlost : ∀ t, lost pkts act i s t = false) (n : Nat)
    (hnext : ∀ t k p ow, Stands pkts act i s t k p ow → k < n →
      ∃ u, t ≤ u ∧ awaited (i u) (s u).proc = true) :
    ∃ t, written s t = flat (sentOf pkts act) n := by
  obtain ⟨t, k, p, ow, hnk, hat, hlog⟩ := h.packets_done n hnext
  rw [log_eq_sent _ hlost] at hlog
  have hmono : pushedBefore pkts act n ≤ pushedBefore pkts act k := start_mono _ hnk
  have hle := hat.length_le
  have hlen := congrArg List.length hlog
  rw [List.length_append, length_sent, written, length_sent] at hlen
  have hflat : (flat (sentOf pkts act) n).length ≤ count (fun t => (s t).proc.outWr) (t + 1) := by
    rw [length_flat_sentOf]
    omega
  -- The words come one at a time, so that there is a cycle in which that many have come.
  have hex : ∃ u, u ≤ t + 1 ∧
      count (fun t => (s t).proc.outWr) u = (flat (sentOf pkts act) n).length := by
    rcases Nat.lt_or_eq_of_le hflat with hlt | heq
    · obtain ⟨F, hF, hnth⟩ := exists_nth hlt
      exact ⟨F, Nat.le_of_lt hF, hnth.before⟩
    · exact ⟨t + 1, Nat.le_refl _, heq.symm⟩
  obtain ⟨u, hu, hcount⟩ := hex
  have hwritten : written s u <+: flat (sentOf pkts act) (count (taken i s) t) :=
    List.IsPrefix.trans (sent_mono _ _ hu) (h.written_le hlost t)
  have hbegins := flat_mono (sentOf pkts act) (Nat.le_trans hnk hat.le_taken)
  have hsame : (written s u).length = (flat (sentOf pkts act) n).length := by
    rw [written, length_sent]
    exact hcount
  refine ⟨u, ?_⟩
  rw [List.prefix_iff_eq_take.mp hwritten, hsame]
  exact (List.prefix_iff_eq_take.mp hbegins).symm

/-- Words are lost only when the output is not ready, or when a word of the packet that is being
sent is not there yet. -/
theorem held_of_lost {t : Nat} (hlost : lost pkts act i s t = true) :
    (i t).outRdy = false ∨ (i t).inFifoEmpty = true ∧
      ∃ k, count (taken i s) t = k + 1 ∧
        count (reads i s) t < start (lengths pkts) (k + 1) := by
  obtain ⟨k, p, ow, hat, -⟩ := h.stands t
  rw [lost, loses, Bool.and_eq_true, Bool.and_eq_true, Bool.not_eq_true'] at hlost
  obtain ⟨⟨hprep, henb⟩, -⟩ := hlost
  have hquiet (hlow : (s t).proc.outWrPrep1 = false) : False := by
    rw [hprep] at hlow
    cases hlow
  cases hat with
  | waits state pos quiet => exact (hquiet quiet.prep1).elim
  | granted state pos quiet => exact (hquiet quiet.prep1).elim
  | drops state pos mask prep1 => exact (hquiet prep1).elim
  | sends within pos mask read pushed taken =>
    refine (within.sending.held henb).imp_right fun hempty => ⟨hempty.1, k, taken, ?_⟩
    rw [read, start_succ]
    exact Nat.add_lt_add_left hempty.2 _

end Fed

/-! ## Packets and results that are always there -/

section Drive

variable (pkts : Nat → Packet) (act : Nat → BitVec 320) (avail outRdy : Nat → Bool)

/-- The wires when `r` words were read and `g` results were taken. -/
def wires (t r g : Nat) : OplIn where
  resultFifoDout := (0, act (g - 1))
  resultFifoEmpty := !avail g
  inFifo := streamWord pkts r
  inFifoEmpty := false
  outRdy := outRdy t
  reset := false

/-- The processor with its FIFOs in front of it: how many words were read and how many results were
taken. -/
def drive : Nat → Opl × Nat × Nat
  | 0 => (init, 0, 0)
  | t + 1 =>
    let (s, r, g) := drive t
    let x := wires pkts act avail outRdy t r g
    (s.step x, r + if inFifoRdEn x s.proc then 1 else 0, g + if resultFifoRdEn x s.proc then 1 else 0)

def driven (t : Nat) : Opl := (drive pkts act avail outRdy t).1

def driveIn (t : Nat) : OplIn :=
  let (_, r, g) := drive pkts act avail outRdy t
  wires pkts act avail outRdy t r g

theorem drive_counts (t : Nat) :
    (drive pkts act avail outRdy t).2.1 =
        count (reads (driveIn pkts act avail outRdy) (driven pkts act avail outRdy)) t ∧
      (drive pkts act avail outRdy t).2.2 =
        count (taken (driveIn pkts act avail outRdy) (driven pkts act avail outRdy)) t := by
  induction t with
  | zero => exact ⟨rfl, rfl⟩
  | succ t ih =>
    rw [count_succ, count_succ, ← ih.1, ← ih.2]
    exact ⟨rfl, rfl⟩

theorem fed_drive :
    Fed pkts act (driveIn pkts act avail outRdy) (driven pkts act avail outRdy) where
  follows _ := rfl
  reset _ := rfl
  state := rfl
  quiet := ⟨rfl, rfl, rfl, (by decide : (1 : BitVec 8) ≠ 0)⟩
  outWr := rfl
  words := by
    refine carries_streamWord pkts _ (w := fun t => (driveIn pkts act avail outRdy t).inFifo)
      fun t => ?_
    rw [← (drive_counts pkts act avail outRdy t).1]
    rfl
  results t k hk := by
    rw [← (drive_counts pkts act avail outRdy t).2] at hk
    show act ((drive pkts act avail outRdy t).2.2 - 1) = act k
    rw [hk]
    rfl

end Drive

/-- A packet with an IP header, of eight data words. -/
def ipFrame : Packet := frame 0x0000000008004500 0

/-- To port 2, with another source address. -/
def newSource : BitVec 320 := 0x0a000001 <<< 152 ||| 0x00400004

namespace Fed

/-- The words of the packets as their actions have them are pushed in order, and leave except for
those that are followed by a cycle in which a word is lost; when nothing is under way, all others
have left. -/
theorem loses_words (h : Fed pkts act i s) (t : Nat) :
    sent (pushes i s) (pushWords pkts act i s) t <+:
        flat (sentOf pkts act) (count (taken i s) t) ∧
      written s (t + 1) <+: sent (leaving pkts act i s) (pushWords pkts act i s) t ∧
      ((s t).proc.state = .waitForInput →
        sent (pushes i s) (pushWords pkts act i s) t =
            flat (sentOf pkts act) (count (taken i s) t) ∧
          written s (t + 1) = sent (leaving pkts act i s) (pushWords pkts act i s) t) :=
  ⟨h.sent_pushes t, h.written_le_leaving t, h.written_of_waits⟩

/-- The output is not ready in cycle 5, and the packet leaves without the word of cycle 4. -/
theorem loses_words_drive :
    let i := driveIn (fun _ => ipFrame) (fun _ => newSource) (fun g => g = 0) (fun t => t ≠ 5)
    let s := driven (fun _ => ipFrame) (fun _ => newSource) (fun g => g = 0) (fun t => t ≠ 5)
    Fed (fun _ => ipFrame) (fun _ => newSource) i s ∧
      (∀ t < 15, lost (fun _ => ipFrame) (fun _ => newSource) i s t = true ↔ t = 5) ∧
      written s 16 = (flat (sentOf (fun _ => ipFrame) fun _ => newSource) 1).eraseIdx 2 := by
  intro i s
  have hfed : Fed (fun _ => ipFrame) (fun _ => newSource) i s := fed_drive _ _ _ _
  have hlost : ∀ t < 15, lost (fun _ => ipFrame) (fun _ => newSource) i s t = true ↔ t = 5 := by
    decide +kernel
  have hwritten := ((hfed.loses_words 15).2.2 (by decide +kernel)).2
  refine ⟨hfed, hlost, hwritten.trans ?_⟩
  decide +kernel

/-- A processor that loses no word sends each packet as its action has it, in order; and every
packet is sent if words, results and the output are there again and again. -/
theorem sends_rewritten (h : Fed pkts act i s) (hlost : ∀ t, lost pkts act i s t = false) :
    (∀ t, written s (t + 1) <+: flat (sentOf pkts act) (count (taken i s) t)) ∧
      ((Recurs fun t => (i t).outRdy && !(i t).inFifoEmpty) →
        (Recurs fun t => !(i t).resultFifoEmpty) →
        ∀ n, ∃ t, written s t = flat (sentOf pkts act) n) :=
  ⟨h.written_le hlost, fun hready hresult n =>
    h.exists_written hlost n fun t _ _ _ _ _ => h.awaited_of_recurs hready hresult t⟩

theorem sends_rewritten_drive :
    let i := driveIn (fun _ => ipFrame) (fun _ => newSource) (fun _ => true) (fun _ => true)
    let s := driven (fun _ => ipFrame) (fun _ => newSource) (fun _ => true) (fun _ => true)
    Fed (fun _ => ipFrame) (fun _ => newSource) i s ∧
      ∀ n, ∃ t, written s t = flat (sentOf (fun _ => ipFrame) fun _ => newSource) n := by
  intro i s
  have hfed : Fed (fun _ => ipFrame) (fun _ => newSource) i s := fed_drive _ _ _ _
  have hlost : ∀ t, lost (fun _ => ipFrame) (fun _ => newSource) i s t = false := by
    intro t
    refine Bool.eq_false_iff.mpr fun hlost => ?_
    rcases hfed.held_of_lost hlost with hrdy | ⟨hempty, -⟩
    · cases hrdy
    · cases hempty
  have hsends := hfed.sends_rewritten hlost
  exact ⟨hfed, hsends.2 (fun t => ⟨t, Nat.le_refl t, rfl⟩) fun t => ⟨t, Nat.le_refl t, rfl⟩⟩

end Fed

end Sdpa.Hardware.Opl
