import Sdpa.Hardware.TableWrites
import Sdpa.Hardware.WildcardMatch

/-!
# The FIFOs of a packet

`wildcard_match` writes the size, the source port and the entry of a packet into
their FIFOs when the packet comes, its action and the line found when the table
answers. A table that is being reset answers nothing, and a flush drops the
lookups under way. The FIFOs of the second kind then have a word less, and every
later packet is paired with the answer to another one.
-/
namespace Sdpa.Hardware

open Lib.Clocked

/-! ## Answers of a table that may be cleared -/

namespace LookupTable

variable {c d : Nat}

/-- A request made `n` cycles ago that no reset or flush has dropped. -/
def inStage (p : TableParams c d) (i : Nat → TableIn c) (n t : Nat) : Bool :=
  ago n (fun u => (i u).lookupReq) t && decide (p.lutDepth + n < sinceClear i t)

namespace Initialises

variable {p : TableParams c d} {i : Nat → TableIn c} {s : Nat → LookupTable c d}
  (h : Initialises p i s)

include h

/-- A cycle drains the table, or it is one of the lookups. -/
theorem pipe_succ_cases (t : Nat) :
    (sinceClear i (t + 1) ≤ p.lutDepth + 1 ∧ Drained (s (t + 1)).pipe) ∨
      (p.lutDepth < sinceClear i t ∧ sinceClear i (t + 1) = sinceClear i t + 1 ∧
        (s (t + 1)).pipe = lookupCycle p (i t) (s t)) := by
  have hpipe : (s (t + 1)).pipe = stepPipe p (i t) (s t) := congrArg (·.pipe) (h.follows t)
  rw [hpipe, sinceClear]
  cases hclear : (i t).reset || (i t).tableFlush with
  | true => exact .inl ⟨Nat.zero_le _, (resetting_of_clear (s t) hclear).drained⟩
  | false =>
    rw [if_neg Bool.false_ne_true]
    rcases h.phase t with ⟨hle, hresetting⟩ | ⟨hlt, hready⟩
    · refine .inl ⟨Nat.succ_le_succ hle, ?_⟩
      rcases Nat.lt_or_eq_of_le hle with hlt | heq
      · exact (hresetting.succ hclear hlt).drained
      · rw [heq] at hresetting
        exact (hresetting.ready hclear).2.1
    · refine .inr ⟨hlt, rfl, ?_⟩
      rw [stepPipe, hclear, hready]
      rfl

/-- A register of the pipeline that takes the stage before it. -/
theorem stage_succ {q : TablePipe c d → Bool} {n : Nat}
    (hdrained : ∀ pipe, Drained pipe → q pipe = false)
    (hstep : ∀ t, p.lutDepth < sinceClear i t → q (lookupCycle p (i t) (s t)) = inStage p i n t)
    (t : Nat) : q (s t).pipe = inStage p i (n + 1) t := by
  cases t with
  | zero =>
    rw [hdrained _ h.start.drained, inStage, ago_succ_zero, Bool.false_and]
  | succ t =>
    rw [inStage, ago_succ_succ]
    rcases h.pipe_succ_cases t with ⟨hle, hdrain⟩ | ⟨hlt, hsince, hpipe⟩
    · rw [hdrained _ hdrain, decide_eq_false (by omega), Bool.and_false]
    · rw [hpipe, hstep t hlt, inStage, hsince]
      congr 2
      exact propext ⟨fun _ => by omega, fun _ => by omega⟩

/-- The answer to a request comes four cycles later, unless the table is reset or flushed before, or
was so less than the time of its initialisation ago. -/
theorem ack_eq (t : Nat) : (s t).pipe.lookupAck = inStage p i 4 t := by
  have hlatched := h.stage_succ (q := (·.lookupLatched)) (n := 0) (fun _ hd => hd.latched)
    fun t ht => by
      rw [inStage, ago_zero, decide_eq_true (by omega), Bool.and_true]
      rfl
  have hdone := h.stage_succ (q := (·.camLookupDone)) (fun _ hd => hd.lookupDone)
    fun t _ => hlatched t
  have hencoded := h.stage_succ (q := (·.camMatchEncoded)) (fun _ hd => hd.encoded)
    fun t _ => hdone t
  exact h.stage_succ (q := (·.lookupAck)) (fun _ hd => hd.ack) (fun t _ => hencoded t) t

/-- The four cycles of such a lookup are cycles of a table that only serves lookups. -/
theorem window {t : Nat} (ht : p.lutDepth + 4 < sinceClear i (t + 4)) :
    ∃ i' s', Serves p i' s' ∧ i' 0 = i t ∧ ∀ u, u ≤ 4 → s' u = s (t + u) := by
  have hclear : ∀ u, u < 4 → ((i (t + u)).reset || (i (t + u)).tableFlush) = false := by
    intro u hu
    rw [Bool.eq_false_iff]
    intro hclear
    have hzero : sinceClear i (t + u + 1) = 0 := by rw [sinceClear, hclear, if_pos rfl]
    have hle := sinceClear_add_le i (t + u + 1) (3 - u)
    rw [show t + u + 1 + (3 - u) = t + 4 by omega] at hle
    omega
  refine ⟨fun u => if u < 4 then i (t + u) else { i t with reset := false, tableFlush := false },
    run (step p) (s t) _, ⟨fun _ => rfl, fun _ => rfl, fun _ => rfl, fun u => ?_, fun u => ?_, ?_⟩,
    if_pos (by decide), fun u hu => ?_⟩
  · by_cases hu : u < 4
    · rw [if_pos hu]
      exact (Bool.or_eq_false_iff.mp (hclear u hu)).1
    · rw [if_neg hu]
  · by_cases hu : u < 4
    · rw [if_pos hu]
      exact (Bool.or_eq_false_iff.mp (hclear u hu)).2
    · rw [if_neg hu]
  · have hle := sinceClear_add_le i t 4
    rcases h.phase t with ⟨hge, -⟩ | ⟨-, hready⟩
    · omega
    · exact hready
  · induction u with
    | zero => rfl
    | succ u ih =>
      rw [run, ih (by omega), if_pos (by omega)]
      exact (h.follows (t + u)).symm

/-- It answers with the line found in the cycle of the request. -/
theorem answer_of_find {t n : Nat} (ht : p.lutDepth + 4 < sinceClear i (t + 4))
    (hreq : (i t).lookupReq = true) (hfind : find p (s t).lut (i t).lookupCmpData = some n) :
    (s (t + 4)).pipe.lookupHit = true ∧ (s (t + 4)).pipe.lookupAddress = n ∧
      lookupData (s (t + 4)) = ((s (t + 3)).lut n).data := by
  obtain ⟨i', s', hserves, hi, hs⟩ := h.window ht
  rw [← hi] at hreq hfind
  rw [← hs 3 (by decide), ← hs 4 (by decide)]
  exact hserves.answer_of_find hreq (by rwa [hs 0 (by decide)])

theorem answer_of_miss {t : Nat} (ht : p.lutDepth + 4 < sinceClear i (t + 4))
    (hfind : find p (s t).lut (i t).lookupCmpData = none) :
    (s (t + 4)).pipe.lookupHit = false ∧ lookupData (s (t + 4)) = 0 := by
  obtain ⟨i', s', hserves, hi, hs⟩ := h.window ht
  rw [← hi] at hfind
  rw [← hs 4 (by decide)]
  exact hserves.answer_of_miss (by rwa [hs 0 (by decide)])

end Initialises

end LookupTable

/-! ## The two kinds of FIFOs -/

namespace WildcardMatch

/-- The trajectory from a reset to the next. -/
structure FromReset (i : Nat → MatchIn) (s : Nat → WildcardMatch) : Prop where
  follows : Follows step i s
  start : ∃ x s', x.reset = true ∧ s 0 = step x s'
  reset : ∀ t, (i t).reset = false

/-- What the table says in cycle `T` is its answer to the packet of cycle `F`. -/
structure AnswerTo (i : Nat → MatchIn) (s : Nat → WildcardMatch) (F T : Nat) : Prop where
  cycle : T = F + 4
  found : ∀ n,
    LookupTable.find tableParams (s F).wildcardCamLutSm.lut (i F).flowEntry = some n →
      (s T).wildcardCamLutSm.pipe.lookupHit = true ∧
        (s T).wildcardCamLutSm.pipe.lookupAddress = n ∧
        (s T).wildcardData = ((s (F + 3)).wildcardCamLutSm.lut n).data
  missed : LookupTable.find tableParams (s F).wildcardCamLutSm.lut (i F).flowEntry = none →
    (s T).wildcardCamLutSm.pipe.lookupHit = false ∧ (s T).wildcardData = 0

/-- The word that goes into `action_fifo` and `address_fifo` as number `k` is the answer to the
packet whose words are number `k` in `src_port_fifo`, `state_entry_fifo` and `pkt_size_fifo`. -/
def Aligned (i : Nat → MatchIn) (s : Nat → WildcardMatch) : Prop :=
  ∀ k T, IsNth (fun t => (s t).wildcardDataVld) k T →
    ∃ F, AnswerTo i s F T ∧ IsNth (fun t => (i t).flowEntryVld) k F

/-- The table is initialised when a packet comes in cycle `F`, and not cleared before it answers. -/
def Answered (i : Nat → MatchIn) (F : Nat) : Prop :=
  openflowWildcardTableSize + 4 < LookupTable.sinceClear (fun t => tableIn (i t)) (F + 4)

instance (i : Nat → MatchIn) (F : Nat) : Decidable (Answered i F) := Nat.decLt _ _

variable {i : Nat → MatchIn} {s : Nat → WildcardMatch}

theorem FromReset.initialises (h : FromReset i s) :
    LookupTable.Initialises tableParams (fun t => tableIn (i t))
      fun t => (s t).wildcardCamLutSm where
  follows t := congrArg (·.wildcardCamLutSm) (h.follows t)
  start := by
    obtain ⟨x, s', hreset, hstart⟩ := h.start
    rw [hstart]
    exact LookupTable.resetting_of_clear s'.wildcardCamLutSm
      (show (x.reset || x.tableFlush) = true by rw [hreset, Bool.true_or])

theorem FromReset.dataVld_eq (h : FromReset i s) :
    (fun t => (s t).wildcardDataVld) =
      ago 4 fun F => (i F).flowEntryVld && decide (Answered i F) := by
  funext t
  have hack : (s t).wildcardDataVld = _ := h.initialises.ack_eq t
  rw [hack, LookupTable.inStage, Bool.eq_iff_iff, Bool.and_eq_true, ago_iff, ago_iff,
    decide_eq_true_eq]
  constructor
  · rintro ⟨⟨F, rfl, hF⟩, hsince⟩
    exact ⟨F, rfl, Bool.and_eq_true_iff.mpr ⟨hF, decide_eq_true hsince⟩⟩
  · rintro ⟨F, rfl, hF⟩
    rw [Bool.and_eq_true, decide_eq_true_eq] at hF
    exact ⟨⟨F, rfl, hF.1⟩, hF.2⟩

theorem FromReset.answerTo (h : FromReset i s) {F : Nat} (hF : (i F).flowEntryVld = true)
    (hans : Answered i F) : AnswerTo i s F (F + 4) where
  cycle := rfl
  found _ hfind := h.initialises.answer_of_find hans hF hfind
  missed hfind := h.initialises.answer_of_miss hans hfind

/-- The numbers are those of the packets answered. -/
theorem FromReset.aligned_iff_isNth (h : FromReset i s) :
    Aligned i s ↔
      ∀ k F, IsNth (fun F => (i F).flowEntryVld && decide (Answered i F)) k F →
        IsNth (fun t => (i t).flowEntryVld) k F := by
  rw [Aligned, h.dataVld_eq]
  constructor
  · intro haligned k F hF
    obtain ⟨G, hG, hnth⟩ := haligned k (F + 4) (hF.ago 4)
    obtain rfl : F = G := Nat.add_right_cancel hG.cycle
    exact hnth
  · intro hanswered k T hT
    obtain ⟨F, rfl, hF⟩ := hT.of_ago
    have hpulse := hF.pulse
    rw [Bool.and_eq_true, decide_eq_true_eq] at hpulse
    exact ⟨F, h.answerTo hpulse.1 hpulse.2, hanswered k F hF⟩

/-- Between aligned FIFOs no packet before an answered one is left out. -/
theorem FromReset.answered_of_aligned (h : FromReset i s) (haligned : Aligned i s) {F G : Nat}
    (hFG : F < G) (hF : (i F).flowEntryVld = true) (hG : (i G).flowEntryVld = true)
    (hans : Answered i G) : Answered i F := by
  have hsub : ∀ u, ((i u).flowEntryVld && decide (Answered i u)) = true →
      (i u).flowEntryVld = true := fun u hu => (Bool.and_eq_true_iff.mp hu).1
  have hgap := (isNth_of_isNth_iff hsub).mp (h.aligned_iff_isNth.mp haligned) F G hFG hF
    (Bool.and_eq_true_iff.mpr ⟨hG, decide_eq_true hans⟩)
  exact decide_eq_true_eq.mp (Bool.and_eq_true_iff.mp hgap).2

/-- Packets in the cycles of `q`, after a reset. -/
def packets (q : Nat → Bool) (t : Nat) : MatchIn where
  flowEntry := 0
  flowEntryVld := q t
  pktSize := 0
  flowEntrySrcPortParsed := 0
  eventParam1 := 0
  eventParam2 := 0
  eventParam3 := 0
  actionFifoRdEn := false
  wildcardWins := false
  wildcardLoses := false
  regIn := ⟨false, false, false, 0, 0, 0⟩
  openflowTimer := 0
  tableFlush := false
  reset := false

/-- The registers as reset leaves them. -/
def afterReset : WildcardMatch :=
  step { packets (fun _ => false) 0 with reset := true } (start fun _ => ⟨0, 0, 0⟩)

theorem fromReset_packets (q : Nat → Bool) :
    FromReset (packets q) (run step afterReset (packets q)) where
  follows := follows_run _ _ _
  start := ⟨_, _, rfl, rfl⟩
  reset _ := rfl

theorem answered_packets (q : Nat → Bool) (F : Nat) : Answered (packets q) F ↔ 32 < F := by
  rw [Answered, LookupTable.sinceClear_eq fun _ => rfl, openflowWildcardTableSize]
  omega

/-- The FIFOs stay aligned exactly if no packet that the table does not answer comes before one that
it answers. -/
theorem FromReset.aligned_iff (h : FromReset i s) :
    Aligned i s ↔ ∀ F G, F < G → (i F).flowEntryVld = true → (i G).flowEntryVld = true →
      Answered i G → Answered i F := by
  refine ⟨fun haligned F G hFG => h.answered_of_aligned haligned hFG, fun hgap => ?_⟩
  rw [h.aligned_iff_isNth, isNth_of_isNth_iff fun u hu => (Bool.and_eq_true_iff.mp hu).1]
  intro F G hFG hF hG
  rw [Bool.and_eq_true, decide_eq_true_eq] at hG ⊢
  exact ⟨hF, hgap F G hFG hF hG.1 hG.2⟩

/-- Packets that wait for the initialisation. -/
theorem aligned_of_late_packets :
    Aligned (packets fun t => decide (33 ≤ t))
      (run step afterReset (packets fun t => decide (33 ≤ t))) := by
  refine (fromReset_packets _).aligned_iff.mpr fun F _ _ hF _ _ => ?_
  rw [answered_packets]
  exact decide_eq_true_eq.mp hF

/-- A packet right after the reset and another one later: the answer to the second is the first word
of `action_fifo`. -/
theorem early_packet_unanswered :
    let i := packets fun t => t == 0 || t == 40
    let s := run step afterReset i
    FromReset i s ∧ ¬ Aligned i s := by
  intro i s
  have h : FromReset i s := fromReset_packets _
  refine ⟨h, fun haligned => ?_⟩
  have hearly := h.answered_of_aligned haligned (show 0 < 40 by decide) rfl rfl
    ((answered_packets _ 40).mpr (by decide))
  exact absurd ((answered_packets _ 0).mp hearly) (by decide)

end WildcardMatch

end Sdpa.Hardware
