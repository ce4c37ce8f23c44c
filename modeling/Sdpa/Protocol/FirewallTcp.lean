import Sdpa.Protocol.FirewallRuns

/-!
# TCP conversations at the firewall

A conversation is what the switch sees of a connection that the client opens: the
handshake, data both ways, and an orderly close that either side starts. An
acknowledgement that the switch has seen may still be lost behind it, so a segment
may come again until its sender has gone on.
-/
namespace Sdpa.Protocol.Firewall

open Sdpa.Lib.Histories
open Sdpa.Switch

variable {hash : Key → BitVec 32}

/-! ## Conversations -/

inductive Kind
  | syn | synAck | ack | finAck
  deriving DecidableEq

def Kind.hasSyn : Kind → Bool
  | .syn | .synAck => true
  | .ack | .finAck => false

def Kind.hasAck : Kind → Bool
  | .syn => false
  | .synAck | .ack | .finAck => true

def Kind.hasFin : Kind → Bool
  | .finAck => true
  | .syn | .synAck | .ack => false

def rst (flags : BitVec 16) : Bool := flags.getLsbD 2

/-- The flags of the segment are those of its kind. PSH, URG and the ECN flags do not matter. -/
structure Segment.Is (seg : Segment) (k : Kind) : Prop where
  syn : syn seg.flags = k.hasSyn
  ack : ack seg.flags = k.hasAck
  fin : fin seg.flags = k.hasFin
  rst : rst seg.flags = false

/-- How far a conversation has got. The side that closes first is the client if the flag is set. -/
inductive Phase
  | idle
  | synSent
  | synReceived
  | established
  | finWait (first : Bool)
  | closeWait (first : Bool)
  | lastAck (first : Bool)
  | closed (first : Bool)
  deriving DecidableEq

/-- The segments that may come next, with the side that sends them. -/
inductive Legal : Phase → Bool → Kind → Phase → Prop
  | syn : Legal .idle true .syn .synSent
  | synAgain : Legal .synSent true .syn .synSent
  | synAck : Legal .synSent false .synAck .synReceived
  /-- The SYN+ACK was lost. -/
  | synLate : Legal .synReceived true .syn .synReceived
  | synAckAgain : Legal .synReceived false .synAck .synReceived
  | ack : Legal .synReceived true .ack .established
  /-- The ACK was lost. -/
  | synAckLate : Legal .established false .synAck .established
  | data (side : Bool) : Legal .established side .ack .established
  | fin (first : Bool) : Legal .established first .finAck (.finWait first)
  | finAgain (first : Bool) : Legal (.finWait first) first .finAck (.finWait first)
  /-- Data that was under way, and its acknowledgement. -/
  | finData (first side : Bool) : Legal (.finWait first) side .ack (.finWait first)
  | finAcked (first : Bool) : Legal (.finWait first) (!first) .ack (.closeWait first)
  /-- The other side closes as it acknowledges. -/
  | finBoth (first : Bool) : Legal (.finWait first) (!first) .finAck (.lastAck first)
  | finLate (first : Bool) : Legal (.closeWait first) first .finAck (.closeWait first)
  | halfClosed (first side : Bool) : Legal (.closeWait first) side .ack (.closeWait first)
  | lastFin (first : Bool) : Legal (.closeWait first) (!first) .finAck (.lastAck first)
  | lastFinAgain (first : Bool) : Legal (.lastAck first) (!first) .finAck (.lastAck first)
  | lastAcked (first : Bool) : Legal (.lastAck first) first .ack (.closed first)

/-- A conversation up to some point. -/
inductive Conversation : List Segment → Phase → Prop
  | start : Conversation [] .idle
  | next {past : List Segment} {ph ph' : Phase} {seg : Segment} {k : Kind}
      (before : Conversation past ph) (is : seg.Is k) (legal : Legal ph seg.fromClient k ph') :
      Conversation (past ++ [seg]) ph'

/-- The client's SYN is sent once, and no side sends anything after its own FIN. If the
two directions share a cell, no side sends anything after either FIN. -/
def Clean (hash : Key → BitVec 32) (o : Opening) (segs : List Segment) : Prop :=
  AtEach (fun past x => (x.Is .syn → ∀ y ∈ past, ¬ y.Is .syn) ∧
    ∀ y ∈ past, fin y.flags = true → y.fromClient ≠ x.fromClient ∧
      hash (o.key false) ≠ hash (o.key true)) segs

/-! ## What a conversation has been through -/

/-- The side has sent its FIN. -/
def Phase.finished : Phase → Bool → Bool
  | .finWait first, side | .closeWait first, side => side == first
  | .lastAck _, _ | .closed _, _ => true
  | .idle, _ | .synSent, _ | .synReceived, _ | .established, _ => false

theorem Segment.Is.unique {seg : Segment} {k k' : Kind} (h : seg.Is k) (h' : seg.Is k') : k = k' := by
  have hsyn := h.syn.symm.trans h'.syn
  have hack := h.ack.symm.trans h'.ack
  have hfin := h.fin.symm.trans h'.fin
  revert hsyn hack hfin
  cases k <;> cases k' <;> decide

theorem Legal.of_idle {side : Bool} {k : Kind} {ph' : Phase} (h : Legal .idle side k ph') :
    k = .syn := by
  cases h
  rfl

theorem Legal.not_idle {ph ph' : Phase} {side : Bool} {k : Kind} (h : Legal ph side k ph') :
    ph' ≠ .idle := by
  cases h <;> exact Phase.noConfusion

theorem Legal.of_closed {ph : Phase} {side first : Bool} {k : Kind}
    (h : Legal ph side k (.closed first)) : ph.finished side = true := by
  cases h
  rfl

theorem Legal.finished {ph ph' : Phase} {side : Bool} {k : Kind} (h : Legal ph side k ph')
    (d : Bool) : ph'.finished d = (ph.finished d || (k.hasFin && d == side)) := by
  cases h with
  | data | fin | finAgain | finLate | lastAcked => cases side <;> cases d <;> rfl
  | finAcked first | finBoth first | lastFin first | lastFinAgain first => cases first <;> cases d <;> rfl
  | finData first | halfClosed first => cases first <;> cases side <;> cases d <;> rfl
  | _ => cases d <;> rfl

theorem Conversation.syn_iff {segs : List Segment} {ph : Phase} (h : Conversation segs ph) :
    (∃ y ∈ segs, y.Is .syn) ↔ ph ≠ .idle := by
  induction h with
  | start => simp
  | @next past ph ph' seg k before is legal ih =>
    refine ⟨fun _ => legal.not_idle, fun _ => ?_⟩
    by_cases hidle : ph = .idle
    · subst hidle
      rw [legal.of_idle] at is
      exact ⟨seg, by simp, is⟩
    · obtain ⟨y, hy, hsyn⟩ := ih.mpr hidle
      exact ⟨y, List.mem_append_left _ hy, hsyn⟩

theorem Conversation.finished_iff {segs : List Segment} {ph : Phase} (h : Conversation segs ph)
    (d : Bool) : (∃ y ∈ segs, fin y.flags = true ∧ y.fromClient = d) ↔ ph.finished d = true := by
  induction h with
  | start => simp [Phase.finished]
  | @next past ph ph' seg k before is legal ih =>
    rw [legal.finished, Bool.or_eq_true, ← ih, Bool.and_eq_true, beq_iff_eq, ← is.fin]
    constructor
    · rintro ⟨y, hy, hfin, hd⟩
      rcases List.mem_append.mp hy with hold | hnew
      · exact .inl ⟨y, hold, hfin, hd⟩
      · obtain rfl := List.mem_singleton.mp hnew
        exact .inr ⟨hfin, hd.symm⟩
    · rintro (⟨y, hy, hrest⟩ | ⟨hfin, hd⟩)
      · exact ⟨y, List.mem_append_left _ hy, hrest⟩
      · exact ⟨seg, by simp, hfin, hd.symm⟩

/-! ## The cells in each phase -/

def Phase.client (ph : Phase) : BitVec 32 :=
  match ph with
  | .idle => 1
  | .synSent | .synReceived => 3
  | .established => 7
  | _ => if ph.finished true then 1 else 7

def Phase.server (ph : Phase) : BitVec 32 :=
  match ph with
  | .idle | .synSent => 2
  | .synReceived | .established => 8
  | _ => if ph.finished false then 2 else 8

/-- A single cell goes through the states of the requester. -/
def Phase.single : Phase → BitVec 32
  | .idle => 1
  | .synSent => 3
  | .synReceived | .established => 7
  | _ => 1

def Phase.own (ph : Phase) (side : Bool) : BitVec 32 := if side then ph.client else ph.server

def Phase.cells (hash : Key → BitVec 32) (o : Opening) (ph : Phase) : Cells := fun side =>
  if hash (o.key false) = hash (o.key true) then ph.single else ph.own side

def Kind.walk (k : Kind) (status : BitVec 32) : BitVec 32 :=
  Firewall.walk k.hasSyn k.hasAck k.hasFin status

/-- One segment at a single cell, and at cells of their own. -/
theorem Legal.walk {ph ph' : Phase} {side : Bool} {k : Kind} (h : Legal ph side k ph') :
    (ph'.single = (if k.walk ph.single = 0 then ph.single else k.walk ph.single) ∧
      (k.walk ph.single = 0 ↔ (k = .syn ∧ ph ≠ .idle) ∨ ∃ d, ph.finished d = true)) ∧
    ph'.own (!side) = ph.own (!side) ∧
    ph'.own side = (if k.walk (ph.own side) = 0 then ph.own side else k.walk (ph.own side)) ∧
    (k.walk (ph.own side) = 0 ↔ (k = .syn ∧ ph ≠ .idle) ∨ ph.finished side = true) := by
  cases h with
  | data | fin | finAgain | finLate | lastAcked => cases side <;> decide
  | finAcked first | finBoth first | lastFin first | lastFinAgain first => cases first <;> decide
  | finData first | halfClosed first => cases first <;> cases side <;> decide
  | _ => decide

theorem Segment.Is.next {seg : Segment} {k : Kind} (h : seg.Is k) (status : BitVec 32) :
    next seg.flags status = k.walk status := by
  rw [next_eq_walk, h.syn, h.ack, h.fin]
  rfl

/-- The keys of different directions share a hash only if there is a single cell. -/
theorem hash_key_ne {o : Opening} (h : hash (o.key false) ≠ hash (o.key true)) {d d' : Bool} :
    hash (o.key d) = hash (o.key d') ↔ d = d' := by
  cases d <;> cases d' <;> simp [h, Ne.symm h]

theorem hash_key_eq {o : Opening} (h : hash (o.key false) = hash (o.key true)) (d d' : Bool) :
    hash (o.key d) = hash (o.key d') := by
  cases d <;> cases d' <;> simp [h]

section

variable {ph ph' : Phase} {seg : Segment} {k : Kind} (is : seg.Is k)
  (legal : Legal ph seg.fromClient k ph') (o : Opening)
include is legal

theorem after_cells : after hash o (ph.cells hash o) seg = ph'.cells hash o := by
  funext d
  by_cases hhash : hash (o.key false) = hash (o.key true)
  · obtain ⟨⟨hstep, -⟩, -⟩ := legal.walk
    have hcell : ∀ p : Phase, ∀ d, p.cells hash o d = p.single := fun p d => if_pos hhash
    rw [after, hcell, hcell, hcell, is.next, hstep]
    by_cases hzero : k.walk ph.single = 0
    · rw [if_neg (fun h => h.1 hzero), if_pos hzero]
    · rw [if_pos ⟨hzero, hash_key_eq hhash _ _⟩, if_neg hzero]
  · obtain ⟨-, hother, hstep, -⟩ := legal.walk
    have hcell : ∀ p : Phase, ∀ d, p.cells hash o d = p.own d := fun p d => if_neg hhash
    rw [after, hcell, hcell, hcell, is.next]
    by_cases hd : d = seg.fromClient
    · rw [hd, hstep]
      by_cases hzero : k.walk (ph.own seg.fromClient) = 0
      · rw [if_neg (fun h => h.1 hzero), if_pos hzero]
      · rw [if_pos ⟨hzero, rfl⟩, if_neg hzero]
    · have hnot : d = !seg.fromClient := by
        cases d <;> cases hc : seg.fromClient <;> simp_all
      rw [if_neg (fun h => hd ((hash_key_ne hhash).mp h.2)), hnot, hother]

theorem dropped_cells : dropped (ph.cells hash o) seg = true ↔
    (k = .syn ∧ ph ≠ .idle) ∨ ph.finished seg.fromClient = true ∨
      (hash (o.key false) = hash (o.key true) ∧ ∃ d, ph.finished d = true) := by
  rw [dropped, beq_iff_eq, is.next, Phase.cells]
  by_cases hhash : hash (o.key false) = hash (o.key true)
  · rw [if_pos hhash, legal.walk.1.2]
    simp only [hhash, true_and]
    constructor
    · rintro (h | h)
      · exact .inl h
      · exact .inr (.inr h)
    · rintro (h | h | h)
      · exact .inl h
      · exact .inr ⟨_, h⟩
      · exact .inr h
  · rw [if_neg hhash, legal.walk.2.2.2]
    simp only [hhash, false_and, or_false]

end

theorem initial_eq (o : Opening) : initial hash o = Phase.idle.cells hash o := by
  funext d
  rw [initial, Phase.cells]
  by_cases hhash : hash (o.key false) = hash (o.key true)
  · rw [if_pos (hash_key_eq hhash _ _), if_pos hhash]
    rfl
  · rw [if_neg hhash]
    cases d with
    | true => exact if_pos rfl
    | false => exact if_neg hhash

theorem Conversation.cells_eq {segs : List Segment} {ph : Phase} (h : Conversation segs ph)
    (o : Opening) : cells hash o segs = ph.cells hash o := by
  induction h with
  | start => exact initial_eq o
  | next before is legal ih => rw [cells_snoc, ih, after_cells is legal]

/-- Whether the next segment is as the condition asks, seen from the phase. -/
theorem Conversation.clean_next {past : List Segment} {ph ph' : Phase} {seg : Segment} {k : Kind}
    (h : Conversation past ph) (is : seg.Is k) (legal : Legal ph seg.fromClient k ph')
    (o : Opening) :
    ((seg.Is .syn → ∀ y ∈ past, ¬ y.Is .syn) ∧
      ∀ y ∈ past, fin y.flags = true → y.fromClient ≠ seg.fromClient ∧
        hash (o.key false) ≠ hash (o.key true)) ↔
      dropped (ph.cells hash o) seg = false := by
  rw [← Bool.not_eq_true, dropped_cells is legal, not_or, not_or]
  constructor
  · rintro ⟨hsyn, hfin⟩
    refine ⟨?_, ?_, ?_⟩
    · rintro ⟨rfl, hph⟩
      obtain ⟨y, hy, hys⟩ := h.syn_iff.mpr hph
      exact hsyn is y hy hys
    · intro hdone
      obtain ⟨y, hy, hyf, hside⟩ := (h.finished_iff _).mpr hdone
      exact (hfin y hy hyf).1 hside
    · rintro ⟨hhash, d, hdone⟩
      obtain ⟨y, hy, hyf, -⟩ := (h.finished_iff _).mpr hdone
      exact (hfin y hy hyf).2 hhash
  · rintro ⟨hsyn, hown, hsingle⟩
    refine ⟨?_, ?_⟩
    · intro hs y hy hys
      exact hsyn ⟨is.unique hs, h.syn_iff.mp ⟨y, hy, hys⟩⟩
    · intro y hy hyf
      refine ⟨fun hside => hown ?_, fun hhash => hsingle ⟨hhash, y.fromClient, ?_⟩⟩
      · exact (h.finished_iff _).mp ⟨y, hy, hyf, hside⟩
      · exact (h.finished_iff _).mp ⟨y, hy, hyf, rfl⟩

theorem Conversation.none_dropped_iff {segs : List Segment} {ph : Phase} (h : Conversation segs ph)
    (o : Opening) :
    (∀ v ∈ verdicts hash o (initial hash o) segs, v = false) ↔ Clean hash o segs := by
  induction h with
  | start => exact ⟨fun _ => atEach_nil, fun _ v hv => (List.not_mem_nil hv).elim⟩
  | @next past ph ph' seg k before is legal ih =>
    have hlast : verdicts hash o (cells hash o past) [seg] = [dropped (ph.cells hash o) seg] := by
      rw [before.cells_eq]
      rfl
    rw [Clean, atEach_snoc, ← Clean, ← ih, before.clean_next is legal, verdicts_append]
    change (∀ v ∈ _ ++ verdicts hash o (cells hash o past) [seg], v = false) ↔ _
    rw [hlast]
    constructor
    · intro hall
      exact ⟨fun v hv => hall v (List.mem_append_left _ hv), hall _ (by simp)⟩
    · rintro ⟨hpast, hseg⟩ v hv
      rcases List.mem_append.mp hv with hv | hv
      · exact hpast v hv
      · rw [List.mem_singleton.mp hv]
        exact hseg

/-- The firewall drops nothing of a conversation exactly if the client's SYN is not
repeated and no side sends anything after its FIN. -/
theorem conversation_passes_iff (o : Opening) :
    ∃ g : GApps hash, installed o = .ok g ∧ ∀ segs ph, Conversation segs ph → ∃ g' vs,
      fpRun g (segs.map o.packet) = .ok (g', vs) ∧
        ((∀ v ∈ vs, v = .ok false) ↔ Clean hash o segs) := by
  obtain ⟨g, hinstalled, htracks⟩ := installed_tracks o
  refine ⟨g, hinstalled, fun segs ph h => ?_⟩
  obtain ⟨g', hrun, -⟩ := htracks.run segs
  refine ⟨g', _, hrun, ?_⟩
  rw [← h.none_dropped_iff o, List.forall_mem_map]
  exact forall₂_congr fun _ _ => ⟨Except.ok.inj, congrArg _⟩

/-- No conversation that is complete meets the condition: the side that closes first
has to acknowledge the other's FIN. -/
theorem Conversation.not_clean {segs : List Segment} {first : Bool}
    (h : Conversation segs (.closed first)) (o : Opening) : ¬ Clean hash o segs := by
  cases h with
  | @next past ph ph' seg k before is legal =>
    intro hclean
    obtain ⟨-, -, hfin⟩ := atEach_snoc.mp hclean
    have hdone := legal.of_closed
    obtain ⟨y, hy, hyf, hside⟩ := (before.finished_iff _).mpr hdone
    exact (hfin y hy hyf).1 hside

/-! ## A conversation that loses its last ACK -/

/-- The client asks, and closes at once. -/
def shortConversation : List Segment :=
  [⟨true, 2, fun _ => 0⟩, ⟨false, 18, fun _ => 0⟩, ⟨true, 16, fun _ => 0⟩,
    ⟨true, 17, fun _ => 0⟩, ⟨false, 16, fun _ => 0⟩, ⟨false, 17, fun _ => 0⟩,
    ⟨true, 16, fun _ => 0⟩]

theorem shortConversation_legal : Conversation shortConversation (.closed true) := by
  have is : ∀ (seg : Segment) (k : Kind), (syn seg.flags = k.hasSyn ∧ ack seg.flags = k.hasAck ∧
      fin seg.flags = k.hasFin ∧ rst seg.flags = false) → seg.Is k :=
    fun seg k h => ⟨h.1, h.2.1, h.2.2.1, h.2.2.2⟩
  have h₁ := Conversation.start.next (is ⟨true, 2, fun _ => 0⟩ .syn (by decide)) .syn
  have h₂ := h₁.next (is ⟨false, 18, fun _ => 0⟩ .synAck (by decide)) .synAck
  have h₃ := h₂.next (is ⟨true, 16, fun _ => 0⟩ .ack (by decide)) .ack
  have h₄ := h₃.next (is ⟨true, 17, fun _ => 0⟩ .finAck (by decide)) (.fin true)
  have h₅ := h₄.next (is ⟨false, 16, fun _ => 0⟩ .ack (by decide)) (.finAcked true)
  have h₆ := h₅.next (is ⟨false, 17, fun _ => 0⟩ .finAck (by decide)) (.lastFin true)
  exact h₆.next (is ⟨true, 16, fun _ => 0⟩ .ack (by decide)) (.lastAcked true)

/-- Six segments pass and the last is dropped. -/
theorem last_ack_dropped :
    Conversation shortConversation (.closed true) ∧
    ∃ g : GApps hashString, installed web = .ok g ∧ ∃ g',
      fpRun g (shortConversation.map web.packet) =
        .ok (g', [.ok false, .ok false, .ok false, .ok false, .ok false, .ok false, .ok true]) := by
  obtain ⟨g, hinstalled, htracks⟩ := installed_tracks web
  obtain ⟨g', hrun, -⟩ := htracks.run shortConversation
  have hvs : verdicts hashString web (initial hashString web) shortConversation =
      [false, false, false, false, false, false, true] := by decide +kernel
  rw [hvs] at hrun
  exact ⟨shortConversation_legal, g, hinstalled, g', hrun⟩

end Sdpa.Protocol.Firewall
