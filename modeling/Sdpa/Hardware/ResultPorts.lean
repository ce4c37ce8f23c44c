import Sdpa.Hardware.AppChain
import Sdpa.Hardware.StateUpdates

/-!
# The source ports of the results

A result is written 43 cycles after its packet was taken, with the source port
that is shown in that cycle: that of the packet until the next one falls through the
FIFO, two cycles after it came. So results carry the port of their packet if packets
come at least 48 cycles apart. For any two packets that come closer there are tables
with which a result has the port of a packet that it was not computed for.
-/
namespace Sdpa.Hardware

open Lib.Clocked Lib.Fallthrough

namespace StateLookup

/-- Every word that goes into the result FIFO is the action computed for some packet and the source
port of that packet. -/
def PortsOwn (p : ProcParams) (i : Nat → LookupIn) (s : Nat → StateLookup) : Prop :=
  ∀ t, StateLookup.actionVld (s t) = true → ∃ F, F < t ∧ vld i F = true ∧
    resultWord (s t) = ((i F).flowEntrySrcPortParsed, computed p i s F)

variable {p : ProcParams} {i : Nat → LookupIn} {s : Nat → StateLookup}

/-- The port shown is that of the last packet that has come to the output of its FIFO. -/
theorem Fed.port_eq (h : Fed p i s) (hno : NoOverflow i s) {t k F : Nat} (hF : IsNth (vld i) k F)
    (hk : min (count (vld i) (t - 1)) (count (rd s) t + 1) = k + 1) :
    (s t).wildcardMatch.srcPortFifo.dout = (i F).flowEntrySrcPortParsed := by
  refine FallthroughSmallFifo.dout_of_shown (f := fun t => (s t).wildcardMatch.srcPortFifo)
    h.srcPortFifo h.matchIdle.srcPortFifo ?_ (shown_stamps (h.entryOnDemand hno) hF hk)
  exact FallthroughSmallFifo.roomy_of_not_overflows h.srcPortFifo h.matchIdle.srcPortFifo
    hno.srcPort t

theorem Lookups.portsOwn (h : Lookups p i s) (hno : NoOverflow i s) (hspaced : Spaced 48 (vld i)) :
    PortsOwn p i s := by
  intro t ht
  have hapart : Spaced 12 (vld i) := hspaced.mono (by omega)
  have hrd := h.rd_eq_ago hno hapart
  rw [h.actionVld t, hrd, ago_ago] at ht
  obtain ⟨F, rfl, hF⟩ := ago_iff.mp ht
  refine ⟨F, by omega, hF, Prod.ext ?_ (h.out_eq_computed hno hapart hF)⟩
  refine h.port_eq hno (k := count (vld i) F) ⟨hF, rfl⟩ ?_
  -- No packet comes in the next 47 cycles.
  have hnone : ∀ {u}, F + 1 ≤ u → u ≤ F + 48 → count (vld i) u = count (vld i) F + 1 := by
    intro u hu huF
    rw [count_eq_of_low hu fun v hv hvu => hspaced.low hF (by omega) (by omega), count_succ, hF]
    rfl
  have hcame : count (vld i) (F + 48) = count (vld i) F + 1 := hnone (by omega) (by omega)
  have htaken : count (rd s) (F + 49) = count (vld i) F + 1 := by
    rw [hrd, count_ago]
    exact hnone (by omega) (by omega)
  show min (count (vld i) (F + 48)) (count (rd s) (F + 49) + 1) = _
  omega

/-! ## Two packets that come too close

The packets before the first of the two do nothing. That one moves the state of the third
application, and the action of those after it depends on whether it came before them. -/

inductive Kind where
  | before | first | after
deriving DecidableEq, Repr

namespace Kind

def of (T t : Nat) : Kind := if t < T then .before else if t = T then .first else .after

theorem of_lt {T t : Nat} (h : t < T) : of T t = before := if_pos h

theorem of_self (T : Nat) : of T T = first := by rw [of, if_neg (by omega), if_pos rfl]

theorem of_gt {T t : Nat} (h : T < t) : of T t = after := by
  rw [of, if_neg (by omega), if_neg (by omega)]

def port : Kind → BitVec 8
  | before => 0
  | first => 1
  | after => 2

def entry : Kind → StateEntry
  | before => ⟨0, 0, 0, 0⟩
  | first => ⟨0, 0, 1, 1⟩
  | after => ⟨0, 0, 2, 2⟩

/-- An action that sends the packet to the third application. -/
def goToThird : BitVec 320 := 3#64 ++ 0#256

def request (k : Kind) : Request := requestOf k.entry goToThird

def flowTable (_ : Nat) : Entry 248 320 := ⟨BitVec.allOnes 248, 0, goToThird⟩

/-- An action table entry that sets the forward bitmask. -/
def forwards (bitmask : BitVec 320) : BitVec 338 := 0#2 ++ bitmask ++ 1#16

/-- State zero with the event of the first packet goes to state one, where the event of the later
packets stays; with the event of a later packet it goes to state two. -/
def third : AppStore where
  st := fun _ => ⟨BitVec.allOnes 248, 0, 0⟩
  stt := fun n => if n = 0 then ⟨0, 1#32 ++ 0#8, 1⟩ else if n = 1 then ⟨0, 2#32 ++ 1#8, 1⟩
    else ⟨0, 2#32 ++ 0#8, 2⟩
  at' := fun n => if n = 0 then ⟨0, 1#8 ++ 1#248, forwards 10⟩
    else if n = 1 then ⟨0, 1#8 ++ 2#248, forwards 20⟩ else ⟨0, 2#8 ++ 2#248, forwards 30⟩
  updateAddr := 0

/-- The tables of `third` with its state table in one state. -/
structure InState (state : BitVec 8) (m : AppStore) : Prop where
  dmask : ∀ n, (m.st n).dmask = BitVec.allOnes 248
  data : (m.st 0).data = state
  stt : m.stt = third.stt
  at' : m.at' = third.at'

theorem inState_third : InState 0 third := ⟨fun _ => rfl, rfl, rfl, rfl⟩

end Kind

namespace Kind

variable {m : AppStore} {z : BitVec 8} {k : Kind} {g : AppTags}

theorem InState.line (h : InState z m) (r : Request) :
    m.line (StateProcessor.appParams 3 g) r = some 0 :=
  LookupTable.find_of_dmask (Nat.succ_pos 7) (h.dmask 0) _

theorem InState.state (h : InState z m) (r : Request) :
    m.state (StateProcessor.appParams 3 g) r = z := by
  rw [AppStore.state, LookupTable.lookup_of_find (h.line (g := g) r)]
  exact h.data

/-- What the transition table of `third` has for a packet. -/
def next (z : BitVec 8) (k : Kind) : Option Nat :=
  (List.range 8).find? fun n => (third.stt n).hits (k.entry.eventParam3 ++ z)

theorem InState.find (h : InState z m) :
    LookupTable.find (StateProcessor.appParams 3 g).sttParams m.stt
      (m.sttKey (StateProcessor.appParams 3 g) k.request) = next z k := by
  have hevent : (StateProcessor.appParams 3 g).eventParamLocal k.request =
      k.entry.eventParam3 := by
    cases k <;> rfl
  rw [AppStore.sttKey, h.state, h.stt, hevent]
  rfl

/-- The next state of the packet. -/
def nextState (z : BitVec 8) (k : Kind) : BitVec 8 :=
  match next z k with
  | some n => (third.stt n).data
  | none => 0

theorem InState.nextState (h : InState z m) :
    m.nextState (StateProcessor.appParams 3 g) k.request = Kind.nextState z k := by
  have hfind := h.find (k := k) (g := g)
  rw [AppStore.nextState, LookupTable.lookup, hfind, h.stt]
  rfl

/-- The packet moves the state, if there is an entry for it. -/
theorem InState.serve (h : InState z m) :
    InState (if (next z k).isSome then Kind.nextState z k else z)
      (m.serve (StateProcessor.appParams 3 g) k.request) := by
  have hfind := h.find (k := k) (g := g)
  have hfor : (StateProcessor.appParams 3 g).isFor k.request.appId = true := by
    cases k <;> rfl
  have hmoves : m.moves (StateProcessor.appParams 3 g) k.request = (next z k).isSome := by
    rw [AppStore.moves, hfind]
  cases hn : (next z k).isSome with
  | false =>
    have hst : (m.serve (StateProcessor.appParams 3 g) k.request).st = m.st :=
      AppStore.serve_st_of_not (by rw [hmoves, hn, Bool.false_and])
    exact ⟨fun n => by rw [hst, h.dmask n], by rw [hst]; exact h.data, h.stt, h.at'⟩
  | true =>
    have hst := AppStore.serve_st_of_moves hfor (hmoves.trans hn)
    rw [h.nextState] at hst
    refine ⟨fun n => ?_, ?_, h.stt, h.at'⟩
    · rw [(AppStore.serve_keys _ m _ n).2, h.dmask n]
    · have haddr : m.addr (StateProcessor.appParams 3 g) k.request = 0 := by
        rw [AppStore.addr, h.line]
        rfl
      rw [hst, haddr, setPair, if_pos rfl, if_pos rfl]

theorem InState.serve_before (h : InState 0 m) :
    InState 0 (m.serve (StateProcessor.appParams 3 g) before.request) := by
  have hnext : next 0 before = none := by decide
  have hserve := h.serve (k := before) (g := g)
  rwa [hnext] at hserve

theorem InState.serve_first (h : InState 0 m) :
    InState 1 (m.serve (StateProcessor.appParams 3 g) first.request) := by
  have hnext : next 0 first = some 0 := by decide
  have hserve := h.serve (k := first) (g := g)
  rwa [Kind.nextState, hnext] at hserve

theorem InState.serve_after (h : InState 1 m) :
    InState 1 (m.serve (StateProcessor.appParams 3 g) after.request) := by
  have hnext : next 1 after = some 1 := by decide
  have hserve := h.serve (k := after) (g := g)
  rwa [Kind.nextState, hnext] at hserve

/-- The action table entry that a packet finds. -/
def atEntry (z : BitVec 8) (k : Kind) : BitVec 338 :=
  match (List.range 8).find? fun n => (third.at' n).hits (nextState z k ++ k.entry.flowEntry) with
  | some n => (third.at' n).data
  | none => 0

theorem InState.atEntry (h : InState z m) :
    m.atEntry (StateProcessor.appParams 3 g) k.request = Kind.atEntry z k := by
  rw [AppStore.atEntry, AppStore.atKey, h.nextState, h.at']
  rfl

/-- The action of a packet with this entry. -/
def action (w : BitVec 338) : BitVec 320 :=
  modifyAction (StatefulApp.actionFlag w) goToThird (StatefulApp.actionParam w) 0

/-! The entries found differ in the forward bitmask. -/

theorem atEntry_first : atEntry 0 first = forwards 10 := by decide +kernel

theorem atEntry_after : atEntry 1 after = forwards 20 := by decide +kernel

theorem atEntry_early : atEntry 0 after = forwards 30 := by decide +kernel

theorem action_ne : action (forwards 10) ≠ action (forwards 20) ∧
    action (forwards 30) ≠ action (forwards 20) := by decide +kernel

/-- The packets are for the third application and go through the others as they are. -/
theorem answer_request (m : AppStore) {n : Nat} (hn : 3 ≠ n) :
    m.answer (StateProcessor.appParams n g) k.request = k.request := by
  have happ : k.request.appId.toNat = 3 := by cases k <;> rfl
  refine AppStore.answer_of_other ?_
  rw [AppParams.isFor, happ]
  exact decide_eq_false hn

end Kind

/-- The packets of the cycles of `q`, with the one of cycle `T` as the first. -/
def closeFeed (q : Nat → Bool) (T : Nat) : Nat → LookupIn :=
  feed q (fun t => (Kind.of T t).entry) fun t => (Kind.of T t).port

/-- They come to the tables of `Kind`. -/
structure Close (p : ProcParams) (q : Nat → Bool) (T : Nat) (s : Nat → StateLookup) : Prop where
  lookups : Lookups p (closeFeed q T) s
  table : (s 0).wildcardMatch.wildcardCamLutSm.lut = Kind.flowTable
  unwritten : LookupTable.Unwritten (s 0).wildcardMatch.wildcardCamLutSm
  third : (s 0).stores.app3 = Kind.third

theorem close_start (p : ProcParams) (q : Nat → Bool) (T : Nat) :
    Close p q T (run (step p) (start Kind.flowTable Kind.third Kind.third Kind.third)
      (closeFeed q T)) where
  lookups := lookups_start p _ _ _ _ _ _ _
  table := rfl
  unwritten := LookupTable.unwritten_start _
  third := rfl

namespace Close

variable {q : Nat → Bool} {T : Nat} (h : Close p q T s)

include h

theorem wildcardData {F : Nat} (hF : q F = true) :
    (s (F + 4)).wildcardMatch.wildcardData = Kind.goToThird := by
  have hfind : LookupTable.find WildcardMatch.tableParams Kind.flowTable
      (closeFeed q T F).flowEntry = some 0 := LookupTable.find_of_dmask (Nat.succ_pos 31) rfl _
  rw [h.lookups.wildcardData_eq (fun _ hreq => by cases hreq) h.unwritten hF, h.table]
  exact (LookupTable.lookup_of_find hfind).trans rfl

theorem packet_eq {F : Nat} (hF : q F = true) :
    packet (closeFeed q T) s F = (Kind.of T F).request := by
  rw [packet, h.wildcardData hF]
  rfl

/-- Served one at a time, the packets after the first find its state. -/
theorem inTurn_inState (hT : q T = true) (t : Nat) :
    Kind.InState (if t ≤ T then 0 else 1) (inTurn p (closeFeed q T) s t).app3 := by
  induction t with
  | zero =>
    rw [if_pos (Nat.zero_le T)]
    exact h.third ▸ Kind.inState_third
  | succ t ih =>
    cases ht : q t with
    | false =>
      have hsame : inTurn p (closeFeed q T) s (t + 1) = inTurn p (closeFeed q T) s t :=
        if_neg (by rw [show vld (closeFeed q T) t = false from ht]; exact Bool.false_ne_true)
      have hne : t ≠ T := by
        rintro rfl
        rw [hT] at ht
        cases ht
      rw [hsame, show (if t + 1 ≤ T then (0 : BitVec 8) else 1) = if t ≤ T then 0 else 1 from
        if_congr (by omega) rfl rfl]
      exact ih
    | true =>
      have hserve : (inTurn p (closeFeed q T) s (t + 1)).app3 =
          (inTurn p (closeFeed q T) s t).app3.serve (StateProcessor.appParams 3 p.app3)
            (Kind.of T t).request := by
        rw [show inTurn p (closeFeed q T) s (t + 1) = _ from if_pos ht, h.packet_eq ht,
          Stores.serve, Stores.request3, Stores.request2, Kind.answer_request _ (by decide),
          Kind.answer_request _ (by decide)]
      rw [hserve]
      rcases Nat.lt_trichotomy t T with hlt | rfl | hlt
      · rw [if_pos (by omega)] at ih
        rw [Kind.of_lt hlt, if_pos (by omega)]
        exact ih.serve_before
      · rw [if_pos (by omega)] at ih
        rw [Kind.of_self, if_neg (by omega)]
        exact ih.serve_first
      · rw [if_neg (by omega)] at ih
        rw [Kind.of_gt hlt, if_neg (by omega)]
        exact ih.serve_after

theorem computed_after (hT : q T = true) {F : Nat} (hF : q F = true) (hTF : T < F) :
    computed p (closeFeed q T) s F = Kind.action (Kind.forwards 20) := by
  have hstate := h.inTurn_inState hT F
  rw [if_neg (by omega)] at hstate
  have hfor : (StateProcessor.appParams 3 p.app3).isFor Kind.after.request.appId = true := rfl
  have hentry := hstate.atEntry (k := .after) (g := p.app3)
  rw [Kind.atEntry_after] at hentry
  rw [computed, h.packet_eq hF, Kind.of_gt hTF, Stores.answer, Stores.request3, Stores.request2,
    Kind.answer_request _ (by decide), Kind.answer_request _ (by decide), AppStore.answer,
    if_pos hfor, hentry]
  rfl

end Close

/-! ## The same packets through the circuit -/

/-- Requests to an application, with the first one in cycle `T`. It may already have been replaced
by a later one. -/
structure Wave (T : Nat) (x : Nat → AppIn) : Prop where
  spaced : Spaced 9 (StatefulApp.vld x)
  pulse : StatefulApp.vld x T = true
  early : ∀ t u, StatefulApp.vld x t = true → StatefulApp.vld x u = true → t < T → t < u →
    t + 12 ≤ u
  before : ∀ t, StatefulApp.vld x t = true → t < T → (x t).request = Kind.before.request
  first : (x T).request = Kind.first.request ∨ (x T).request = Kind.after.request
  after : ∀ t, StatefulApp.vld x t = true → T < t → (x t).request = Kind.after.request

namespace Wave

variable {T : Nat} {x : Nat → AppIn} {a : AppParams} {y : Nat → StatefulApp}

/-- A request from cycle `T` on is that of a first or a later packet. -/
theorem later (hw : Wave T x) {t : Nat} (ht : StatefulApp.vld x t = true) (hT : T ≤ t) :
    (x t).request = Kind.first.request ∨ (x t).request = Kind.after.request := by
  rcases Nat.lt_or_eq_of_le hT with hlt | rfl
  · exact .inr (hw.after t ht hlt)
  · exact hw.first

/-- An application that they are not for hands them on, some in the place of the one before. -/
theorem next (hw : Wave T x) (h : StatefulApp.Runs a x y) (hother : a.isFor 3 = false)
    {x' : Nat → AppIn} (hvld : StatefulApp.vld x' = ago 14 (StatefulApp.vld x))
    (hreq : ∀ t, (x' t).request = (y t).out) : Wave (T + 14) x' := by
  have hout : ∀ t, StatefulApp.vld x t = true → ∃ v, StatefulApp.vld x v = true ∧ t ≤ v ∧
      v < t + 12 ∧ (x' (t + 14)).request = (x v).request := by
    intro t ht
    obtain ⟨u, v, -, ⟨hv, htv, hvt, -⟩, hout⟩ := h.out_of_request hw.spaced ht
    have happ : (x v).request.appId = 3 := by
      by_cases hvT : v < T
      · rw [hw.before v hv hvT]
        rfl
      · rcases hw.later hv (by omega) with heq | heq <;> rw [heq] <;> rfl
    rw [happ, hother] at hout
    exact ⟨v, hv, htv, hvt, (hreq _).trans hout⟩
  refine ⟨hvld ▸ hw.spaced.ago 14, by rw [hvld, ago_add, hw.pulse], ?_, ?_, ?_, ?_⟩
  · intro t u ht hu htT htu
    rw [hvld] at ht hu
    obtain ⟨t', rfl, ht'⟩ := ago_iff.mp ht
    obtain ⟨u', rfl, hu'⟩ := ago_iff.mp hu
    have := hw.early t' u' ht' hu' (by omega) (by omega)
    omega
  · intro t ht htT
    rw [hvld] at ht
    obtain ⟨t', rfl, ht'⟩ := ago_iff.mp ht
    obtain ⟨v, hv, htv, hvt, heq⟩ := hout t' ht'
    have hown : v = t' := by
      by_contra hne
      have := hw.early t' v ht' hv (by omega) (by omega)
      omega
    rw [heq, hown]
    exact hw.before t' ht' (by omega)
  · obtain ⟨v, hv, hTv, -, heq⟩ := hout T hw.pulse
    rw [heq]
    exact hw.later hv hTv
  · intro t ht htT
    rw [hvld] at ht
    obtain ⟨t', rfl, ht'⟩ := ago_iff.mp ht
    obtain ⟨v, hv, htv, -, heq⟩ := hout t' ht'
    rw [heq]
    exact hw.after v hv (by omega)

variable {g : AppTags}

/-- The packets before the first one leave the third application in state zero. -/
theorem inState (hw : Wave T x) (hstart : (y 0).store = Kind.third) {t : Nat} (ht : t ≤ T) :
    Kind.InState 0 (StatefulApp.before (StateProcessor.appParams 3 g) x y t) := by
  induction t with
  | zero =>
    show Kind.InState 0 (y 0).store
    rw [hstart]
    exact Kind.inState_third
  | succ t ih =>
    rw [StatefulApp.before, AppStore.served_succ]
    split
    · rename_i hvld
      rw [hw.before t hvld (by omega)]
      exact (ih (by omega)).serve_before
    · exact ih (by omega)

/-- The first result has an action that no later packet gets when they are served in turn. -/
theorem action_ne (hw : Wave T x)
    (h : StatefulApp.Runs (StateProcessor.appParams 3 g) x y)
    (hstart : (y 0).store = Kind.third) :
    (y (T + 14)).out.action ≠ Kind.action (Kind.forwards 20) := by
  obtain ⟨u, v, ⟨hu, hTu, -, -⟩, ⟨hv, hTv, -, -⟩, hout⟩ := h.out_of_request hw.spaced hw.pulse
  have hfor : (StateProcessor.appParams 3 g).isFor (x v).request.appId = true := by
    rcases hw.later hv hTv with heq | heq <;> rw [heq] <;> rfl
  have haction : (x u).request.action = Kind.goToThird := by
    rcases hw.later hu hTu with heq | heq <;> rw [heq] <;> rfl
  rw [if_pos hfor, haction] at hout
  have hstate := hw.inState (g := g) hstart (Nat.le_refl T)
  rcases hw.first with heq | heq
  · rw [heq, hstate.atEntry, Kind.atEntry_first] at hout
    rw [hout]
    exact Kind.action_ne.1
  · rw [heq, hstate.atEntry, Kind.atEntry_early] at hout
    rw [hout]
    exact Kind.action_ne.2

end Wave

namespace Close

variable {q : Nat → Bool} {T : Nat} (h : Close p q T s) (hno : NoOverflow (closeFeed q T) s)

include h hno

/-- A packet taken is asked for as itself or as a later one. -/
theorem request_eq {A F : Nat} (hA : rd s A = true) (hF : IsNth q (count (rd s) A) F) :
    ∃ u, F ≤ u ∧ (in1 (closeFeed q T) s (A + 1)).request = (Kind.of T u).request := by
  obtain ⟨u, hentry, hu⟩ := h.lookups.entry_after hno hA hF
  obtain ⟨v, haction, hv⟩ := h.lookups.action_after hno hA hF
  have hpulse : q v = true := by
    rcases hv with ⟨rfl, -⟩ | ⟨hnth, -⟩
    · exact hF.pulse
    · exact hnth.pulse
  refine ⟨u, ?_, ?_⟩
  · rcases hu with ⟨rfl, -⟩ | ⟨hnth, -⟩
    · exact Nat.le_refl _
    · refine Nat.le_of_lt ((hF.lt_iff u).mp ?_)
      have hbefore : count q u = _ := hnth.before
      omega
  · show requestOf (s (A + 1)).wildcardMatch.stateEntryFifo.dout
      (s (A + 1)).wildcardMatch.actionFifo.dout = _
    rw [hentry, haction, h.wildcardData hpulse]
    rfl

variable (hfirst : ∀ F G, q F = true → q G = true → F < G → F < T → F + 48 ≤ G)

include hfirst

theorem rd_eq_ago {t : Nat} (ht : t ≤ T + 6) : rd s t = ago 6 q t := by
  refine h.lookups.toFed.rd_eq_ago hno (T := T) (fun F G hF hG hlt hGT => ?_) ht
  have := hfirst F G hF hG hlt (by omega)
  omega

theorem count_rd_eq {F : Nat} (hF : F ≤ T) : count (rd s) (F + 6) = count q F := by
  rw [count_congr fun u hu => h.rd_eq_ago hno hfirst (by omega), count_ago, Nat.add_sub_cancel]

variable (hT : q T = true)

include hT

/-- The requests to the first application. -/
theorem wave : Wave (T + 7) (in1 (closeFeed q T) s) := by
  have hvld := h.lookups.vld1
  have hTrd : rd s (T + 6) = true := by
    rw [h.rd_eq_ago hno hfirst (Nat.le_refl _), ago_add, hT]
  have hTnth : IsNth q (count (rd s) (T + 6)) T := ⟨hT, (h.count_rd_eq hno hfirst (Nat.le_refl T)).symm⟩
  refine ⟨hvld ▸ h.lookups.rd_spaced.ago 1, ?_, ?_, ?_, ?_, ?_⟩
  · rw [hvld]
    exact (ago_add 1 (rd s) (T + 6)).trans hTrd
  · intro t u ht hu htT htu
    rw [hvld] at ht hu
    obtain ⟨A, rfl, hA⟩ := ago_iff.mp ht
    obtain ⟨B, rfl, hB⟩ := ago_iff.mp hu
    have hA' := hA
    rw [h.rd_eq_ago hno hfirst (by omega)] at hA'
    obtain ⟨F, rfl, hF⟩ := ago_iff.mp hA'
    -- The packet taken in cycle `B` is a later one.
    obtain ⟨G, hGB, hG⟩ := written_of_read (h.lookups.entryOnDemand hno) hB
    have hcount : count (rd s) (F + 6) = count q F := h.count_rd_eq hno hfirst (by omega)
    have hlt : F < G := by
      have hcountB : count (rd s) (F + 6) < count (rd s) B :=
        Nat.count_strict_mono hA (by omega)
      have hFnth : IsNth q (count q F) F := ⟨hF, rfl⟩
      refine (hFnth.lt_iff G).mp ?_
      have hbefore : count q G = _ := hG.before
      omega
    have := hfirst F G hF hG.pulse hlt (by omega)
    omega
  · intro t ht htT
    rw [hvld] at ht
    obtain ⟨A, rfl, hA⟩ := ago_iff.mp ht
    rw [h.rd_eq_ago hno hfirst (by omega)] at hA
    obtain ⟨F, rfl, hF⟩ := ago_iff.mp hA
    have hFT := hfirst F T hF hT (by omega) (by omega)
    have hown := h.lookups.toFed.request_of_apart hno (T := T) (F := F)
      (fun F G hF hG hlt hGT => by
        have := hfirst F G hF hG hlt (by omega)
        omega) hF (by omega)
    rw [h.packet_eq hF, Kind.of_lt (by omega)] at hown
    exact hown
  · obtain ⟨u, hTu, heq⟩ := h.request_eq hno hTrd hTnth
    rcases Nat.lt_or_eq_of_le hTu with hlt | rfl
    · rw [Kind.of_gt hlt] at heq
      exact .inr heq
    · rw [Kind.of_self] at heq
      exact .inl heq
  · intro t ht htT
    rw [hvld] at ht
    obtain ⟨A, rfl, hA⟩ := ago_iff.mp ht
    obtain ⟨F, -, hF⟩ := written_of_read (h.lookups.entryOnDemand hno) hA
    have hlt : T < F := by
      have hcountA : count (rd s) (T + 6) < count (rd s) A :=
        Nat.count_strict_mono hTrd (by omega)
      refine (hTnth.lt_iff F).mp ?_
      have hbefore : count q F = _ := hF.before
      omega
    obtain ⟨u, hFu, heq⟩ := h.request_eq hno hA hF
    rw [Kind.of_gt (by omega)] at heq
    exact heq

/-- The result of the first packet: an action that no later packet gets. -/
theorem result_action : (s (T + 49)).stateProcessor.statefulApp3.out.action ≠
    Kind.action (Kind.forwards 20) := by
  have hwave := h.wave hno hfirst hT
  have hwave2 : Wave (T + 21) (in2 (closeFeed q T) s) :=
    hwave.next h.lookups.runs1 (by rfl) (by rw [h.lookups.vld2, h.lookups.vld1]; exact
      (funext (ago_ago 14 1 _)).symm) fun _ => rfl
  have hwave3 : Wave (T + 35) (in3 (closeFeed q T) s) :=
    hwave2.next h.lookups.runs2 (by rfl) (by rw [h.lookups.vld3, h.lookups.vld2]; exact
      (funext (ago_ago 14 15 _)).symm) fun _ => rfl
  exact hwave3.action_ne h.lookups.runs3 h.third

/-- If a packet comes too early, the port shown with it is that of a later packet. -/
theorem result_port {U : Nat} (hU : q U = true) (hTU : T < U) (hUT : U < T + 48) :
    (s (T + 49)).wildcardMatch.srcPortFifo.dout = Kind.after.port := by
  have hTrd : rd s (T + 6) = true := by
    rw [h.rd_eq_ago hno hfirst (Nat.le_refl _), ago_add, hT]
  have hTnth : IsNth q (count q T) T := ⟨hT, rfl⟩
  have hcame : count q T + 2 ≤ count q (T + 48) := by
    have hfirst : count q T < count q U := (hTnth.lt_iff U).mpr hTU
    have hsecond : count q U < count q (T + 48) := Nat.count_strict_mono hU hUT
    omega
  have htaken : count q T + 1 ≤ count (rd s) (T + 49) := by
    rw [← h.count_rd_eq hno hfirst (Nat.le_refl T)]
    exact Nat.count_strict_mono hTrd (by omega)
  obtain ⟨k, hk⟩ : ∃ k, min (count q (T + 48)) (count (rd s) (T + 49) + 1) = k + 1 :=
    ⟨min (count q (T + 48)) (count (rd s) (T + 49) + 1) - 1, by omega⟩
  obtain ⟨F, -, hF⟩ := exists_nth (p := q) (k := k) (t := T + 48) (by omega)
  have hlt : T < F := by
    refine (hTnth.lt_iff F).mp ?_
    have hbefore := hF.before
    omega
  rw [h.lookups.toFed.port_eq hno (t := T + 49) hF hk]
  show (Kind.of T F).port = _
  rw [Kind.of_gt hlt]

end Close

/-- For packets in the cycles of `q` that overflow no FIFO: whatever they are and whatever the
tables hold, every result carries the port of its packet, if and only if packets come at least 48
cycles apart. -/
theorem portsOwn_iff_spaced (p : ProcParams) {q : Nat → Bool}
    (hq : ∀ i s, Lookups p i s → vld i = q → NoOverflow i s) :
    (∀ i s, Lookups p i s → vld i = q → PortsOwn p i s) ↔ Spaced 48 q := by
  constructor
  · intro hports T
    induction T using Nat.strong_induction_on with
    | h T ih =>
      intro U hT hU hTU
      by_contra hUT
      have hfirst : ∀ F G, q F = true → q G = true → F < G → F < T → F + 48 ≤ G :=
        fun F G hF hG hFG hFT => ih F hFT G hF hG hFG
      have h := close_start p q T
      generalize run (step p) _ (closeFeed q T) = s at h
      have hno := hq _ s h.lookups rfl
      have hvld : StateLookup.actionVld (s (T + 49)) = true := by
        rw [h.lookups.actionVld, show T + 49 = T + 6 + 43 by omega, ago_add,
          h.rd_eq_ago hno hfirst (Nat.le_refl _), ago_add, hT]
      obtain ⟨F, -, hF, hword⟩ := hports _ s h.lookups rfl (T + 49) hvld
      obtain ⟨hport, haction⟩ := Prod.mk.inj hword
      rw [h.result_port hno hfirst hT hU hTU (by omega)] at hport
      have hlt : T < F := by
        by_contra hle
        have hother : (Kind.of T F).port ≠ Kind.after.port := by
          rcases Nat.lt_or_eq_of_le (Nat.le_of_not_lt hle) with hlt | rfl
          · rw [Kind.of_lt hlt]
            decide
          · rw [Kind.of_self]
            decide
        exact hother hport.symm
      rw [h.computed_after hT hF hlt] at haction
      exact h.result_action hno hfirst hT haction
  · rintro hspaced i s h rfl
    exact h.portsOwn (hq i s h rfl) hspaced

/-! Two packets, nine cycles apart. -/

theorem count_nineApart_le : ∀ t, count StatefulApp.nineApart t ≤ 8 :=
  count_apart_le (d := 9) (by decide)

theorem portsOwn_nineApart :
    ¬ ∀ i s, Lookups StateProcessor.params i s → vld i = StatefulApp.nineApart →
      PortsOwn StateProcessor.params i s := by
  rw [portsOwn_iff_spaced StateProcessor.params fun i s h hvld =>
    h.noOverflow_of_count fun t => hvld ▸ count_nineApart_le t]
  intro hspaced
  have := hspaced 0 9 rfl rfl (by omega)
  omega

/-- The result of the first packet is written with the port of the second, for which another
action is computed. -/
theorem result_with_other_port :
    let i := closeFeed StatefulApp.nineApart 0
    let s := run (step StateProcessor.params)
      (start Kind.flowTable Kind.third Kind.third Kind.third) i
    Lookups StateProcessor.params i s ∧ NoOverflow i s ∧ actionVld (s 49) = true ∧
      (resultWord (s 49)).1 = (i 9).flowEntrySrcPortParsed ∧
      ∀ F, vld i F = true → (i F).flowEntrySrcPortParsed = (resultWord (s 49)).1 →
        computed StateProcessor.params i s F ≠ (resultWord (s 49)).2 := by
  intro i s
  have h : Close StateProcessor.params StatefulApp.nineApart 0 s := close_start _ _ _
  have hno : NoOverflow i s := h.lookups.noOverflow_of_count count_nineApart_le
  clear_value s
  have hfirst : ∀ F G, StatefulApp.nineApart F = true → StatefulApp.nineApart G = true → F < G →
      F < 0 → F + 48 ≤ G := fun F G _ _ _ hF => by omega
  have hport := h.result_port hno hfirst rfl (U := 9) rfl (by omega) (by omega)
  refine ⟨h.lookups, hno, ?_, hport, fun F hF hown haction => ?_⟩
  · rw [h.lookups.actionVld, show (49 : Nat) = 0 + 6 + 43 from rfl, ago_add,
      h.rd_eq_ago hno hfirst (Nat.le_refl _), ago_add]
    rfl
  · have hlt : 0 < F := by
      rcases Nat.eq_zero_or_pos F with rfl | hpos
      · exact absurd (hown.trans hport) (by decide)
      · exact hpos
    rw [h.computed_after rfl hF hlt] at haction
    exact h.result_action hno hfirst rfl haction.symm

end StateLookup

end Sdpa.Hardware
