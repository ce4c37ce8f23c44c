import Sdpa.Hardware.AppPairing
import Sdpa.Hardware.StateLookup

/-!
# The chain of applications

The three applications of `state_processor` in a row. A request to the first one
becomes a result 42 cycles later. `Stores` is what they compute when packets are
served one at a time: a packet goes through all three before the next one comes.
With packets far enough apart the results are those.
-/
namespace Sdpa.Hardware

open Lib.Clocked Lib.Fallthrough

/-- The tables of the three applications. -/
structure Stores where
  app1 : AppStore
  app2 : AppStore
  app3 : AppStore

/-- A request that names no application is handed on as it is. -/
theorem AppStore.answer_of_zero {m : AppStore} {r : Request} (h : r.appId = 0) {n : Nat}
    (hn : 0 ≠ n) (g : AppTags) : m.answer (StateProcessor.appParams n g) r = r := by
  refine answer_of_other ?_
  rw [AppParams.isFor, h]
  exact decide_eq_false hn

namespace Stores

variable (p : ProcParams) (m : Stores) (r : Request)

/-! The request as it comes to the second and to the third application. -/

def request2 : Request := m.app1.answer (StateProcessor.appParams 1 p.app1) r

def request3 : Request := m.app2.answer (StateProcessor.appParams 2 p.app2) (m.request2 p r)

/-- What comes out of the third. -/
def answer : Request := m.app3.answer (StateProcessor.appParams 3 p.app3) (m.request3 p r)

def serve : Stores where
  app1 := m.app1.serve (StateProcessor.appParams 1 p.app1) r
  app2 := m.app2.serve (StateProcessor.appParams 2 p.app2) (m.request2 p r)
  app3 := m.app3.serve (StateProcessor.appParams 3 p.app3) (m.request3 p r)

/-- A request that names no application behind the first comes out as it is there. -/
theorem answer_of_request2 (h : (m.request2 p r).appId = 0) : m.answer p r = m.request2 p r := by
  have h3 : m.request3 p r = m.request2 p r := AppStore.answer_of_zero h (by decide) _
  rw [answer, h3]
  exact AppStore.answer_of_zero h (by decide) _

/-- A request that names no application comes out as it is. -/
theorem answer_of_direct (h : r.appId = 0) : m.answer p r = r := by
  have h2 : m.request2 p r = r := AppStore.answer_of_zero h (by decide) _
  rw [answer_of_request2 p m r (by rw [h2, h]), h2]

end Stores

namespace StateLookup

/-- The tables as they are at the start. -/
def stores (s : StateLookup) : Stores where
  app1 := s.stateProcessor.statefulApp1.store
  app2 := s.stateProcessor.statefulApp2.store
  app3 := s.stateProcessor.statefulApp3.store

/-- The tables before the packet of cycle `t`, when packets are served one at a time. -/
def inTurn (p : ProcParams) (i : Nat → LookupIn) (s : Nat → StateLookup) : Nat → Stores
  | 0 => (s 0).stores
  | t + 1 => if vld i t then (inTurn p i s t).serve p (packet i s t) else inTurn p i s t

theorem inTurn_of_low {p : ProcParams} {i : Nat → LookupIn} {s : Nat → StateLookup} {t : Nat}
    (h : ∀ u, u < t → vld i u = false) : inTurn p i s t = (s 0).stores := by
  induction t with
  | zero => rfl
  | succ t ih =>
    rw [inTurn, h t (by omega)]
    exact ih fun u hu => h u (by omega)

/-- The action that the three applications compute for the packet of cycle `F`. -/
def computed (p : ProcParams) (i : Nat → LookupIn) (s : Nat → StateLookup) (F : Nat) : BitVec 320 :=
  ((inTurn p i s F).answer p (packet i s F)).action

/-- The word that goes into `result_fifo` when `action_vld` is high. -/
def resultWord (s : StateLookup) : BitVec 8 × BitVec 320 :=
  (s.wildcardMatch.srcPortFifo.dout, s.stateProcessor.statefulApp3.out.action)

def actionVld (s : StateLookup) : Bool := s.stateProcessor.statefulApp3.appDone

/-- Packets come and the tables of the applications are not written by the bus. -/
structure Lookups (p : ProcParams) (i : Nat → LookupIn) (s : Nat → StateLookup) : Prop
    extends Fed p i s where
  procReads : ∀ t, (i t).procRegIn.Reads

theorem lookups_start (p : ProcParams) (lut : Nat → Entry 248 320) (m1 m2 m3 : AppStore)
    (q : Nat → Bool) (e : Nat → StateEntry) (port : Nat → BitVec 8) :
    Lookups p (feed q e port) (run (step p) (start lut m1 m2 m3) (feed q e port)) where
  toFed := fed_start p lut m1 m2 m3 q e port
  procReads _ h := by cases h

/-! The inputs of the applications. -/

def in1 (i : Nat → LookupIn) (s : Nat → StateLookup) (t : Nat) : AppIn := app1In (i t) (s t)

def in2 (i : Nat → LookupIn) (s : Nat → StateLookup) (t : Nat) : AppIn :=
  StateProcessor.nextAppIn (procIn (i t) (s t)) (s t).stateProcessor.statefulApp1

def in3 (i : Nat → LookupIn) (s : Nat → StateLookup) (t : Nat) : AppIn :=
  StateProcessor.nextAppIn (procIn (i t) (s t)) (s t).stateProcessor.statefulApp2

namespace Fed

variable {p : ProcParams} {i : Nat → LookupIn} {s : Nat → StateLookup} (h : Fed p i s)

include h

theorem served1 : StatefulApp.Served (StateProcessor.appParams 1 p.app1) (in1 i s)
    (fun t => (s t).stateProcessor.statefulApp1) where
  follows t := congrArg (·.stateProcessor.statefulApp1) (h.follows t)
  reset := h.reset
  tableFlush := h.tableFlush
  idle := h.procIdle.app1

theorem served2 : StatefulApp.Served (StateProcessor.appParams 2 p.app2) (in2 i s)
    (fun t => (s t).stateProcessor.statefulApp2) where
  follows t := congrArg (·.stateProcessor.statefulApp2) (h.follows t)
  reset := h.reset
  tableFlush := h.tableFlush
  idle := h.procIdle.app2

theorem served3 : StatefulApp.Served (StateProcessor.appParams 3 p.app3) (in3 i s)
    (fun t => (s t).stateProcessor.statefulApp3) where
  follows t := congrArg (·.stateProcessor.statefulApp3) (h.follows t)
  reset := h.reset
  tableFlush := h.tableFlush
  idle := h.procIdle.app3

/-! A packet taken in cycle `A` is with the applications in the cycles `A + 1`, `A + 15` and
`A + 29`, and its result is there in cycle `A + 43`. -/

theorem vld1 : StatefulApp.vld (in1 i s) = ago 1 (rd s) := funext h.stateEntryReq

theorem vld2 : StatefulApp.vld (in2 i s) = ago 15 (rd s) := by
  funext t
  refine (h.served1.appDone t).trans ?_
  rw [h.vld1, ago_ago]

theorem vld3 : StatefulApp.vld (in3 i s) = ago 29 (rd s) := by
  funext t
  refine (h.served2.appDone t).trans ?_
  rw [h.vld2, ago_ago]

theorem actionVld (t : Nat) : actionVld (s t) = ago 43 (rd s) t := by
  refine (h.served3.appDone t).trans ?_
  rw [h.vld3, ago_ago]

end Fed

namespace Lookups

variable {p : ProcParams} {i : Nat → LookupIn} {s : Nat → StateLookup} (h : Lookups p i s)

include h

theorem runs1 : StatefulApp.Runs (StateProcessor.appParams 1 p.app1) (in1 i s)
    (fun t => (s t).stateProcessor.statefulApp1) :=
  h.served1.runs h.procReads

theorem runs2 : StatefulApp.Runs (StateProcessor.appParams 2 p.app2) (in2 i s)
    (fun t => (s t).stateProcessor.statefulApp2) :=
  h.served2.runs fun t => (h.runs1.sttUnwritten t).reads

theorem runs3 : StatefulApp.Runs (StateProcessor.appParams 3 p.app3) (in3 i s)
    (fun t => (s t).stateProcessor.statefulApp3) :=
  h.served3.runs fun t => (h.runs2.sttUnwritten t).reads

end Lookups

/-! Requests that are those of `q`, `n` cycles later. -/

theorem before_of_ago {a : AppParams} {x : Nat → AppIn} {y : Nat → StatefulApp} {q : Nat → Bool}
    {n : Nat} (hvld : StatefulApp.vld x = ago n q) :
    StatefulApp.before a x y n = (y 0).store := by
  refine AppStore.served_eq_of_low (Nat.zero_le n) fun v _ hv => ?_
  show StatefulApp.vld x v = false
  rw [hvld, ago, decide_eq_false (by omega), Bool.false_and]

theorem before_succ_of_ago {a : AppParams} {x : Nat → AppIn} {y : Nat → StatefulApp}
    {q : Nat → Bool} {n : Nat} (hvld : StatefulApp.vld x = ago n q) (t : Nat) :
    StatefulApp.before a x y (t + 1 + n) =
      if q t then (StatefulApp.before a x y (t + n)).serve a (x (t + n)).request
      else StatefulApp.before a x y (t + n) := by
  have hq : (x (t + n)).matchFieldVld = q t := by
    rw [← ago_add n q t, ← hvld]
    rfl
  rw [show t + 1 + n = t + n + 1 by omega, StatefulApp.before, AppStore.served_succ, hq]
  rfl

/-! ## Packets far apart -/

/-- What each application has seen when the packet of cycle `t` comes to it. -/
structure Seen (p : ProcParams) (i : Nat → LookupIn) (s : Nat → StateLookup) (t : Nat) : Prop where
  app1 : StatefulApp.before (StateProcessor.appParams 1 p.app1) (in1 i s)
    (fun t => (s t).stateProcessor.statefulApp1) (t + 7) = (inTurn p i s t).app1
  app2 : StatefulApp.before (StateProcessor.appParams 2 p.app2) (in2 i s)
    (fun t => (s t).stateProcessor.statefulApp2) (t + 21) = (inTurn p i s t).app2
  app3 : StatefulApp.before (StateProcessor.appParams 3 p.app3) (in3 i s)
    (fun t => (s t).stateProcessor.statefulApp3) (t + 35) = (inTurn p i s t).app3


section Apart

variable {p : ProcParams} {i : Nat → LookupIn} {s : Nat → StateLookup}

/-- Packets that come at least nine cycles apart up to cycle `T` are taken six cycles after they
came. -/
theorem Fed.rd_eq_ago (h : Fed p i s) (hno : NoOverflow i s) {T : Nat}
    (hspaced : ∀ F G, vld i F = true → vld i G = true → F < G → G ≤ T → F + 9 ≤ G) {t : Nat}
    (ht : t ≤ T + 6) : rd s t = ago 6 (vld i) t := by
  induction t using Nat.strong_induction_on with
  | h t ih =>
    have hcount : count (rd s) t = count (vld i) (t - 6) := by
      rw [← count_ago]
      exact count_congr fun u hu => ih u hu (by omega)
    rw [Bool.eq_iff_iff, h.rd_iff hno t, hcount]
    constructor
    · intro htaken
      have hlt := htaken.2
      have hsix : 6 ≤ t := by
        by_contra hsix
        rw [show t - 5 = 0 by omega, count_zero] at hlt
        omega
      rw [show t - 5 = t - 6 + 1 by omega] at hlt
      rw [ago, decide_eq_true hsix, Bool.true_and]
      exact Nat.count_lt_count_succ_iff.mp hlt
    · intro hago
      obtain ⟨F, rfl, hF⟩ := ago_iff.mp hago
      refine ⟨fun u hu hut => ?_, ?_⟩
      · rw [ih u hu (by omega), Bool.eq_false_iff]
        intro hbefore
        obtain ⟨G, rfl, hG⟩ := ago_iff.mp hbefore
        have := hspaced G F hG hF (by omega) (by omega)
        omega
      · rw [Nat.add_sub_cancel, show F + 6 - 5 = F + 1 by omega]
        exact Nat.count_lt_count_succ_iff.mpr hF

/-- Then a packet is asked for with its own words, seven cycles after it came. -/
theorem Fed.request_of_apart (h : Fed p i s) (hno : NoOverflow i s) {T : Nat}
    (hspaced : ∀ F G, vld i F = true → vld i G = true → F < G → G ≤ T → F + 9 ≤ G) {F : Nat}
    (hF : vld i F = true) (hFT : F + 6 ≤ T) :
    (app1In (i (F + 7)) (s (F + 7))).request = packet i s F := by
  have hrd : rd s (F + 6) = true := by
    rw [h.rd_eq_ago hno hspaced (by omega), ago_add, hF]
  have hcount : count (rd s) (F + 6) = count (vld i) F := by
    rw [count_congr fun u hu => h.rd_eq_ago hno hspaced (by omega), count_ago, Nat.add_sub_cancel]
  have hnth : IsNth (vld i) (count (rd s) (F + 6)) F := ⟨hF, hcount.symm⟩
  -- The next packet is not there yet.
  have hlate : ∀ G, IsNth (vld i) (count (rd s) (F + 6) + 1) G → F + 6 ≤ G := by
    intro G hG
    have hlt : F < G := by
      refine (hnth.lt_iff G).mp ?_
      rw [hG.before]
      omega
    by_contra hearly
    have := hspaced F G hF hG.pulse hlt (by omega)
    omega
  obtain ⟨u, hentry, hu⟩ := h.entry_after hno hrd hnth
  obtain ⟨v, haction, hv⟩ := h.action_after hno hrd hnth
  have hown : u = F := by
    rcases hu with ⟨rfl, -⟩ | ⟨hG, hlt⟩
    · rfl
    · have := hlate u hG
      omega
  have hown' : v = F := by
    rcases hv with ⟨rfl, -⟩ | ⟨hG, hlt⟩
    · rfl
    · have := hlate v hG
      omega
  show requestOf (s (F + 6 + 1)).wildcardMatch.stateEntryFifo.dout
    (s (F + 6 + 1)).wildcardMatch.actionFifo.dout = _
  rw [hentry, haction, hown, hown']
  rfl

variable (h : Lookups p i s) (hno : NoOverflow i s) (hspaced : Spaced 12 (vld i))

include h hno hspaced

theorem Lookups.rd_eq_ago : rd s = ago 6 (vld i) :=
  funext fun t => h.toFed.rd_eq_ago hno (T := t)
    (fun F G hF hG hlt _ => (hspaced.mono (by omega)) F G hF hG hlt) (by omega)

theorem Lookups.request_eq {F : Nat} (hF : vld i F = true) :
    (in1 i s (F + 7)).request = packet i s F :=
  h.toFed.request_of_apart hno (T := F + 6)
    (fun F G hF hG hlt _ => (hspaced.mono (by omega)) F G hF hG hlt) hF (by omega)

theorem Lookups.vlds : StatefulApp.vld (in1 i s) = ago 7 (vld i) ∧
    StatefulApp.vld (in2 i s) = ago 21 (vld i) ∧ StatefulApp.vld (in3 i s) = ago 35 (vld i) := by
  have hrd := h.rd_eq_ago hno hspaced
  rw [h.vld1, h.vld2, h.vld3, hrd]
  exact ⟨funext (ago_ago 1 6 _), funext (ago_ago 15 6 _), funext (ago_ago 29 6 _)⟩

/-- The packet goes from one application to the next. -/
theorem Lookups.requests_of_seen {t : Nat} (ht : vld i t = true) (hseen : Seen p i s t) :
    (in2 i s (t + 21)).request = (inTurn p i s t).request2 p (packet i s t) ∧
      (in3 i s (t + 35)).request = (inTurn p i s t).request3 p (packet i s t) ∧
      (s (t + 49)).stateProcessor.statefulApp3.out =
        (inTurn p i s t).answer p (packet i s t) := by
  obtain ⟨hv1, hv2, hv3⟩ := h.vlds hno hspaced
  have hspaced1 : Spaced 12 (StatefulApp.vld (in1 i s)) := hv1 ▸ hspaced.ago 7
  have hspaced2 : Spaced 12 (StatefulApp.vld (in2 i s)) := hv2 ▸ hspaced.ago 21
  have hspaced3 : Spaced 12 (StatefulApp.vld (in3 i s)) := hv3 ▸ hspaced.ago 35
  have h2 : (in2 i s (t + 21)).request = (inTurn p i s t).request2 p (packet i s t) := by
    have hout := h.runs1.out_eq_answer hspaced1 (t := t + 7) (by rw [hv1, ago_add, ht])
    rw [h.request_eq hno hspaced ht, hseen.app1] at hout
    exact hout
  have h3 : (in3 i s (t + 35)).request = (inTurn p i s t).request3 p (packet i s t) := by
    have hout := h.runs2.out_eq_answer hspaced2 (t := t + 21) (by rw [hv2, ago_add, ht])
    rw [h2, hseen.app2] at hout
    exact hout
  refine ⟨h2, h3, ?_⟩
  have hout := h.runs3.out_eq_answer hspaced3 (t := t + 35) (by rw [hv3, ago_add, ht])
  rw [h3, hseen.app3] at hout
  exact hout

/-- Packets at least twelve cycles apart are served one at a time. -/
theorem Lookups.seen (t : Nat) : Seen p i s t := by
  obtain ⟨hv1, hv2, hv3⟩ := h.vlds hno hspaced
  induction t with
  | zero =>
    rw [← Nat.zero_add 7] at hv1
    exact ⟨before_of_ago hv1, before_of_ago hv2, before_of_ago hv3⟩
  | succ t ih =>
    have hturn : inTurn p i s (t + 1) =
        if vld i t then (inTurn p i s t).serve p (packet i s t) else inTurn p i s t := rfl
    cases ht : vld i t with
    | false =>
      rw [ht] at hturn
      refine ⟨?_, ?_, ?_⟩
      · rw [before_succ_of_ago hv1, ht, hturn]
        exact ih.app1
      · rw [before_succ_of_ago hv2, ht, hturn]
        exact ih.app2
      · rw [before_succ_of_ago hv3, ht, hturn]
        exact ih.app3
    | true =>
      rw [ht, if_pos rfl] at hturn
      obtain ⟨h2, h3, -⟩ := h.requests_of_seen hno hspaced ht ih
      refine ⟨?_, ?_, ?_⟩
      · rw [before_succ_of_ago hv1, ht, if_pos rfl, hturn, ih.app1, h.request_eq hno hspaced ht]
        rfl
      · rw [before_succ_of_ago hv2, ht, if_pos rfl, hturn, ih.app2, h2]
        rfl
      · rw [before_succ_of_ago hv3, ht, if_pos rfl, hturn, ih.app3, h3]
        rfl

/-- The result of a packet is there 49 cycles after it came. -/
theorem Lookups.out_eq_computed {F : Nat} (hF : vld i F = true) :
    (s (F + 49)).stateProcessor.statefulApp3.out.action = computed p i s F := by
  rw [(h.requests_of_seen hno hspaced hF (h.seen hno hspaced F)).2.2]
  rfl

/-- That of a packet whose action names no application is the action itself. -/
theorem Lookups.out_of_direct {F : Nat} (hF : vld i F = true)
    (hdirect : StateProcessor.goToAppId (s (F + 4)).wildcardMatch.wildcardData = 0) :
    (s (F + 49)).stateProcessor.statefulApp3.out.action =
      (s (F + 4)).wildcardMatch.wildcardData := by
  rw [h.out_eq_computed hno hspaced hF, computed, Stores.answer_of_direct p _ _ hdirect]
  rfl

end Apart

/-! ## Tables that send every packet to the first application -/

def goToFirst : BitVec 320 := 1#64 ++ 0x00010000#256

def toFirst (_ : Nat) : Entry 248 320 := ⟨BitVec.allOnes 248, 0, goToFirst⟩

theorem Fed.wildcardData_toFirst (h : Fed p i s) (hreads : ∀ t, (i t).matchRegIn.Reads)
    (hstart : LookupTable.Unwritten (s 0).wildcardMatch.wildcardCamLutSm)
    (hlut : (s 0).wildcardMatch.wildcardCamLutSm.lut = toFirst) {F : Nat} (hF : vld i F = true) :
    (s (F + 4)).wildcardMatch.wildcardData = goToFirst := by
  have hfind : LookupTable.find WildcardMatch.tableParams toFirst (i F).flowEntry = some 0 :=
    LookupTable.find_of_dmask (Nat.succ_pos 31) rfl _
  rw [h.wildcardData_eq hreads hstart hF, hlut, LookupTable.lookup_of_find hfind]
  rfl

/-- The transition and the action table stay as they are. -/
theorem inTurn_app1 (p : ProcParams) (i : Nat → LookupIn) (s : Nat → StateLookup) (t : Nat) :
    (inTurn p i s t).app1.stt = (s 0).stores.app1.stt ∧
      (inTurn p i s t).app1.at' = (s 0).stores.app1.at' := by
  induction t with
  | zero => exact ⟨rfl, rfl⟩
  | succ t ih =>
    rw [inTurn]
    split
    · exact ih
    · exact ih

/-- A packet that only the first application is for gets the action of that one's entry. -/
theorem computed_toFirst (entry : BitVec 338) (happ : (s 0).stores.app1 = .allTo entry)
    (hnext : StatefulApp.actionNextApp entry = 0) {F : Nat}
    (haction : (s (F + 4)).wildcardMatch.wildcardData = goToFirst) :
    computed p i s F = modifyAction (StatefulApp.actionFlag entry) goToFirst
      (StatefulApp.actionParam entry) 0 := by
  obtain ⟨hstt, hat⟩ := inTurn_app1 p i s F
  rw [happ] at hstt hat
  have hfor : (StateProcessor.appParams 1 p.app1).isFor (packet i s F).appId = true := by
    rw [packet, haction]
    exact decide_eq_true (by decide +kernel : (StateProcessor.goToAppId goToFirst).toNat = 1)
  have hanswer : (inTurn p i s F).request2 p (packet i s F) =
      { packet i s F with
        action := modifyAction (StatefulApp.actionFlag entry) goToFirst
          (StatefulApp.actionParam entry) 0
        appId := 0 } := by
    rw [Stores.request2, AppStore.answer, if_pos hfor, AppStore.atEntry_of_allTo hstt hat, hnext,
      show (packet i s F).action = goToFirst from haction]
  rw [computed, Stores.answer_of_request2 _ _ _ (by rw [hanswer]), hanswer]

end StateLookup

end Sdpa.Hardware
