import Sdpa.Hardware.AppChain
import Sdpa.Hardware.StateUpdates

/-!
# The service chain

What the three applications are for: a packet carries an action and the number of
the application that it is for. That application looks up an entry of its action
table, replaces the fields of the action that the entry names and passes the
packet on to the application named there. A packet that is alone in the processor
goes through the chain in this way.
-/
namespace Sdpa.Hardware

open Lib.Clocked

/-- The action table entry that an application has for a request: it is searched with the next
state, zero without a transition, and the match field. -/
def entryFor (a : AppParams) (m : AppStore) (r : Request) : Option (BitVec 338) :=
  (LookupTable.find a.atParams m.at' (m.nextState a r ++ r.matchField)).map fun n => (m.at' n).data

/-- What application `k` makes of an action and the application that it is for. -/
def hop (k : Nat) (entry : Option (BitVec 338)) (x : BitVec 320 × BitVec 2) :
    BitVec 320 × BitVec 2 :=
  if x.2.toNat = k then
    match entry with
    | some w =>
      (replaced (StatefulApp.actionFlag w) (StatefulApp.actionParam w) x.1,
        StatefulApp.actionNextApp w)
    | none => (x.1, 0)
  else x

/-- The request agrees with the action and application of the chain, and carries the words of
the packet. -/
structure Agrees (x : BitVec 320 × BitVec 2) (r packet : Request) : Prop where
  action : ∀ n, n < 256 → r.action.getLsbD n = x.1.getLsbD n
  appId : r.appId = x.2
  eventParam : r.eventParam = packet.eventParam
  matchField : r.matchField = packet.matchField

theorem Agrees.nextState {x : BitVec 320 × BitVec 2} {r packet : Request} (h : Agrees x r packet)
    (a : AppParams) (m : AppStore) : m.nextState a r = m.nextState a packet := by
  rw [AppStore.nextState, AppStore.nextState, AppStore.sttKey, AppStore.sttKey, AppStore.state,
    AppStore.state, AppParams.eventParamLocal, AppParams.eventParamLocal, h.eventParam, h.matchField]

theorem Agrees.atKey {x : BitVec 320 × BitVec 2} {r packet : Request} (h : Agrees x r packet)
    (a : AppParams) (m : AppStore) :
    m.atKey a r = m.nextState a packet ++ packet.matchField := by
  rw [AppStore.atKey, h.nextState, h.matchField]

theorem Agrees.atEntry {x : BitVec 320 × BitVec 2} {r packet : Request} (h : Agrees x r packet)
    (a : AppParams) (m : AppStore) : m.atEntry a r = (entryFor a m packet).getD 0 := by
  rw [AppStore.atEntry, h.atKey, entryFor, LookupTable.lookup]
  cases LookupTable.find a.atParams m.at' (m.nextState a packet ++ packet.matchField) <;> rfl

/-- An application makes of a request what the chain makes of its action. -/
theorem Agrees.answer {x : BitVec 320 × BitVec 2} {r packet : Request} (h : Agrees x r packet)
    {a : AppParams} {k : Nat} (hk : a.appId = k) (m : AppStore) :
    Agrees (hop k (entryFor a m packet) x) (m.answer a r) packet := by
  subst hk
  by_cases hfor : x.2.toNat = a.appId
  · have hisFor : a.isFor r.appId = true := by
      rw [AppParams.isFor, h.appId]
      exact decide_eq_true hfor
    rw [AppStore.answer, if_pos hisFor, h.atEntry]
    unfold hop
    rw [if_pos hfor]
    cases entryFor a m packet with
    | some w =>
      exact ⟨fun n hn => getLsbD_modifyAction_low 0 h.action hn, rfl, h.eventParam, h.matchField⟩
    | none =>
      have hnext : StatefulApp.actionNextApp 0 = 0 := by decide +kernel
      rw [Option.getD_none, hnext]
      refine ⟨fun n hn => ?_, rfl, h.eventParam, h.matchField⟩
      -- A flag word of zero replaces nothing.
      refine (getLsbD_modifyAction_low 0 h.action hn).trans ?_
      obtain ⟨f, hf, hcov⟩ := ActionField.covers_of_lt hn
      rw [replaced, ActionField.getLsbD_foldl_put (by omega) (by decide) hf hcov]
      simp [StatefulApp.actionFlag]
  · have hother : a.isFor r.appId = false := by
      rw [AppParams.isFor, h.appId]
      exact decide_eq_false hfor
    rw [AppStore.answer, hother]
    unfold hop
    rw [if_neg hfor]
    exact h

/-- An application that no request is for keeps its state table. -/
theorem StatefulApp.Runs.stLut_of_other {a : AppParams} {i : Nat → AppIn} {s : Nat → StatefulApp}
    (h : StatefulApp.Runs a i s) (hvld : Spaced 9 (StatefulApp.vld i))
    (hother : ∀ t, StatefulApp.vld i t = true → a.isFor (i t).request.appId = false) (t : Nat) :
    (s t).stateCamLutSm.lut = (s 0).stateCamLutSm.lut := by
  have hst : ∀ u, (StatefulApp.before a i s u).st = (s 0).store.st := by
    intro u
    induction u with
    | zero => rfl
    | succ u ih =>
      rw [StatefulApp.before, AppStore.served_succ]
      split
      · rename_i hu
        rw [AppStore.serve_st_of_not (by rw [hother u hu, Bool.and_false])]
        exact ih
      · exact ih
  rw [h.stLut_eq_before hvld t, hst]
  rfl

namespace StateLookup

/-! The action of the packet of cycle `F` and the application that it is for, from the wildcard
action on. -/

def hop0 (i : Nat → LookupIn) (s : Nat → StateLookup) (F : Nat) : BitVec 320 × BitVec 2 :=
  ((packet i s F).action, StateProcessor.goToAppId (packet i s F).action)

def hop1 (p : ProcParams) (i : Nat → LookupIn) (s : Nat → StateLookup) (F : Nat) :
    BitVec 320 × BitVec 2 :=
  hop 1 (entryFor (StateProcessor.appParams 1 p.app1) (s 0).stores.app1 (packet i s F)) (hop0 i s F)

def hop2 (p : ProcParams) (i : Nat → LookupIn) (s : Nat → StateLookup) (F : Nat) :
    BitVec 320 × BitVec 2 :=
  hop 2 (entryFor (StateProcessor.appParams 2 p.app2) (s 0).stores.app2 (packet i s F))
    (hop1 p i s F)

def hop3 (p : ProcParams) (i : Nat → LookupIn) (s : Nat → StateLookup) (F : Nat) :
    BitVec 320 × BitVec 2 :=
  hop 3 (entryFor (StateProcessor.appParams 3 p.app3) (s 0).stores.app3 (packet i s F))
    (hop2 p i s F)

/-- An application searches its action table in cycle `t`, with the next state of the packet and
its flow entry. -/
def Searches (a : AppParams) (m : AppStore) (x : AppIn) (y : StatefulApp) (packet : Request) :
    Prop :=
  (StatefulApp.atIn x y).lookupReq = true ∧
    (StatefulApp.atIn x y).lookupCmpData = m.nextState a packet ++ packet.matchField

/-- The packet of cycle `F` goes through the service chain. -/
structure Chained (p : ProcParams) (i : Nat → LookupIn) (s : Nat → StateLookup) (F : Nat) :
    Prop where
  once : ∀ t, actionVld (s t) = true ↔ t = F + 49
  action : ∀ n, n < 256 →
    (resultWord (s (F + 49))).2.getLsbD n = (hop3 p i s F).1.getLsbD n
  other1 : (hop0 i s F).2.toNat ≠ 1 → ∀ t, (s t).stores.app1.st = (s 0).stores.app1.st
  other2 : (hop1 p i s F).2.toNat ≠ 2 → ∀ t, (s t).stores.app2.st = (s 0).stores.app2.st
  other3 : (hop2 p i s F).2.toNat ≠ 3 → ∀ t, (s t).stores.app3.st = (s 0).stores.app3.st
  search1 : Searches (StateProcessor.appParams 1 p.app1) (s 0).stores.app1 (in1 i s (F + 15))
    (s (F + 15)).stateProcessor.statefulApp1 (packet i s F)
  search2 : Searches (StateProcessor.appParams 2 p.app2) (s 0).stores.app2 (in2 i s (F + 29))
    (s (F + 29)).stateProcessor.statefulApp2 (packet i s F)
  search3 : Searches (StateProcessor.appParams 3 p.app3) (s 0).stores.app3 (in3 i s (F + 43))
    (s (F + 43)).stateProcessor.statefulApp3 (packet i s F)

end StateLookup

/-- The action table is searched eight cycles after a request. -/
theorem StatefulApp.Runs.searches {a : AppParams} {i : Nat → AppIn} {s : Nat → StatefulApp}
    (h : StatefulApp.Runs a i s) (hvld : Spaced 9 (StatefulApp.vld i)) {T : Nat}
    (hT : StatefulApp.vld i T = true) {x : BitVec 320 × BitVec 2} {m : AppStore}
    {packet : Request} (hm : StatefulApp.before a i s T = m)
    (hagrees : Agrees x (i T).request packet) :
    StateLookup.Searches a m (i (T + 8)) (s (T + 8)) packet := by
  refine ⟨?_, ?_⟩
  · show (s (T + 8)).sttCamLutSm.pipe.lookupAck = true
    rw [h.served.sttAck, ago_add, hT]
  · show (s (T + 8)).nextState ++ (s (T + 8)).atFifo.dout = _
    rw [(h.stt_answer hvld hT fun u _ => h.stLut_eq_before hvld u).2, h.match_at_at hvld hT, hm,
      hagrees.nextState, hagrees.matchField]

namespace StateLookup

section Lone

variable {p : ProcParams} {i : Nat → LookupIn} {s : Nat → StateLookup} (h : Lookups p i s)
  {F : Nat} (hlone : ∀ t, vld i t = true ↔ t = F)

include hlone

theorem spaced_of_lone (d : Nat) : Spaced d (vld i) := by
  intro t u ht hu htu
  rw [hlone] at ht hu
  omega

theorem low_of_lone {t : Nat} (ht : t ≠ F) : vld i t = false := by
  cases hvld : vld i t
  · rfl
  · exact absurd ((hlone t).mp hvld) ht

include h

theorem noOverflow_of_lone : NoOverflow i s := by
  refine h.noOverflow_of_count fun t => ?_
  have hle := count_le_of_low (n := F + 1) (fun u hu => low_of_lone hlone (t := u) (by omega)) t
  have hzero : count (vld i) F = count (vld i) 0 :=
    count_eq_of_low (Nat.zero_le F) fun u _ hu => low_of_lone hlone (t := u) (by omega)
  rw [count_succ, (hlone F).mpr rfl, hzero, count_zero, if_pos rfl] at hle
  omega

theorem vlds_of_lone : StatefulApp.vld (in1 i s) = ago 7 (vld i) ∧
    StatefulApp.vld (in2 i s) = ago 21 (vld i) ∧ StatefulApp.vld (in3 i s) = ago 35 (vld i) :=
  h.vlds (noOverflow_of_lone h hlone) (spaced_of_lone hlone 12)

/-- The applications have seen nothing before. -/
theorem seen_of_lone :
    StatefulApp.before (StateProcessor.appParams 1 p.app1) (in1 i s)
        (fun t => (s t).stateProcessor.statefulApp1) (F + 7) = (s 0).stores.app1 ∧
      StatefulApp.before (StateProcessor.appParams 2 p.app2) (in2 i s)
        (fun t => (s t).stateProcessor.statefulApp2) (F + 21) = (s 0).stores.app2 ∧
      StatefulApp.before (StateProcessor.appParams 3 p.app3) (in3 i s)
        (fun t => (s t).stateProcessor.statefulApp3) (F + 35) = (s 0).stores.app3 := by
  have hseen := h.seen (noOverflow_of_lone h hlone) (spaced_of_lone hlone 12) F
  have hfirst : inTurn p i s F = (s 0).stores :=
    inTurn_of_low fun u hu => low_of_lone hlone (t := u) (by omega)
  exact ⟨hfirst ▸ hseen.app1, hfirst ▸ hseen.app2, hfirst ▸ hseen.app3⟩

/-- The request at each application agrees with the chain. -/
theorem agrees_of_lone :
    Agrees (hop0 i s F) (in1 i s (F + 7)).request (packet i s F) ∧
      Agrees (hop1 p i s F) (in2 i s (F + 21)).request (packet i s F) ∧
      Agrees (hop2 p i s F) (in3 i s (F + 35)).request (packet i s F) ∧
      Agrees (hop3 p i s F) (s (F + 49)).stateProcessor.statefulApp3.out (packet i s F) := by
  have hno := noOverflow_of_lone h hlone
  have hspaced := spaced_of_lone hlone 12
  have hF : vld i F = true := (hlone F).mpr rfl
  have hfirst : inTurn p i s F = (s 0).stores :=
    inTurn_of_low fun u hu => low_of_lone hlone (t := u) (by omega)
  obtain ⟨hreq2, hreq3, hout⟩ := h.requests_of_seen hno hspaced hF (h.seen hno hspaced F)
  rw [hfirst] at hreq2 hreq3 hout
  rw [h.request_eq hno hspaced hF, hreq2, hreq3, hout]
  have hagrees0 : Agrees (hop0 i s F) (packet i s F) (packet i s F) :=
    ⟨fun _ _ => rfl, rfl, rfl, rfl⟩
  have hagrees1 : Agrees (hop1 p i s F) ((s 0).stores.request2 p (packet i s F)) (packet i s F) :=
    hagrees0.answer (a := StateProcessor.appParams 1 p.app1) rfl (s 0).stores.app1
  have hagrees2 : Agrees (hop2 p i s F) ((s 0).stores.request3 p (packet i s F)) (packet i s F) :=
    hagrees1.answer (a := StateProcessor.appParams 2 p.app2) rfl (s 0).stores.app2
  exact ⟨hagrees0, hagrees1, hagrees2,
    hagrees2.answer (a := StateProcessor.appParams 3 p.app3) rfl (s 0).stores.app3⟩

end Lone

/-- An application that the packet is not for keeps its state table. -/
theorem stLut_of_hop {a : AppParams} {x : Nat → AppIn} {y : Nat → StatefulApp} {q : Nat → Bool}
    (h : StatefulApp.Runs a x y) {F n : Nat} (hlone : ∀ t, q t = true ↔ t = F)
    (hvld : StatefulApp.vld x = ago n q) (hspaced : Spaced 9 q) {z : BitVec 320 × BitVec 2}
    {packet : Request} (hagrees : Agrees z (x (F + n)).request packet)
    (hne : z.2.toNat ≠ a.appId) (t : Nat) :
    (y t).stateCamLutSm.lut = (y 0).stateCamLutSm.lut := by
  refine h.stLut_of_other (hvld ▸ hspaced.ago n) (fun u hu => ?_) t
  rw [hvld] at hu
  obtain ⟨v, rfl, hv⟩ := ago_iff.mp hu
  rw [(hlone v).mp hv, AppParams.isFor, hagrees.appId]
  exact decide_eq_false hne

/-- A packet that is alone goes through the chain, for all tables. -/
theorem chained_of_lone {p : ProcParams} {i : Nat → LookupIn} {s : Nat → StateLookup}
    (h : Lookups p i s) {F : Nat} (hlone : ∀ t, vld i t = true ↔ t = F) : Chained p i s F := by
  have hno := noOverflow_of_lone h hlone
  have hspaced : Spaced 9 (vld i) := spaced_of_lone hlone 9
  have hF : vld i F = true := (hlone F).mpr rfl
  obtain ⟨hv1, hv2, hv3⟩ := vlds_of_lone h hlone
  obtain ⟨hseen1, hseen2, hseen3⟩ := seen_of_lone h hlone
  obtain ⟨hagrees0, hagrees1, hagrees2, hagrees3⟩ := agrees_of_lone h hlone
  refine ⟨fun t => ?_, hagrees3.action, fun hne t => ?_, fun hne t => ?_, fun hne t => ?_, ?_, ?_, ?_⟩
  · rw [h.actionVld t, h.rd_eq_ago hno (spaced_of_lone hlone 12), ago_ago, ago_iff]
    constructor
    · rintro ⟨u, rfl, hu⟩
      rw [(hlone u).mp hu]
    · rintro rfl
      exact ⟨F, rfl, hF⟩
  · exact stLut_of_hop h.runs1 hlone hv1 hspaced hagrees0 hne t
  · exact stLut_of_hop h.runs2 hlone hv2 hspaced hagrees1 hne t
  · exact stLut_of_hop h.runs3 hlone hv3 hspaced hagrees2 hne t
  · exact h.runs1.searches (hv1 ▸ hspaced.ago 7) (by rw [hv1, ago_add, hF]) hseen1 hagrees0
  · exact h.runs2.searches (hv2 ▸ hspaced.ago 21) (by rw [hv2, ago_add, hF]) hseen2 hagrees1
  · exact h.runs3.searches (hv3 ▸ hspaced.ago 35) (by rw [hv3, ago_add, hF]) hseen3 hagrees2

theorem entryFor_allTo (a : AppParams) (entry : BitVec 338) (r : Request) :
    entryFor a (.allTo entry) r = some entry := by
  have hfind := AppStore.find_of_allTo (a := a) (r := r) (m := .allTo entry) rfl rfl
  rw [AppStore.atKey] at hfind
  rw [entryFor, hfind]
  rfl

/-- The first application sets the forward bitmask and names the second, which sets the VLAN and
names none. -/
theorem chained_twoApps :
    let i := feed (fun t => t == 0) twoEntries fun _ => 1
    let s := run (step StateProcessor.params) (start toFirst (.allTo (2#2 ++ 4#320 ++ 1#16))
      (.allTo (0#2 ++ (5#288 ++ 0#32) ++ 4#16)) (.allTo 0)) i
    Chained StateProcessor.params i s 0 ∧ hop0 i s 0 = (goToFirst, 1) ∧
      hop1 StateProcessor.params i s 0 = (1#64 ++ 0x00010004#256, 2) ∧
      hop3 StateProcessor.params i s 0 = (1#64 ++ 0x0000000500010004#256, 0) := by
  intro i s
  have h : Lookups StateProcessor.params i s := lookups_start _ _ _ _ _ _ _ _
  have haction : (packet i s 0).action = goToFirst :=
    h.wildcardData_toFirst (fun _ hreq => by cases hreq) (LookupTable.unwritten_start _) rfl rfl
  have hop0_eq : hop0 i s 0 = (goToFirst, 1) := by
    rw [hop0, haction]
    decide +kernel
  have hop1_eq : hop1 StateProcessor.params i s 0 = (1#64 ++ 0x00010004#256, 2) := by
    rw [hop1, hop0_eq, show (s 0).stores.app1 = .allTo (2#2 ++ 4#320 ++ 1#16) from rfl,
      entryFor_allTo]
    decide +kernel
  refine ⟨chained_of_lone h fun t => beq_iff_eq, hop0_eq, hop1_eq, ?_⟩
  rw [hop3, hop2, hop1_eq, show (s 0).stores.app2 = .allTo (0#2 ++ (5#288 ++ 0#32) ++ 4#16) from rfl,
    show (s 0).stores.app3 = .allTo 0 from rfl, entryFor_allTo, entryFor_allTo]
  decide +kernel

end StateLookup

end Sdpa.Hardware
