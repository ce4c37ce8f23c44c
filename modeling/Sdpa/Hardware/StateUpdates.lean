import Sdpa.Hardware.Initialisation

/-!
# Updates of the state table

A request moves the pair of entries it finds, eight cycles after it was made and
before the next one is looked up. Requests for this application that find an
entry therefore act one at a time. A request that finds none still has its event
looked up, with state zero; if the transition table has an entry for it, the
pair of the last request that found one is written.
-/
namespace Sdpa.Hardware

open Lib.Clocked

/-! ## Keys -/

theorem setPair_keys {c d : Nat} (lut : Nat → Entry c d) (addr : Nat) (state : BitVec d) (n : Nat) :
    (setPair lut addr state n).cmp = (lut n).cmp ∧
      (setPair lut addr state n).dmask = (lut n).dmask := by
  rw [setPair]
  split <;> exact ⟨rfl, rfl⟩

theorem find_setPair {c d : Nat} (p : TableParams c d) (lut : Nat → Entry c d) (addr : Nat)
    (state : BitVec d) (key : BitVec c) :
    LookupTable.find p (setPair lut addr state) key = LookupTable.find p lut key :=
  LookupTable.find_congr fun n _ => setPair_keys lut addr state n

/-- A request does not touch keys and masks. -/
theorem AppStore.serve_keys (a : AppParams) (m : AppStore) (r : Request) (n : Nat) :
    ((m.serve a r).st n).cmp = (m.st n).cmp ∧ ((m.serve a r).st n).dmask = (m.st n).dmask := by
  rw [AppStore.serve]
  split
  · exact setPair_keys _ _ _ n
  · exact ⟨rfl, rfl⟩

/-- Nothing moves without an entry of the transition table, or for another application. -/
theorem AppStore.serve_st_of_not {a : AppParams} {m : AppStore} {r : Request}
    (h : (m.moves a r && a.isFor r.appId) = false) : (m.serve a r).st = m.st := by
  rw [AppStore.serve, h]
  rfl

theorem AppStore.serve_st_of_moves {a : AppParams} {m : AppStore} {r : Request}
    (hfor : a.isFor r.appId = true) (hmoves : m.moves a r = true) :
    (m.serve a r).st = setPair m.st (m.addr a r) (m.nextState a r) := by
  rw [AppStore.serve, hmoves, hfor]
  rfl

/-- A request that finds no entry is looked up with state zero. -/
theorem AppStore.sttKey_of_miss {a : AppParams} {m : AppStore} {r : Request}
    (hmiss : LookupTable.find a.stParams m.st r.matchField = none) :
    m.sttKey a r = a.eventParamLocal r ++ 0#8 := by
  rw [AppStore.sttKey, AppStore.state, LookupTable.lookup, hmiss]
  rfl

theorem AppStore.serve_st_of_miss {a : AppParams} {m : AppStore} {r : Request} {k : Nat}
    (hmiss : LookupTable.find a.stParams m.st r.matchField = none)
    (hfor : a.isFor r.appId = true)
    (hk : LookupTable.find a.sttParams m.stt (a.eventParamLocal r ++ 0#8) = some k) :
    (m.serve a r).st = setPair m.st m.updateAddr (m.stt k).data := by
  have hkey := AppStore.sttKey_of_miss hmiss
  have hmoves : m.moves a r = true := by rw [AppStore.moves, hkey, hk]; rfl
  rw [AppStore.serve_st_of_moves hfor hmoves, AppStore.addr, AppStore.line, hmiss,
    AppStore.nextState, LookupTable.lookup, hkey, hk]
  rfl

/-! ## One transition after the other -/

/-- The state table after a request that is for this application: the pair of the entry found
moves to the next state, if the transition table has one for the event. -/
def transit (a : AppParams) (stt : Nat → Entry 40 8) (st : Nat → Entry 248 8) (r : Request) :
    Nat → Entry 248 8 :=
  match LookupTable.find a.stParams st r.matchField with
  | none => st
  | some n =>
    match LookupTable.find a.sttParams stt (a.eventParamLocal r ++ (st n).data) with
    | none => st
    | some k => setPair st n (stt k).data

/-- The state table before cycle `t`, if the requests since the start are applied one at a
time. -/
def transited (a : AppParams) (stt : Nat → Entry 40 8) (st : Nat → Entry 248 8)
    (i : Nat → AppIn) : Nat → Nat → Entry 248 8 :=
  run (fun x st => if x.matchFieldVld then transit a stt st x.request else st) st i

theorem transit_cases (a : AppParams) (stt : Nat → Entry 40 8) (st : Nat → Entry 248 8)
    (r : Request) :
    transit a stt st r = st ∨ ∃ n state, transit a stt st r = setPair st n state := by
  rw [transit]
  split
  · exact .inl rfl
  · split
    · exact .inl rfl
    · exact .inr ⟨_, _, rfl⟩

namespace StatefulApp

variable {a : AppParams} {i : Nat → AppIn} {s : Nat → StatefulApp}

theorem find_transited (a : AppParams) (stt : Nat → Entry 40 8) (st : Nat → Entry 248 8)
    (i : Nat → AppIn) (t : Nat) (key : BitVec 248) :
    LookupTable.find a.stParams (transited a stt st i t) key =
      LookupTable.find a.stParams st key := by
  induction t with
  | zero => rfl
  | succ t ih =>
    rw [← ih, transited, run]
    split
    · rcases transit_cases a stt (transited a stt st i t) (i t).request with heq | ⟨n, state, heq⟩
      · exact congrArg (LookupTable.find a.stParams · key) heq
      · exact (congrArg (LookupTable.find a.stParams · key) heq).trans (find_setPair _ _ _ _ _)
    · rfl

theorem serve_eq_transit {m : AppStore} {r : Request} {n : Nat}
    (hfor : a.isFor r.appId = true)
    (hline : LookupTable.find a.stParams m.st r.matchField = some n) :
    (m.serve a r).st = transit a m.stt m.st r := by
  have hstate : m.state a r = (m.st n).data := by rw [AppStore.state, LookupTable.lookup, hline]
  have haddr : m.addr a r = n := by rw [AppStore.addr, AppStore.line, hline]; rfl
  have hkey : m.sttKey a r = a.eventParamLocal r ++ (m.st n).data := by
    rw [AppStore.sttKey, hstate]
  rw [AppStore.serve, transit, hline]
  simp only [AppStore.moves, AppStore.nextState, LookupTable.lookup, hkey, haddr, hfor]
  cases LookupTable.find a.sttParams m.stt (a.eventParamLocal r ++ (m.st n).data) <;> rfl

/-- Every request is for this application and finds an entry. -/
def AllHit (a : AppParams) (i : Nat → AppIn) (st : Nat → Entry 248 8) : Prop :=
  ∀ t, vld i t = true → a.isFor (i t).request.appId = true ∧
    (LookupTable.find a.stParams st (i t).request.matchField).isSome = true

theorem before_eq_transited (hhit : AllHit a i (s 0).store.st) (t : Nat) :
    (before a i s t).st = transited a (s 0).store.stt (s 0).store.st i t := by
  induction t with
  | zero => rfl
  | succ t ih =>
    rw [before, AppStore.served_succ, transited, run]
    cases hv : (i t).matchFieldVld with
    | false => exact ih
    | true =>
      obtain ⟨hfor, hsome⟩ := hhit t hv
      obtain ⟨n, hn⟩ := Option.isSome_iff_exists.mp hsome
      rw [← find_transited a (s 0).store.stt _ i t, ← ih] at hn
      rw [if_pos rfl, if_pos rfl]
      refine (serve_eq_transit hfor hn).trans ?_
      rw [ih, before, AppStore.served_stt]
      rfl

/-- The state table before cycle `t` when the requests since the start act one at a time. -/
def stInTurn (a : AppParams) (i : Nat → AppIn) (s : Nat → StatefulApp) (t : Nat) :
    Nat → Entry 248 8 :=
  transited a (s 0).sttCamLutSm.lut (s 0).stateCamLutSm.lut i t

/-- The request of cycle `t`, which finds line `n`, acts after those before it and before those
after it. -/
structure InTurn (a : AppParams) (i : Nat → AppIn) (s : Nat → StatefulApp) (t n : Nat) : Prop where
  line : LookupTable.find a.stParams (stInTurn a i s t) (i t).request.matchField = some n
  /-- It reads the state that its entry has after the requests before it. -/
  read : (s (t + 4)).stateCamLutSm.pipe.lookupAck = true ∧
    (s (t + 4)).stateCamLutSm.pipe.lookupHit = true ∧
    (s (t + 4)).stateCamLutSm.pipe.lookupAddress = n ∧
    (s (t + 4)).state = (stInTurn a i s t n).data
  /-- The transition table is searched with its event and that state. -/
  search : (sttIn (i (t + 4)) (s (t + 4))).lookupReq = true ∧
    (sttIn (i (t + 4)) (s (t + 4))).lookupCmpData =
      a.eventParamLocal (i t).request ++ (stInTurn a i s t n).data
  /-- Both entries of the pair then move, or the table stays as it is. -/
  moved : (s (t + 9)).stateCamLutSm.lut =
    match LookupTable.find a.sttParams (s 0).sttCamLutSm.lut
      (a.eventParamLocal (i t).request ++ (stInTurn a i s t n).data) with
    | some k => setPair (stInTurn a i s t) n ((s 0).sttCamLutSm.lut k).data
    | none => stInTurn a i s t
  /-- The next request comes after that and reads the table so. -/
  next : ∀ u, vld i u = true → t < u → t + 9 ≤ u ∧ (s u).stateCamLutSm.lut = stInTurn a i s u

/-- A request reads the table that those before it leave. -/
theorem Runs.stLut_eq_stInTurn (h : Runs a i s) (hvld : Spaced 9 (vld i))
    (hhit : AllHit a i (s 0).stateCamLutSm.lut) {t : Nat} (ht : vld i t = true) :
    (s t).stateCamLutSm.lut = stInTurn a i s t := by
  rw [h.stLut_eq_before hvld t, Runs.before_sub hvld ht (by omega)]
  exact before_eq_transited hhit t

theorem Runs.inTurn (h : Runs a i s) (hvld : Spaced 9 (vld i))
    (hhit : AllHit a i (s 0).stateCamLutSm.lut) {t : Nat} (ht : vld i t = true) :
    ∃ n, InTurn a i s t n := by
  have hstore : (before a i s t).st = stInTurn a i s t := before_eq_transited hhit t
  obtain ⟨hfor, hsome⟩ := hhit t ht
  obtain ⟨n, hn⟩ := Option.isSome_iff_exists.mp hsome
  have hline : LookupTable.find a.stParams (stInTurn a i s t) (i t).request.matchField = some n :=
    (find_transited a _ _ i t _).trans hn
  obtain ⟨hlook, hstate, haddr⟩ := h.st_answer hvld ht fun u _ => h.stLut_eq_before hvld u
  have hread : (s (t + 4)).state = (stInTurn a i s t n).data := by
    rw [hstate, AppStore.state, LookupTable.lookup, hstore, hline]
  have hack : (s (t + 4)).stateCamLutSm.pipe.lookupAck = true := by rw [h.served.stAck, ago_add, ht]
  have hfind : (before a i s t).line a (i t).request = some n := by
    rw [AppStore.line, hstore, hline]
  refine ⟨n, hline, ⟨hack, ?_, haddr n hfind, hread⟩, ⟨hack, ?_⟩, ?_, fun u hu htu => ?_⟩
  · rw [hlook, hfind]
    rfl
  · show (s (t + 4)).sttFifo.dout ++ (s (t + 4)).state = _
    rw [h.event_at_stt hvld ht, hread]
  · rw [h.stLut_eq_before hvld (t + 9), show t + 9 - 8 = t + 1 by omega,
      Runs.before_add hvld ht (by omega) (by omega), serve_eq_transit hfor (hstore ▸ hline), transit,
      hstore, hline, before, AppStore.served_stt]
    simp only [store]
    split <;> rename_i hk <;> simp only [hk]
  · exact ⟨hvld t u ht hu htu, h.stLut_eq_stInTurn hvld hhit hu⟩

/-- A request moves both entries of a pair to one state or none of them. -/
theorem transit_pair (a : AppParams) (stt : Nat → Entry 40 8) {st : Nat → Entry 248 8}
    (r : Request) {n : Nat} (h : (st (2 * n)).data = (st (2 * n + 1)).data) :
    (transit a stt st r (2 * n)).data = (transit a stt st r (2 * n + 1)).data := by
  rcases transit_cases a stt st r with heq | ⟨j, state, heq⟩
  · rw [heq, h]
  · have hdiv : (2 * n + 1) / 2 = 2 * n / 2 := by omega
    rw [heq, setPair, setPair, hdiv]
    split
    · rfl
    · exact h

theorem transited_pair (a : AppParams) (stt : Nat → Entry 40 8) {st : Nat → Entry 248 8}
    (i : Nat → AppIn) {n : Nat} (h : (st (2 * n)).data = (st (2 * n + 1)).data) (t : Nat) :
    (transited a stt st i t (2 * n)).data = (transited a stt st i t (2 * n + 1)).data := by
  induction t with
  | zero => exact h
  | succ t ih =>
    rw [transited, run]
    split
    · exact transit_pair a stt _ ih
    · exact ih

/-- Requests that are for this application and find an entry, at least nine cycles apart, act one
after the other; so the two entries of a pair that start in one state are in one state always. -/
theorem transitions_in_turn (h : Runs a i s) (hvld : Spaced 9 (vld i))
    (hhit : AllHit a i (s 0).stateCamLutSm.lut) :
    (∀ t, vld i t = true → ∃ n, InTurn a i s t n) ∧
      ((∀ n, n < 4 → ((s 0).stateCamLutSm.lut (2 * n)).data =
          ((s 0).stateCamLutSm.lut (2 * n + 1)).data) →
        ∀ t n, n < 4 → ((s t).stateCamLutSm.lut (2 * n)).data =
          ((s t).stateCamLutSm.lut (2 * n + 1)).data) := by
  refine ⟨fun t ht => h.inTurn hvld hhit ht, fun hpairs t n hn => ?_⟩
  rw [h.stLut_eq_before hvld t, before_eq_transited hhit]
  exact transited_pair a _ i (hpairs n hn) _

/-- The packet of the test bench, which finds the second line. -/
def samePacket (_ : Nat) : Request := ⟨2, flowEntry, 1, testbenchAction⟩

theorem find_flowEntry :
    (LookupTable.find testbenchApp.stParams testbenchApp.stParams.resetEntry flowEntry).isSome =
      true := by decide

theorem transitions_of_testbench :
    let s := run (step testbenchApp) (start (.afterReset testbenchApp)) (asks nineApart samePacket)
    ∃ n, InTurn testbenchApp (asks nineApart samePacket) s 9 n := by
  intro s
  have h := runs_start testbenchApp (.afterReset testbenchApp) nineApart samePacket
  have hhit : AllHit testbenchApp (asks nineApart samePacket) testbenchApp.stParams.resetEntry :=
    fun t _ => ⟨rfl, find_flowEntry⟩
  exact (transitions_in_turn h spaced_nineApart hhit).1 9 rfl

/-! ## What a request leaves alone -/

/-- The request of cycle `t` changes no entry if it finds none or is for another application, only
the pair of the entry found otherwise, and never a key or a mask. -/
structure FrameKept (a : AppParams) (i : Nat → AppIn) (s : Nat → StatefulApp) (t : Nat) : Prop where
  miss : LookupTable.find a.stParams (s t).stateCamLutSm.lut (i t).request.matchField = none ∨
      a.isFor (i t).request.appId = false →
    ∀ n, n < 8 → (s (t + 9)).stateCamLutSm.lut n = (s t).stateCamLutSm.lut n
  hit : ∀ j, LookupTable.find a.stParams (s t).stateCamLutSm.lut (i t).request.matchField = some j →
    ∀ n, n < 8 → n / 2 ≠ j / 2 → (s (t + 9)).stateCamLutSm.lut n = (s t).stateCamLutSm.lut n
  keys : ∀ n, n < 8 →
    ((s (t + 9)).stateCamLutSm.lut n).cmp = ((s t).stateCamLutSm.lut n).cmp ∧
      ((s (t + 9)).stateCamLutSm.lut n).dmask = ((s t).stateCamLutSm.lut n).dmask

/-- The request of cycle `t` is for this application and finds no entry; the transition table
moves its event from state zero, and an entry of the pair that the address register still points
to is in another state than the next one. -/
def StrayWrite (a : AppParams) (i : Nat → AppIn) (s : Nat → StatefulApp) (t : Nat) : Prop :=
  a.isFor (i t).request.appId = true ∧
    LookupTable.find a.stParams (s t).stateCamLutSm.lut (i t).request.matchField = none ∧
    ∃ k, LookupTable.find a.sttParams (s t).sttCamLutSm.lut
        (a.eventParamLocal (i t).request ++ 0#8) = some k ∧
      ∃ n, n < 8 ∧ n / 2 = (s t).updateAddr / 2 ∧
        ((s t).stateCamLutSm.lut n).data ≠ ((s t).sttCamLutSm.lut k).data

/-- Requests at least nine cycles apart leave alone what they should, except for the stray
writes. -/
theorem frameKept_iff (h : Runs a i s) (hvld : Spaced 9 (vld i)) {t : Nat} (ht : vld i t = true) :
    FrameKept a i s t ↔ ¬ StrayWrite a i s t := by
  have hnow : (s t).stateCamLutSm.lut = (before a i s t).st := by
    rw [h.stLut_eq_before hvld t, Runs.before_sub hvld ht (by omega)]
  have hthen : (s (t + 9)).stateCamLutSm.lut = ((before a i s t).serve a (i t).request).st := by
    rw [h.stLut_eq_before hvld (t + 9), show t + 9 - 8 = t + 1 by omega,
      Runs.before_add hvld ht (by omega) (by omega)]
  have haddr : (s t).updateAddr = (before a i s t).updateAddr := by
    rw [(h.st_eq_before hvld t).2, Runs.before_sub hvld ht (by omega)]
  have hstt : (s t).sttCamLutSm.lut = (before a i s t).stt := by
    rw [h.sttLut t, before, AppStore.served_stt]
  generalize before a i s t = m at hnow hthen haddr hstt
  generalize hr : (i t).request = r at hthen
  constructor
  · intro hkept hstray
    obtain ⟨hfor, hmiss, k, hk, n, hn, hpair, hne⟩ := hstray
    have hsame := hkept.miss (.inl hmiss) n hn
    rw [hthen, hnow] at hsame
    rw [hr] at hfor hmiss hk
    rw [hnow] at hmiss hne
    rw [hstt] at hk hne
    rw [haddr] at hpair
    refine hne ?_
    rw [← hsame, AppStore.serve_st_of_miss hmiss hfor hk, setPair, if_pos hpair]
  · intro hstray
    refine ⟨fun hcase n hn => ?_, fun j hj n hn hpair => ?_, fun n _ => ?_⟩
    · rw [hthen, hnow]
      cases hfor : a.isFor r.appId with
      | false => rw [AppStore.serve_st_of_not (by rw [hfor, Bool.and_false])]
      | true =>
        have hmiss : LookupTable.find a.stParams m.st r.matchField = none := by
          rcases hcase with hmiss | hother
          · rwa [hnow, hr] at hmiss
          · rw [hr, hfor] at hother
            cases hother
        cases hk : LookupTable.find a.sttParams m.stt (a.eventParamLocal r ++ 0#8) with
        | none =>
          have hstays : m.moves a r = false := by
            rw [AppStore.moves, AppStore.sttKey_of_miss hmiss, hk]
            rfl
          rw [AppStore.serve_st_of_not (by rw [hstays, Bool.false_and])]
        | some k =>
          rw [AppStore.serve_st_of_miss hmiss hfor hk, setPair]
          split
          next hpair =>
            -- The pair is written, with the state that it has.
            have heq : (m.st n).data = (m.stt k).data := by
              by_contra hne
              refine hstray ⟨hr ▸ hfor, ?_, k, ?_, n, hn, haddr ▸ hpair, ?_⟩
              · rw [hnow, hr, hmiss]
              · rw [hstt, hr, hk]
              · rwa [hnow, hstt]
            rw [← heq]
          next => rfl
    · rw [hthen, hnow]
      rw [hnow, hr] at hj
      cases hmoves : m.moves a r && a.isFor r.appId with
      | false => rw [AppStore.serve_st_of_not hmoves]
      | true =>
        rw [Bool.and_eq_true] at hmoves
        have hat : m.addr a r = j := by rw [AppStore.addr, AppStore.line, hj]; rfl
        rw [AppStore.serve_st_of_moves hmoves.2 hmoves.1, hat, setPair, if_neg hpair]
    · rw [hthen, hnow]
      exact AppStore.serve_keys a m r n

theorem frameKept_of_testbench :
    let s := run (step testbenchApp) (start (.afterReset testbenchApp)) (asks nineApart samePacket)
    FrameKept testbenchApp (asks nineApart samePacket) s 0 := by
  intro s
  have h := runs_start testbenchApp (.afterReset testbenchApp) nineApart samePacket
  refine (frameKept_iff h spaced_nineApart (t := 0) rfl).mpr fun hstray => ?_
  have hmiss := hstray.2.1
  have hsome := find_flowEntry
  change LookupTable.find testbenchApp.stParams testbenchApp.stParams.resetEntry flowEntry = none
    at hmiss
  rw [hmiss] at hsome
  cases hsome

/-! From reset: the packet of the test bench, with an event that its state has no transition for,
and nine cycles later a packet that no entry has been written for. -/

def strayRequest (t : Nat) : Request :=
  if t = 10 then ⟨5, flowEntry, 1, testbenchAction⟩ else ⟨0, flowEntry2, 1, testbenchAction⟩

def strayInput (t : Nat) : AppIn :=
  { asks (fun t => t == 10 || t == 19) strayRequest t with reset := t == 0 }

theorem resets_strayInput (s : StatefulApp) :
    Resets testbenchApp strayInput (run (step testbenchApp) s strayInput) where
  follows := follows_run _ _ _
  start := rfl
  reset t ht _ := beq_false_of_ne (by omega)
  tableFlush _ _ _ := rfl
  reads _ _ _ h := by cases h
  low t _ ht := by
    show (t == 10 || t == 19) = false
    rw [beq_false_of_ne (by omega), beq_false_of_ne (by omega)]
    rfl

theorem find_of_reset {c d : Nat} {p : TableParams c d} {lut : Nat → Entry c d}
    (h : ∀ n, n < p.lutDepth → lut n = p.resetEntry n) (key : BitVec c) :
    LookupTable.find p lut key = LookupTable.find p p.resetEntry key :=
  LookupTable.find_congr fun n hn => by rw [h n hn]; exact ⟨rfl, rfl⟩

/-- The tables after the first of the two packets, from those that reset leaves. -/
theorem serve_strayRequest {m : AppStore}
    (hst : ∀ n, n < 8 → m.st n = testbenchApp.stParams.resetEntry n)
    (hstt : ∀ n, n < 8 → m.stt n = testbenchApp.sttParams.resetEntry n) :
    (m.serve testbenchApp (strayRequest 10)).st = m.st ∧
      (m.serve testbenchApp (strayRequest 10)).updateAddr = 1 := by
  have hline : LookupTable.find testbenchApp.stParams m.st flowEntry = some 1 :=
    (find_of_reset (p := testbenchApp.stParams) hst flowEntry).trans (by decide)
  have hkey : m.sttKey testbenchApp (strayRequest 10) = 5#32 ++ 2#8 := by
    have hstate : m.state testbenchApp (strayRequest 10) = (m.st 1).data := by
      show LookupTable.lookup testbenchApp.stParams m.st flowEntry = _
      rw [LookupTable.lookup, hline]
    rw [AppStore.sttKey, hstate, hst 1 (by omega)]
    rfl
  have hstays : m.moves testbenchApp (strayRequest 10) = false := by
    rw [AppStore.moves, hkey, find_of_reset (p := testbenchApp.sttParams) hstt]
    decide
  refine ⟨AppStore.serve_st_of_not (by rw [hstays, Bool.false_and]), ?_⟩
  show (LookupTable.find testbenchApp.stParams m.st flowEntry).getD _ = 1
  rw [hline]
  rfl

theorem serve_strayRequest_again {m : AppStore} (haddr : m.updateAddr = 1)
    (hst : ∀ n, n < 8 → m.st n = testbenchApp.stParams.resetEntry n)
    (hstt : ∀ n, n < 8 → m.stt n = testbenchApp.sttParams.resetEntry n) :
    LookupTable.find testbenchApp.stParams m.st flowEntry2 = none ∧
      ((m.serve testbenchApp (strayRequest 19)).st 1).data = 0 := by
  have hmiss : LookupTable.find testbenchApp.stParams m.st flowEntry2 = none :=
    (find_of_reset (p := testbenchApp.stParams) hst flowEntry2).trans (by decide)
  have hfield : (strayRequest 19).matchField = flowEntry2 := rfl
  have hfor : testbenchApp.isFor (strayRequest 19).appId = true := by decide
  have hk : LookupTable.find testbenchApp.sttParams m.stt
      (testbenchApp.eventParamLocal (strayRequest 19) ++ 0#8) = some 0 :=
    (find_of_reset (p := testbenchApp.sttParams) hstt _).trans (by decide)
  refine ⟨hmiss, ?_⟩
  rw [AppStore.serve_st_of_miss (hfield ▸ hmiss) hfor hk, haddr, setPair, if_pos rfl, hstt 0 (by omega)]
  rfl

/-- The second packet finds no entry and puts the entry of the first into state zero, whatever the
registers hold before the reset. -/
theorem stray_of_resets {s : Nat → StatefulApp} (hresets : Resets testbenchApp strayInput s) :
    LookupTable.find testbenchApp.stParams (s 19).stateCamLutSm.lut flowEntry2 = none ∧
      ((s 19).stateCamLutSm.lut 1).data = 2 ∧ ((s 28).stateCamLutSm.lut 1).data = 0 := by
  obtain ⟨-, -, hst, hstt, -⟩ := hresets.idle
  have h := hresets.runs (fun t => beq_false_of_ne (by omega)) (fun _ => rfl)
    (fun _ hreq => by cases hreq)
  have hspaced : Spaced 9 (vld fun t => strayInput (t + 10)) := by
    intro t u ht hu htu
    change (t + 10 == 10 || t + 10 == 19) = true at ht
    change (u + 10 == 10 || u + 10 == 19) = true at hu
    simp only [Bool.or_eq_true, beq_iff_eq] at ht hu
    omega
  have hzero : vld (fun t => strayInput (t + 10)) 0 = true := rfl
  have hnine : vld (fun t => strayInput (t + 10)) 9 = true := rfl
  obtain ⟨hsame, haddr⟩ := serve_strayRequest (m := (s 10).store) hst hstt
  have hbefore : before testbenchApp (fun t => strayInput (t + 10)) (fun t => s (t + 10)) 9 =
      (s 10).store.serve testbenchApp (strayRequest 10) :=
    Runs.before_add hspaced hzero (k := 9) (by omega) (by omega)
  have hnow : (s 19).stateCamLutSm.lut = (s 10).store.st := by
    rw [h.stLut_eq_before hspaced 9, Runs.before_sub hspaced hnine (by omega), hbefore, hsame]
  have hthen : (s 28).stateCamLutSm.lut =
      (((s 10).store.serve testbenchApp (strayRequest 10)).serve testbenchApp
        (strayRequest 19)).st := by
    rw [h.stLut_eq_before hspaced 18, ← hbefore]
    exact congrArg AppStore.st (Runs.before_add hspaced hnine (k := 1) (by omega) (by omega))
  obtain ⟨hmiss, hzeroed⟩ := serve_strayRequest_again haddr (hsame ▸ hst) hstt
  refine ⟨by rw [hnow, ← hsame, hmiss], ?_, by rw [hthen, hzeroed]⟩
  rw [hnow]
  exact congrArg Entry.data (hst 1 (by omega))

theorem stray_request_clears_state :
    let s := run (step testbenchApp) (start (.afterReset testbenchApp)) strayInput
    LookupTable.find testbenchApp.stParams (s 19).stateCamLutSm.lut flowEntry2 = none ∧
      ((s 19).stateCamLutSm.lut 1).data = 2 ∧ ((s 28).stateCamLutSm.lut 1).data = 0 :=
  stray_of_resets (resets_strayInput _)

end StatefulApp

end Sdpa.Hardware
