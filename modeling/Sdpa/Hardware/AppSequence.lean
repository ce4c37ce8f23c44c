import Sdpa.Hardware.StatefulApp

/-!
# One request at a time

What an application is for, without the clock: requests are answered one after
the other from the tables, and each may move the state of one pair of entries.
The address register keeps the last line found, also when a request finds none.
-/
namespace Sdpa.Hardware

open Lib.Clocked

variable {c d : Nat}

/-- A new state for both lines of a pair. -/
def setPair (lut : Nat → Entry c d) (addr : Nat) (state : BitVec d) (n : Nat) : Entry c d :=
  if n / 2 = addr / 2 then { lut n with data := state } else lut n

theorem Update.apply_of_not_req {u : Update d} (h : u.req = false) (old lut : Nat → Entry c d) :
    u.apply old lut = lut := by
  rw [Update.apply, h]
  rfl

/-- The update port writes the pair of its address, or what was there. -/
theorem Update.apply_self {u : Update d} (h : u.req = true) (lut : Nat → Entry c d) :
    u.apply lut lut = if u.vld then setPair lut u.addr u.nextState else lut := by
  funext n
  rw [Update.apply, h]
  cases hv : u.vld with
  | false => simp
  | true =>
    simp only [if_true, setPair]
    by_cases h1 : n = 2 * (u.addr / 2) + 1
    · rw [h1, Function.update_self, if_pos (by omega)]
    · rw [Function.update_of_ne h1]
      by_cases h0 : n = 2 * (u.addr / 2)
      · rw [h0, Function.update_self, if_pos (by omega)]
      · rw [Function.update_of_ne h0, if_neg (by omega)]

/-- The tables of an application and its address register. -/
structure AppStore where
  st : Nat → Entry 248 8
  stt : Nat → Entry 40 8
  at' : Nat → Entry 256 338
  updateAddr : Nat

namespace AppStore

variable (a : AppParams) (m : AppStore) (r : Request)

/-- What reset writes. -/
def afterReset : AppStore where
  st := a.stParams.resetEntry
  stt := a.sttParams.resetEntry
  at' := a.atParams.resetEntry
  updateAddr := 0

/-- The line of the state table that a request finds. -/
def line : Option Nat := LookupTable.find a.stParams m.st r.matchField

def state : BitVec 8 := LookupTable.lookup a.stParams m.st r.matchField

/-- `{event_param_stt_fifo_out, state}`. -/
def sttKey : BitVec 40 := a.eventParamLocal r ++ m.state a r

/-- The transition table has an entry for the event in this state. -/
def moves : Bool := (LookupTable.find a.sttParams m.stt (m.sttKey a r)).isSome

def nextState : BitVec 8 := LookupTable.lookup a.sttParams m.stt (m.sttKey a r)

/-- `{next_state, match_field_at_fifo_out}`. -/
def atKey : BitVec 256 := m.nextState a r ++ r.matchField

/-- The action table entry found, zero without one. -/
def atEntry : BitVec 338 := LookupTable.lookup a.atParams m.at' (m.atKey a r)

def addr : Nat := (m.line a r).getD m.updateAddr

/-- The tables after a request. -/
def serve : AppStore :=
  { m with
    updateAddr := m.addr a r
    st := if m.moves a r && a.isFor r.appId then setPair m.st (m.addr a r) (m.nextState a r)
      else m.st }

/-- What is handed on: the request itself, or for this application the action modified by the
entry found and the application named there. -/
def answer : Request :=
  if a.isFor r.appId then
    { r with
      action := modifyAction (StatefulApp.actionFlag (m.atEntry a r)) r.action
        (StatefulApp.actionParam (m.atEntry a r)) 0
      appId := StatefulApp.actionNextApp (m.atEntry a r) }
  else r

/-- The tables before cycle `t`, from those at the start and the requests since. -/
def served (i : Nat → AppIn) : Nat → AppStore :=
  run (fun x m => if x.matchFieldVld then m.serve a x.request else m) m i

variable {a m r}

theorem served_succ (i : Nat → AppIn) (t : Nat) :
    m.served a i (t + 1) =
      if (i t).matchFieldVld then (m.served a i t).serve a (i t).request else m.served a i t := rfl

/-- A request for another application is handed on as it is. -/
theorem answer_of_other (hother : a.isFor r.appId = false) : m.answer a r = r := by
  rw [answer, hother]
  rfl

/-- Nothing changes without requests. -/
theorem served_eq_of_low {i : Nat → AppIn} {t u : Nat} (hle : t ≤ u)
    (hlow : ∀ v, t ≤ v → v < u → (i v).matchFieldVld = false) :
    m.served a i u = m.served a i t := by
  induction u, hle using Nat.le_induction with
  | base => rfl
  | succ u hle ih =>
    rw [served_succ, hlow u hle (by omega)]
    exact ih fun v hv hvu => hlow v hv (by omega)

theorem served_stt (i : Nat → AppIn) (t : Nat) : (m.served a i t).stt = m.stt := by
  induction t with
  | zero => rfl
  | succ t ih =>
    rw [served_succ]
    cases (i t).matchFieldVld <;> exact ih

theorem served_at (i : Nat → AppIn) (t : Nat) : (m.served a i t).at' = m.at' := by
  induction t with
  | zero => rfl
  | succ t ih =>
    rw [served_succ]
    cases (i t).matchFieldVld <;> exact ih

/-! ## Tables with one transition and one action -/

/-- Every flow goes to state one, and there is an action for state one. -/
def allTo (entry : BitVec 338) : AppStore where
  st := fun _ => ⟨BitVec.allOnes 248, 0, 0⟩
  stt := fun _ => ⟨BitVec.allOnes 40, 0, 1⟩
  at' := fun _ => ⟨0#8 ++ BitVec.allOnes 248, 1#8 ++ 0#248, entry⟩
  updateAddr := 0

variable {entry : BitVec 338}

theorem nextState_of_allTo (h : m.stt = (allTo entry).stt) : m.nextState a r = 1 := by
  have hfind : LookupTable.find a.sttParams m.stt (m.sttKey a r) = some 0 :=
    LookupTable.find_of_dmask (Nat.succ_pos 7) (by rw [h]; rfl) _
  rw [nextState, LookupTable.lookup_of_find hfind, h]
  rfl

theorem find_of_allTo (hstt : m.stt = (allTo entry).stt) (hat : m.at' = (allTo entry).at') :
    LookupTable.find a.atParams m.at' (m.atKey a r) = some 0 := by
  refine LookupTable.find_of_hits (Nat.succ_pos 7) ?_
  rw [atKey, nextState_of_allTo hstt, hat]
  refine decide_eq_true ?_
  show ~~~((1#8 ++ r.matchField) ^^^ (1#8 ++ 0#248)) ||| (0#8 ++ BitVec.allOnes 248) =
    BitVec.allOnes 256
  rw [BitVec.xor_append, BitVec.not_append, BitVec.or_append, BitVec.or_allOnes]
  decide

theorem atEntry_of_allTo (hstt : m.stt = (allTo entry).stt) (hat : m.at' = (allTo entry).at') :
    m.atEntry a r = entry := by
  rw [atEntry, LookupTable.lookup_of_find (find_of_allTo hstt hat), hat]
  rfl

end AppStore

end Sdpa.Hardware
