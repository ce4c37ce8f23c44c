import Sdpa.Lib.Interleaving
import Sdpa.Switch.Megaflow

/-!
# Packets of one flow at several handler threads

`xlate_fp` reads the state of a flow when it starts and stores the next one when
it ends, without a lock in between. Packets of one flow are handled as if one at a
time if no thread stores a state between another thread's load and its store.
-/
namespace Sdpa.Switch

open Sdpa.Lib.Interleaving

variable {hash : Key → BitVec 32}

/-- `xlate_fp` after the state has been loaded and up to the store. -/
def FpPacket.decide (p : FpPacket) (loaded : Except Fault (Except NoValue (FpFound hash))) :
    Except Fault FpPlan := do
  match ← loaded with
  | .error why => return ⟨none, p.flow, .error why⟩
  | .ok found =>
    let d ← fpDecide p.flow p.tcpFlags found
    return ⟨some (found.key, d.next), d.flow, d.drop⟩

/-- A handler thread with a packet. A fault ends the process; here it is what the
packet computes, so that the other threads can be followed all the same. -/
def FpPacket.thread (p : FpPacket) : Thread (GApps hash)
    (Except Fault (Except NoValue (FpFound hash))) (Except Fault FpPlan) where
  read := p.lookup
  compute := p.decide
  write := fun computed g => match computed with
    | .ok plan => plan.apply p.aid g
    | .error _ => g

theorem value_thread (p : FpPacket) (g : GApps hash) : p.thread.value g = p.plan g := rfl

/-- The steps of a thread, one right after the other, are `xlate_fp`. -/
theorem run_eq_thread (p : FpPacket) (g : GApps hash) :
    p.run g = (p.thread.value g).map fun plan =>
      ⟨p.thread.write (.ok plan) g, plan.outcome.1, plan.outcome.2⟩ :=
  run_eq_plan p g

/-- The state that the packet's lookup finds. -/
def FpPacket.stored (p : FpPacket) (g : GApps hash) : Except Fault (Except NoValue (BitVec 32)) :=
  (p.lookup g).map fun l => l.map FpFound.status

/-- All packets have one app and one match string. -/
def SameFlow {n : Nat} (g : GApps hash) (packets : Fin n → FpPacket) : Prop :=
  ∀ i j, (packets i).aid = (packets j).aid ∧
    matchString g (packets i) = matchString g (packets j)

/-- Handling the packets one at a time, in this order, has the same effect. -/
structure SerialisedBy {n : Nat} (g : GApps hash) (packets : Fin n → FpPacket)
    (x : Schedule (Fin n)) (order : List (Fin n)) : Prop where
  perm : order.Perm (List.finRange n)
  stored : ∀ i, (packets i).stored (run (fun i => (packets i).thread) x.events g).shared =
    (packets i).stored (inTurn (fun i => (packets i).thread) order g).1
  verdict : ∀ i,
    ((run (fun i => (packets i).thread) x.events g).computed i).map (Except.map FpPlan.outcome) =
      ((inTurn (fun i => (packets i).thread) order g).2 i).map (Except.map FpPlan.outcome)

theorem serialisedBy_of_undisturbed {n : Nat} {x : Schedule (Fin n)} (hx : Undisturbed x)
    (g : GApps hash) (packets : Fin n → FpPacket) :
    SerialisedBy g packets x (Schedule.writers x.events) := by
  obtain ⟨hshared, hcomputed⟩ := run_of_undisturbed hx (fun i => (packets i).thread) g
  refine ⟨?_, fun i => by rw [hshared], fun i => by rw [hcomputed]⟩
  rw [List.perm_ext_iff_of_nodup x.writers_nodup (List.nodup_finRange n)]
  intro i
  simp only [Schedule.mem_writers, x.mem_events, List.mem_finRange]

/-! ## A table that counts packets -/

/-- A packet with flag 1 takes state 1 to 2 and state 2 to 3. One without flags leads
to state 0, which is not stored. -/
def countingStt : List SttMatchEntry :=
  [⟨9, 0, 1, 15, 1, 1, 2⟩, ⟨9, 0, 1, 15, 1, 2, 3⟩, ⟨9, 0, 1, 15, 0, 9, 9⟩]

/-- One flow, of input port 0, in state 1. -/
def countingApps : GApps hash :=
  GApps.start.append ⟨1, ⟨0x20, Entries.init.insert ⟨[48], 1⟩⟩, countingStt, noActions⟩ rfl

def counted : FpPacket := ⟨1, fun _ => 0, 1⟩

def passedOver : FpPacket := ⟨1, fun _ => 0, 0⟩

/-- The flow is in this state. -/
def InState (status : BitVec 32) (g : GApps hash) : Prop :=
  counted.lookup g = .ok (.ok ⟨[48], status, countingStt, noActions⟩)

theorem countingApps_inState : InState 1 (countingApps : GApps hash) := by
  have hparse : parseMatch counted.flow 0x20 = .ok (some [48]) := by decide
  refine lookup_eq_ok.mpr ⟨_, ⟨[48], 1⟩, rfl, hparse, ?_, rfl⟩
  have hmem : ∀ e, e ∈ ((Entries.init.insert ⟨[48], 1⟩ :
      Entries hash StMatchEntry.data).withHash [48]) ↔ e = ⟨[48], 1⟩ := by
    intro e
    rw [Entries.mem_withHash, Entries.mem_entries_insert, Entries.entries_init]
    constructor
    · rintro ⟨h | h, -⟩
      · exact h
      · exact (List.not_mem_nil h).elim
    · rintro rfl
      exact ⟨.inl rfl, rfl⟩
  change (Entries.init.insert ⟨[48], 1⟩ : Entries hash StMatchEntry.data).first [48] = _
  rw [Entries.first_eq_head]
  cases hl : (Entries.init.insert ⟨[48], 1⟩ : Entries hash StMatchEntry.data).withHash [48] with
  | nil =>
    have h := (hmem ⟨[48], 1⟩).mpr rfl
    rw [hl] at h
    exact (List.not_mem_nil h).elim
  | cons e l =>
    rw [(hmem e).mp (by rw [hl]; exact List.mem_cons_self)]
    rfl

theorem plan_inState {p : FpPacket} (hp : p = counted ∨ p = passedOver) {g : GApps hash}
    {status : BitVec 32} (h : InState status g) : p.plan g =
      .ok ⟨some ([48], nextState p.flow p.tcpFlags status countingStt false), p.flow,
        .error .noAtEntry⟩ := by
  have hlookup : p.lookup g = .ok (.ok ⟨[48], status, countingStt, noActions⟩) := by
    rcases hp with rfl | rfl <;> exact h
  rw [FpPacket.plan, hlookup]
  simp only [bind, Except.bind, fpDecide_noActions]
  rfl

/-- A counted packet stores the state after the one it has loaded, whatever the state is now. -/
theorem counted_write {g g' : GApps hash} {status next now : BitVec 32} (h : InState status g)
    (hnow : InState now g')
    (hnext : nextState (fun _ => 0) 1 status countingStt false = next) (hzero : next ≠ 0) :
    InState next (counted.thread.write (counted.thread.value g) g') := by
  rw [value_thread, plan_inState (.inl rfl) h]
  change InState next (updateState g' counted.aid [48] (nextState (fun _ => 0) 1 status _ _))
  rw [hnext, updateState, if_neg hzero]
  exact lookup_writeStatus_self hnow next

theorem passedOver_write {g g' : GApps hash} {status : BitVec 32} (h : InState status g)
    (hnext : nextState (fun _ => 0) 0 status countingStt false = 0) :
    passedOver.thread.write (passedOver.thread.value g) g' = g' := by
  rw [value_thread, plan_inState (.inr rfl) h]
  change updateState g' passedOver.aid [48] (nextState (fun _ => 0) 0 status _ _) = g'
  rw [hnext, updateState, if_pos rfl]

section TwoCounted

variable {n : Nat} (i j : Fin n)

/-- Two packets are counted, the others are passed over. -/
def twoCounted (k : Fin n) : FpPacket := if k = i ∨ k = j then counted else passedOver

theorem twoCounted_sameFlow (g : GApps hash) : SameFlow g (twoCounted i j) := by
  have hone : ∀ k, (twoCounted i j k).aid = 1 ∧ matchString g (twoCounted i j k) =
      matchString g counted := by
    intro k
    unfold twoCounted
    split <;> exact ⟨rfl, rfl⟩
  intro k l
  rw [(hone k).1, (hone l).1, (hone k).2, (hone l).2]
  exact ⟨rfl, rfl⟩

theorem twoCounted_stored (k : Fin n) {g : GApps hash} {status : BitVec 32}
    (h : InState status g) : (twoCounted i j k).stored g = .ok (.ok status) := by
  have hsame : (twoCounted i j k).stored g = counted.stored g := by
    unfold twoCounted
    split <;> rfl
  rw [hsame, FpPacket.stored, h]
  rfl

/-- One at a time, every counted packet counts. -/
theorem oneAtATime_counts (order : List (Fin n))
    {r : GApps hash × (Fin n → Option (Except Fault FpPlan))}
    {m : Nat} (h : InState (BitVec.ofNat 32 m) r.1) (hlow : 1 ≤ m)
    (hhigh : m + order.countP (fun k => k = i ∨ k = j) ≤ 3) :
    InState (BitVec.ofNat 32 (m + order.countP (fun k => k = i ∨ k = j)))
      (oneAtATime (fun k => (twoCounted i j k).thread) order r).1 := by
  induction order generalizing r m with
  | nil => exact h
  | cons k order ih =>
    rw [oneAtATime]
    by_cases hk : k = i ∨ k = j
    · have hp : twoCounted i j k = counted := if_pos hk
      rw [List.countP_cons_of_pos (by simpa using hk)] at hhigh ⊢
      have hstep : InState (BitVec.ofNat 32 (m + 1))
          (counted.thread.write (counted.thread.value r.1) r.1) := by
        obtain rfl | rfl : m = 1 ∨ m = 2 := by omega
        · exact counted_write h h (by decide) (by decide)
        · exact counted_write h h (by decide) (by decide)
      have hrest := ih (r := ((twoCounted i j k).thread.write
        ((twoCounted i j k).thread.value r.1) r.1, Function.update r.2 k
          (some ((twoCounted i j k).thread.value r.1)))) (m := m + 1) (by rw [hp]; exact hstep)
        (by omega) (by omega)
      rw [← Nat.add_assoc, Nat.add_right_comm]
      exact hrest
    · have hp : twoCounted i j k = passedOver := if_neg hk
      rw [List.countP_cons_of_neg (by simpa using hk)] at hhigh ⊢
      have hstep : passedOver.thread.write (passedOver.thread.value r.1) r.1 = r.1 := by
        obtain rfl | rfl | rfl : m = 1 ∨ m = 2 ∨ m = 3 := by omega
        · exact passedOver_write h (by decide)
        · exact passedOver_write h (by decide)
        · exact passedOver_write h (by decide)
      exact ih (r := ((twoCounted i j k).thread.write
        ((twoCounted i j k).thread.value r.1) r.1, Function.update r.2 k
          (some ((twoCounted i j k).thread.value r.1)))) (by rw [hp, hstep]; exact h) hlow hhigh

variable {i j}

theorem countP_two (hij : i ≠ j) {order : List (Fin n)} (h : order.Perm (List.finRange n)) :
    order.countP (fun k => k = i ∨ k = j) = 2 := by
  have hnodup : order.Nodup := h.nodup_iff.mpr (List.nodup_finRange n)
  have hperm : (order.filter (fun k => k = i ∨ k = j)).Perm [i, j] := by
    rw [List.perm_ext_iff_of_nodup (hnodup.filter _) (by simpa using hij)]
    intro k
    have hk : k ∈ order := h.mem_iff.mpr (List.mem_finRange k)
    simp [hk]
  rw [List.countP_eq_length_filter, hperm.length_eq]
  rfl

theorem run_twoCounted {x : Schedule (Fin n)} (hij : i ≠ j)
    (hx : List.Sublist [Event.read i, .write j, .write i] x.events) :
    InState 2 (run (fun k => (twoCounted i j k).thread) x.events
      (countingApps : GApps hash)).shared := by
  have hpi : twoCounted i j i = counted := if_pos (.inl rfl)
  have hpj : twoCounted i j j = counted := if_pos (.inr rfl)
  refine lost_update hij hx ?_ ?_ ?_ countingApps_inState
  · intro k hki hkj g g' hg
    have hp : twoCounted i j k = passedOver := if_neg (by simp [hki, hkj])
    have hkeep : passedOver.thread.write (passedOver.thread.value g) g' = g' := by
      rcases hg with h | h
      · exact passedOver_write h (by decide)
      · exact passedOver_write h (by decide)
    rw [hp, hkeep]
    exact ⟨fun h => h, fun h => h⟩
  · intro g g' hg hg'
    rw [hpj]
    exact counted_write hg hg' (by decide) (by decide)
  · intro g g' hg hg'
    rw [hpi]
    exact counted_write hg hg' (by decide) (by decide)

end TwoCounted

/-- An interleaving serialises all packets of one flow under all tables exactly if no
packet's state is stored between another packet's load and its store. -/
theorem serialised_iff_undisturbed {n : Nat} (x : Schedule (Fin n)) :
    (∀ (g : GApps hash) (packets : Fin n → FpPacket), SameFlow g packets →
      ∃ order, SerialisedBy g packets x order) ↔ Undisturbed x := by
  constructor
  · intro h i j hij hx
    obtain ⟨order, hserial⟩ := h countingApps (twoCounted i j) (twoCounted_sameFlow i j _)
    have hstart : InState 1 (countingApps : GApps hash) := countingApps_inState
    have hseq := oneAtATime_counts i j order (r := (countingApps, fun _ => none)) hstart
      (Nat.le_refl 1) (by rw [countP_two hij hserial.perm])
    rw [countP_two hij hserial.perm] at hseq
    have hstored := hserial.stored i
    rw [twoCounted_stored i j i (run_twoCounted hij hx), inTurn,
      twoCounted_stored i j i hseq] at hstored
    exact absurd (Except.ok.inj (Except.ok.inj hstored)) (by decide)
  · intro hx g packets _
    exact ⟨_, serialisedBy_of_undisturbed hx g packets⟩

/-! ## Two packets, both first -/

/-- Both threads load before either stores. -/
def bothLoad : Schedule (Fin 2) where
  events := [.read 0, .read 1, .compute 0, .compute 1, .write 0, .write 1]
  each := by decide

/-- The packets of 10.0.0.1 of which the app lets the first through. -/
def fromFirst : FpPacket := ⟨1, udpFrom 0x0a000001, 0⟩

/-- Both packets pass as the first one, and the flow is left in state 2. One at a time
the second is dropped, and the flow is left in state 3. -/
theorem both_packets_first :
    SameFlow firstOnly (fun _ : Fin 2 => fromFirst) ∧
    (∀ i, ((run (fun _ => fromFirst.thread) bothLoad.events firstOnly).computed i).map
      (fun plan => plan.map fun plan => plan.outcome.2) = some (.ok (.ok false))) ∧
    fromFirst.stored (run (fun _ => fromFirst.thread) bothLoad.events firstOnly).shared =
      .ok (.ok 2) ∧
    ∀ order, ¬ SerialisedBy firstOnly (fun _ : Fin 2 => fromFirst) bothLoad order := by
  have hstored : fromFirst.stored (run (fun _ => fromFirst.thread) bothLoad.events
      firstOnly).shared = .ok (.ok 2) := by decide +kernel
  have hseq : ∀ a b : Fin 2,
      fromFirst.stored (inTurn (fun _ => fromFirst.thread) [a, b] firstOnly).1 = .ok (.ok 3) := by
    decide +kernel
  refine ⟨fun _ _ => ⟨rfl, rfl⟩, by decide +kernel, hstored, fun order h => ?_⟩
  obtain ⟨a, b, rfl⟩ := List.length_eq_two.mp h.perm.length_eq
  have hsame := h.stored 0
  rw [hstored, hseq a b] at hsame
  exact absurd (Except.ok.inj (Except.ok.inj hsame)) (by decide)

end Sdpa.Switch
