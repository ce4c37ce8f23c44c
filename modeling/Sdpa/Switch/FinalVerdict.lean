import Sdpa.Switch.Handlers
import Sdpa.Switch.Megaflow

/-!
# A drop is the end of a translation

A `goto_fp` whose app drops the packet sets `exit`, which every loop over actions tests
before each action. What is executed is noted in a log that is carried along with the
state of the switch, so that it can be said what comes after a drop: nothing, neither in
the lists around it nor in further buckets nor in the action set. Only in-band control
may add an output.
-/
namespace Sdpa.Switch

open Sdpa.Lib.Simulation

variable {A α β : Type}

/-! ## Translation with a log -/

/-- An action that is executed, or a drop by `xlate_fp`, with the state of the switch and the
datapath actions as they are then. -/
inductive Mark (A : Type)
  | ran (o : Ofpact)
  | dropped (shared : A) (odp : List OdpAction)

/-- The log has the latest mark first. -/
abbrev Logged (A : Type) := A × List (Mark A)

def noteRan (o : Ofpact) : XlateM (Logged A) PUnit :=
  fun s => .ok (⟨⟩, (s.1.1, .ran o :: s.1.2), s.2)

/-- `xlateList` that notes what it executes. -/
def loggedList (env : Env) (xin : XlateIn) (fx : Effects (Logged A)) (inner : Inner (Logged A)) :
    List Ofpact → XlateM (Logged A) PUnit
  | [] => pure ⟨⟩
  | o :: rest =>
    branch XlateCtx.exit fun
      | true => pure ⟨⟩
      | false => do
        noteRan o
        match ← xlateOfpact env xin fx inner o with
        | true => pure ⟨⟩
        | false => loggedList env xin fx inner rest

def loggedActions (env : Env) (xin : XlateIn) (fx : Effects (Logged A)) :
    Nat → List Ofpact → XlateM (Logged A) PUnit
  | 0 => loggedList env xin fx none
  | depth + 1 => loggedList env xin fx (some (loggedActions env xin fx depth))

def loggedArrived (env : Env) (xin : XlateIn) (fx : Effects (Logged A)) (ofpacts : List Ofpact) :
    XlateM (Logged A) PUnit := do
  branch (arrives env) fun
    | true => loggedActions env xin fx maxResubmitRecursion ofpacts
    | false => pure ⟨⟩
  xlateActionSet (loggedActions env xin fx maxResubmitRecursion)

def loggedWhole (env : Env) (xin : XlateIn) (fx : Effects (Logged A)) (ofpacts : List Ofpact) :
    XlateM (Logged A) PUnit := do
  loggedArrived env xin fx ofpacts
  inBandOutput env xin (some (loggedActions env xin fx (maxResubmitRecursion - 1)))

variable {hash : Key → BitVec 32}

/-- `gotoFp` that notes a drop. -/
def loggedFp (undetermined : NoValue → Bool) (tcpFlags : BitVec 16) (bitmap : BitVec 8) :
    XlateM (Logged (Shared hash)) PUnit := fun s => do
  let r ← xlateFp s.1.1.apps bitmap s.2.flow tcpFlags
  let stop := shouldStop undetermined r.drop
  let shared := { s.1.1 with apps := r.apps }
  return (⟨⟩, (shared, if stop then .dropped shared s.2.odp :: s.1.2 else s.1.2),
    { s.2 with flow := r.flow, exit := s.2.exit || stop })

def loggedEffects (undetermined : NoValue → Bool) (xin : XlateIn) :
    Effects (Logged (Shared hash)) where
  gotoFp := loggedFp undetermined xin.tcpFlags
  learn := fun xbridge input view l =>
    let r := learnMac xin.mayLearn xbridge input view l.1.macs
    .ok (r.1, { l.1 with macs := r.2 }, l.2)

/-- The end of a translation, with its log and the number of tables looked up on the way. -/
structure LoggedOut (hash : Key → BitVec 32) where
  shared : Shared hash
  out : XlateOut
  log : List (Mark (Shared hash))
  lookups : Nat

def loggedXlate (undetermined : NoValue → Bool) (env : Env) (xin : XlateIn) (s : Shared hash) :
    Except Fault (LoggedOut hash) :=
  let start := startActions env xin (initCtx xin)
  if dropsFragment env xin then .ok ⟨s, finishDropped start.2, [], start.2.resubmits⟩
  else do
    let r ← loggedWhole env xin (loggedEffects undetermined xin) start.1
      ((s, []), hideFragPorts env start.2)
    return ⟨r.2.1.1, finish xin r.2.2, r.2.1.2, r.2.2.resubmits⟩

/-! ## The log changes nothing -/

section erase

/-- The contexts are equal, and so are the states of the switch. -/
abbrev erased (A : Type) : XlateSpec (Logged A) A :=
  ctxSpec (fun _ => True) (fun _ => False) (fun _ _ => True) fun l a => l.1 = a

theorem erasedSteps (env : Env) (xin : XlateIn) : Steps env xin xin (erased A) :=
  ctxSteps env xin (fun _ _ => trivial) fun _ _ _ => trivial

theorem sim_of_erased (pre : Logged A × XlateCtx → Prop) {m : XlateM (Logged A) α}
    {m' : XlateM A α} (h : ∀ l c, OutRel (erased A) (m (l, c)) (m' (l.1, c))) :
    Sim (erased A) pre m m' where
  keep := fun _ _ _ _ _ => ⟨trivial, fun _ _ => trivial⟩
  back := fun _ _ _ _ => trivial
  sim := by
    rintro ⟨l, c⟩ ⟨s, c'⟩ _ _ ⟨hshared, hctx⟩ _
    obtain rfl : l.1 = s := hshared
    obtain rfl : c = c' := hctx
    exact h l c

variable {env : Env} {xin : XlateIn} {fx : Effects (Logged A)} {fx' : Effects A}

/-- A note is not seen by what does not depend on the log. -/
theorem sim_noteRan (pre : XlateCtx → Prop) {m : XlateM (Logged A) α} {m' : XlateM A α}
    (o : Ofpact) (h : Sim (erased A) (fun s => pre s.2) m m') :
    Sim (erased A) (fun s => pre s.2) (noteRan o >>= fun _ => m) m' where
  keep := fun _ _ _ _ _ => ⟨trivial, fun _ _ => trivial⟩
  back := fun _ _ _ _ => trivial
  sim := by
    intro s t _ hpre hrel hgood
    exact h.sim ((s.1.1, .ran o :: s.1.2), s.2) t trivial hpre hrel hgood

variable (hfx : SimEffects (erased A) fx fx')
include hfx

theorem sim_loggedList {inner : Inner (Logged A)} {inner' : Inner A}
    (hI : InnerSim (erased A) inner inner') (ofpacts : List Ofpact) :
    Sim (erased A) anywhere (loggedList env xin fx inner ofpacts)
      (xlateList env xin fx' inner' ofpacts) := by
  induction ofpacts with
  | nil => exact Sim.pure _
  | cons o rest ih =>
    refine sim_branchOn (v := XlateCtx.exit) (fun s t hr => congrArg XlateCtx.exit hr.2) fun exit => ?_
    cases exit with
    | true => exact Sim.pure _
    | false =>
      have ho : Sim (erased A) (fun s => s.2.exit = false) (xlateOfpact env xin fx inner o)
          (xlateOfpact env xin fx' inner' o) :=
        sim_xlateOfpact (erasedSteps env xin) hfx hI o
      refine (sim_noteRan (fun c => c.exit = false) o (sim_andThen ho fun stop => ?_)).mono
        fun s hs => hs.2
      cases stop with
      | true => exact Sim.pure _
      | false => exact ih

theorem sim_loggedActions (depth : Nat) (ofpacts : List Ofpact) :
    Sim (erased A) anywhere (loggedActions env xin fx depth ofpacts)
      (doXlateActions env xin fx' depth ofpacts) := by
  induction depth generalizing ofpacts with
  | zero => exact sim_loggedList hfx .limit ofpacts
  | succ depth ih =>
    exact sim_loggedList hfx (.nested fun ofpacts => sim_everywhere (ih ofpacts)) ofpacts

theorem sim_loggedArrived (ofpacts : List Ofpact) :
    Sim (erased A) anywhere (loggedArrived env xin fx ofpacts)
      (xlateArrived env xin fx' ofpacts) := by
  refine sim_andThen (sim_branch (v := arrives env) (erasedSteps env xin).arrives fun lets => ?_)
    fun _ => sim_branch (v := XlateCtx.actionSet)
      (fun s t hr => congrArg XlateCtx.actionSet hr.2) fun acts => ?_
  · cases lets with
    | true => exact sim_loggedActions hfx maxResubmitRecursion ofpacts
    | false => exact Sim.pure _
  · cases acts with
    | nil => exact Sim.pure _
    | cons act acts => exact sim_loggedActions hfx maxResubmitRecursion _

theorem sim_loggedWhole (ofpacts : List Ofpact) :
    Sim (erased A) anywhere (loggedWhole env xin fx ofpacts) (xlateWhole env xin fx' ofpacts) :=
  sim_andThen (sim_loggedArrived hfx ofpacts) fun _ => sim_inBandOutput (erasedSteps env xin)
    (.nested fun ofpacts => sim_everywhere (sim_loggedActions hfx _ ofpacts))

end erase

theorem sim_loggedEffects (undetermined : NoValue → Bool) (xin : XlateIn) :
    SimEffects (erased (Shared hash)) (loggedEffects undetermined xin)
      (switchEffects undetermined xin) where
  gotoFp := fun b => sim_of_erased _ fun l c => by
    change OutRel _ (loggedFp undetermined xin.tcpFlags b (l, c))
      (gotoFp undetermined xin.tcpFlags b (l.1, c))
    rw [loggedFp, gotoFp]
    cases xlateFp l.1.apps b c.flow xin.tcpFlags with
    | error fault => rfl
    | ok r => exact ⟨rfl, rfl, rfl⟩
  learn := fun xbridge input view => sim_of_erased _ fun l c => ⟨rfl, rfl, rfl⟩

/-- A translation is the one that is logged, without the log. -/
theorem xlate_eq_logged (undetermined : NoValue → Bool) (env : Env) (xin : XlateIn)
    (s : Shared hash) : xlate undetermined env xin s =
      (loggedXlate undetermined env xin s).map fun r => (r.shared, r.out) := by
  have hsim : OutRel (erased (Shared hash))
      (loggedWhole env xin (loggedEffects undetermined xin)
        (startActions env xin (initCtx xin)).1
        ((s, []), hideFragPorts env (startActions env xin (initCtx xin)).2))
      (xlateWhole env xin (switchEffects undetermined xin)
        (startActions env xin (initCtx xin)).1
        (s, hideFragPorts env (startActions env xin (initCtx xin)).2)) := by
    refine (sim_loggedWhole (sim_loggedEffects undetermined xin) _).sim _ _ trivial trivial
      ⟨rfl, rfl⟩ ?_
    generalize loggedWhole env xin _ _ _ = r
    cases r with
    | ok r => exact trivial
    | error fault => exact id
  unfold xlate xlateActions loggedXlate
  dsimp only
  by_cases hdrop : dropsFragment env xin = true
  · rw [if_pos hdrop, if_pos hdrop]
    rfl
  rw [if_neg hdrop, if_neg hdrop]
  generalize loggedWhole env xin _ _ _ = r at hsim ⊢
  generalize xlateWhole env xin _ _ _ = r' at hsim ⊢
  cases r with
  | error fault =>
    cases r' with
    | error fault' => exact congrArg Except.error (hsim : fault = fault').symm
    | ok r' => exact hsim.elim
  | ok r =>
    cases r' with
    | error fault' => exact hsim.elim
    | ok r' =>
      obtain ⟨-, hshared, hctx⟩ := hsim
      change Except.ok (r'.2.1, finish xin r'.2.2) = Except.ok (r.2.1.1, finish xin r.2.2)
      rw [hctx, hshared]

/-! ## What holds of the log -/

/-- Translation is on one bridge and within its limit of lookups. A drop in the log is
the last mark, translation has been stopped, and neither the switch nor the datapath
actions have changed since. -/
structure Scope (xbridge : Nat) (s : Logged A × XlateCtx) : Prop where
  bridge : s.2.xbridge = xbridge
  lookups : s.2.resubmits ≤ 64 * 64
  final : ∀ after apps odp before, s.1.2 = after ++ .dropped apps odp :: before →
    after = [] ∧ s.2.exit = true ∧ s.1.1 = apps ∧ s.2.odp = odp

/-- Nothing has been dropped while translation goes on. -/
theorem Scope.undropped {xbridge : Nat} {s : Logged A × XlateCtx} (h : Scope xbridge s)
    (hexit : s.2.exit = false) (apps : A) (odp : List OdpAction) : .dropped apps odp ∉ s.1.2 := by
  intro hmem
  obtain ⟨after, before, hlog⟩ := List.append_of_mem hmem
  have hstop := (h.final after apps odp before hlog).2.1
  rw [hexit] at hstop
  cases hstop

/-- While nothing has been dropped the context may change. -/
theorem Scope.of_undropped {xbridge : Nat} {s : Logged A × XlateCtx}
    (hbridge : s.2.xbridge = xbridge) (hlookups : s.2.resubmits ≤ 64 * 64)
    (h : ∀ apps odp, .dropped apps odp ∉ s.1.2) : Scope xbridge s where
  bridge := hbridge
  lookups := hlookups
  final := by
    intro after apps odp before hlog
    refine absurd ?_ (h apps odp)
    rw [hlog]
    exact List.mem_append_right after List.mem_cons_self

/-- What is not part of the scope may change. -/
theorem Scope.of_stays {xbridge : Nat} {l : Logged A} {c c' : XlateCtx} (h : Scope xbridge (l, c))
    (hc : Stays c c') (hodp : c'.odp = c.odp) : Scope xbridge (l, c') where
  bridge := hc.xbridge.trans h.bridge
  lookups := hc.resubmits.trans_le h.lookups
  final := by
    intro after apps odp before hlog
    obtain ⟨hafter, hexit, happs, hold⟩ := h.final after apps odp before hlog
    exact ⟨hafter, hc.exit.trans hexit, happs, hodp.trans hold⟩

/-- From a state with the given `exit` the computation keeps to the scope and leaves
`exit` as described. -/
def Leads (xbridge : Nat) (exit : Bool) (m : XlateM (Logged A) α) (post : Bool → Prop) : Prop :=
  ∀ s r, Scope xbridge s → s.2.exit = exit → m s = .ok r → Scope xbridge r.2 ∧ post r.2.2.exit

namespace Leads

variable {xbridge : Nat} {exit : Bool} {post : Bool → Prop} {m : XlateM (Logged A) α}

theorem mono {post' : Bool → Prop} (h : Leads xbridge exit m post) (hpost : ∀ e, post e → post' e) :
    Leads xbridge exit m post' :=
  fun s r hs he hr => ⟨(h s r hs he hr).1, hpost _ (h s r hs he hr).2⟩

protected theorem pure (a : α) (h : post exit) :
    Leads xbridge exit (pure a : XlateM (Logged A) α) post := by
  intro s r hs he hr
  obtain rfl := Except.ok.inj hr
  exact ⟨hs, he ▸ h⟩

theorem bind {k : α → XlateM (Logged A) β} {post' : Bool → Prop} (h : Leads xbridge exit m post)
    (hk : ∀ a e, post e → Leads xbridge e (k a) post') : Leads xbridge exit (m >>= k) post' := by
  intro s r hs he hr
  cases hm : m s with
  | error fault =>
    rw [bind_error hm] at hr
    cases hr
  | ok r' =>
    rw [bind_ok hm] at hr
    obtain ⟨hs', hpost⟩ := h s r' hs he hm
    exact hk r'.1 r'.2.2.exit hpost r'.2 r hs' rfl hr

/-- The first part does not stop translation. -/
theorem bind_running {k : α → XlateM (Logged A) β} {post' : Bool → Prop}
    (h : Leads xbridge false m (· = false)) (hk : ∀ a, Leads xbridge false (k a) post') :
    Leads xbridge false (m >>= k) post' :=
  h.bind fun a _ he => he ▸ hk a

/-- The first part may have stopped translation. -/
theorem bind_any {k : α → XlateM (Logged A) β} {post' : Bool → Prop}
    (h : Leads xbridge exit m fun _ => True) (hk : ∀ a e, Leads xbridge e (k a) post') :
    Leads xbridge exit (m >>= k) post' :=
  h.bind fun a e _ => hk a e

theorem andReturn (h : Leads xbridge exit m fun _ => True) (b : β) :
    Leads xbridge exit (m >>= fun _ => pure b) fun _ => True :=
  h.bind_any fun _ _ => Leads.pure b trivial

theorem branch {v : XlateCtx → β} {k : β → XlateM (Logged A) α}
    (h : ∀ b, Leads xbridge exit (k b) post) : Leads xbridge exit (Switch.branch v k) post :=
  fun s => h (v s.2) s

theorem branch_bridge {k : Nat → XlateM (Logged A) α} (h : Leads xbridge exit (k xbridge) post) :
    Leads xbridge exit (Switch.branch XlateCtx.xbridge k) post := by
  intro s r hs he hr
  refine h s r hs he ?_
  rw [← hr, Switch.branch, hs.bridge]

theorem branch_exit {k : Bool → XlateM (Logged A) α} (h : Leads xbridge exit (k exit) post) :
    Leads xbridge exit (Switch.branch XlateCtx.exit k) post := by
  intro s r hs he hr
  refine h s r hs he ?_
  rw [← hr, Switch.branch, he]

theorem onCtx {f : XlateCtx → α × XlateCtx} (hf : ∀ c, Stays c (f c).2) :
    Leads xbridge false (Switch.onCtx f : XlateM (Logged A) α) (· = false) := by
  intro s r hs he hr
  obtain rfl := Except.ok.inj hr
  refine ⟨.of_undropped ((hf s.2).xbridge.trans hs.bridge) ?_ (hs.undropped he),
    (hf s.2).exit.trans he⟩
  exact (hf s.2).resubmits.trans_le hs.lookups

theorem modifyCtx {f : XlateCtx → XlateCtx} (hf : ∀ c, Stays c (f c)) :
    Leads xbridge false (Switch.modifyCtx f : XlateM (Logged A) PUnit) (· = false) :=
  Leads.onCtx hf

theorem onState {f : Logged A → Except Fault (α × Logged A)}
    (hf : ∀ l r, f l = .ok r → r.2.2 = l.2) :
    Leads xbridge false (Switch.onState f) (· = false) := by
  intro s r hs he hr
  obtain ⟨r', hr', rfl⟩ := onState_ok hr
  refine ⟨.of_undropped hs.bridge hs.lookups fun shared odp => ?_, he⟩
  change Mark.dropped shared odp ∉ r'.2.2
  rw [hf s.1 r' hr']
  exact hs.undropped he shared odp

theorem stopTranslation :
    Leads xbridge false (Switch.stopTranslation : XlateM (Logged A) PUnit) fun _ => True := by
  intro s r hs he hr
  obtain rfl := Except.ok.inj hr
  exact ⟨.of_undropped hs.bridge hs.lookups (hs.undropped he), trivial⟩

/-- What a bracket restores is not part of the scope. -/
theorem bracket {enter : XlateCtx → XlateCtx} {leave : XlateCtx → XlateCtx → XlateCtx}
    {m : XlateM (Logged A) PUnit} (h : Leads xbridge exit m post)
    (hin : ∀ c, Stays c (enter c) ∧ (enter c).odp = c.odp)
    (hout : ∀ old c, Stays c (leave old c) ∧ (leave old c).odp = c.odp) :
    Leads xbridge exit (Switch.bracket enter leave m) post := by
  intro s r hs he hr
  obtain ⟨r', hr', heq⟩ := bracket_ok hr
  obtain ⟨hs', hpost⟩ := h (s.1, enter s.2) r' (hs.of_stays (hin s.2).1 (hin s.2).2)
    ((hin s.2).1.exit.trans he) hr'
  rw [heq]
  refine ⟨hs'.of_stays (hout s.2 r'.2.2).1 (hout s.2 r'.2.2).2, ?_⟩
  rw [(hout s.2 r'.2.2).1.exit]
  exact hpost

theorem forM {f : β → XlateM (Logged A) PUnit} (l : List β)
    (h : ∀ b ∈ l, Leads xbridge exit (f b) (· = exit)) :
    Leads xbridge exit (l.forM f) (· = exit) := by
  induction l with
  | nil => exact Leads.pure _ rfl
  | cons b l ih =>
    refine (h b List.mem_cons_self).bind fun _ e he => ?_
    subst he
    exact ih fun x hx => h x (List.mem_cons_of_mem b hx)

/-- A loop whose rounds are idle once translation has been stopped. -/
theorem forM_until {f : β → XlateM (Logged A) PUnit} (l : List β)
    (h : ∀ b ∈ l, Leads xbridge false (f b) fun _ => True)
    (hidle : ∀ b ∈ l, Leads xbridge true (f b) (· = true)) :
    Leads xbridge false (l.forM f) fun _ => True := by
  induction l with
  | nil => exact Leads.pure _ trivial
  | cons b l ih =>
    refine (h b List.mem_cons_self).bind fun _ e _ => ?_
    cases e with
    | false =>
      exact ih (fun x hx => h x (List.mem_cons_of_mem b hx))
        fun x hx => hidle x (List.mem_cons_of_mem b hx)
    | true =>
      exact (forM l fun x hx => hidle x (List.mem_cons_of_mem b hx)).mono fun _ _ => trivial

end Leads

/-! ## A bridge without patch ports -/

section bridge

variable {env : Env} {xin : XlateIn} {xbridge : Nat} {inner : Inner (Logged A)}

/-- Nested lists are translated within the scope, and not at all once translation has
been stopped. -/
def Translates (xbridge : Nat) (f : List Ofpact → XlateM (Logged A) PUnit) : Prop :=
  ∀ ofpacts, Leads xbridge false (f ofpacts) (fun _ => True) ∧
    Leads xbridge true (f ofpacts) (· = true)

/-- A lookup that is within the limits is one more. -/
theorem scope_lookup {f : List Ofpact → XlateM (Logged A) PUnit} (hf : Translates xbridge f)
    {inPort : BitVec 16} {tableId : BitVec 8} {mayPacketIn : Bool} {s : Logged A × XlateCtx}
    {r : PUnit × Logged A × XlateCtx} (hs : Scope xbridge s) (he : s.2.exit = false)
    (hless : s.2.resubmits < 64 * 64)
    (hr : (onCtx (lookupRule env xin inPort tableId mayPacketIn) >>= xlateRecursively f) s =
      .ok r) : Scope xbridge r.2 := by
  rw [bind_ok (f := onCtx (lookupRule env xin inPort tableId mayPacketIn)) rfl] at hr
  cases hrule : (lookupRule env xin inPort tableId mayPacketIn s.2).1 with
  | none =>
    dsimp only at hr
    rw [hrule] at hr
    obtain rfl := Except.ok.inj hr
    exact .of_undropped hs.bridge hs.lookups (hs.undropped he)
  | some rule =>
    dsimp only at hr
    rw [hrule, xlateRecursively, bind_ok (f := modifyCtx _) rfl] at hr
    have hscope : Scope xbridge (s.1, { (lookupRule env xin inPort tableId mayPacketIn s.2).2 with
        resubmits := s.2.resubmits + 1 }) :=
      .of_undropped hs.bridge (Nat.succ_le_of_lt hless) (hs.undropped he)
    exact ((hf rule.ofpacts).1 _ r hscope he hr).1

theorem leads_table (hI : ∀ f, inner = some f → Translates xbridge f) (inPort : BitVec 16)
    (tableId : BitVec 8) (mayPacketIn : Bool) :
    Leads xbridge false (xlateTableAction env xin inner inPort tableId mayPacketIn)
      fun _ => True := by
  cases inner with
  | none => exact Leads.stopTranslation
  | some f =>
    intro s r hs he hr
    rw [xlateTableAction, branch] at hr
    cases hwithin : withinLimits s.2 with
    | false =>
      rw [hwithin] at hr
      exact Leads.stopTranslation s r hs he hr
    | true =>
      rw [hwithin] at hr
      have hless : s.2.resubmits < 64 * 64 := by
        simp only [withinLimits, Bool.and_eq_true, decide_eq_true_eq] at hwithin
        exact hwithin.1.1
      obtain ⟨r', hr', heq⟩ := bracket_ok hr
      rw [heq]
      exact ⟨(scope_lookup (hI f rfl) hs he hless hr').of_stays ⟨rfl, rfl, rfl⟩ rfl, trivial⟩

theorem leads_group {f : List Ofpact → XlateM (Logged A) PUnit} (hf : Translates xbridge f)
    (group : Group) : Leads xbridge false (xlateGroup f group) fun _ => True := by
  cases group with
  | all buckets =>
    refine Leads.forM_until buckets (fun bucket _ => ?_) fun bucket _ => ?_
    · exact (hf _).1.bracket (fun _ => ⟨⟨rfl, rfl, rfl⟩, rfl⟩) fun _ _ => ⟨⟨rfl, rfl, rfl⟩, rfl⟩
    · exact (hf _).2.bracket (fun _ => ⟨⟨rfl, rfl, rfl⟩, rfl⟩) fun _ _ => ⟨⟨rfl, rfl, rfl⟩, rfl⟩
  | select live best =>
    refine (Leads.onCtx fun c => ?_).bind_running fun bucket => ?_
    · unfold selectBucket
      split <;> exact ⟨rfl, rfl, rfl⟩
    · cases bucket with
      | none => exact Leads.pure _ trivial
      | some bucket => exact (hf _).1
  | ff firstLive =>
    cases firstLive with
    | none => exact Leads.pure _ trivial
    | some bucket => exact (hf _).1

theorem leads_groupAction (hI : ∀ f, inner = some f → Translates xbridge f) (groupId : BitVec 32) :
    Leads xbridge false (xlateGroupAction env inner groupId) fun _ => True := by
  cases inner with
  | none => exact Leads.pure _ trivial
  | some f =>
    unfold xlateGroupAction
    refine Leads.branch fun (within, bridge) => ?_
    dsimp only
    split
    · split
      · exact Leads.pure _ trivial
      · exact (leads_group (hI f rfl) _).andReturn false
    · exact Leads.pure _ trivial

theorem leads_noteRan (o : Ofpact) :
    Leads xbridge false (noteRan o : XlateM (Logged A) PUnit) (· = false) := by
  intro s r hs he hr
  obtain rfl := Except.ok.inj hr
  refine ⟨.of_undropped hs.bridge hs.lookups fun apps odp hmem => ?_, he⟩
  rcases List.mem_cons.mp hmem with hmark | hold
  · cases hmark
  · exact hs.undropped he apps odp hold

/-- Nothing is executed once translation has been stopped. -/
theorem idle_list {fx : Effects (Logged A)} (ofpacts : List Ofpact) :
    Leads xbridge true (loggedList env xin fx inner ofpacts) (· = true) := by
  cases ofpacts with
  | nil => exact Leads.pure _ rfl
  | cons o rest => exact Leads.branch_exit (Leads.pure _ rfl)

theorem leads_localAct (act : Act) :
    Leads xbridge false (onCtx (localAct env xin act) : XlateM (Logged A) Bool) fun _ => True := by
  by_cases hact : act = .exit
  · rw [hact]
    intro s r hs he hr
    obtain rfl := Except.ok.inj hr
    exact ⟨.of_undropped hs.bridge hs.lookups (hs.undropped he), trivial⟩
  · exact (Leads.onCtx (localAct_stays hact)).mono fun _ _ => trivial

variable (hpatch : ∀ port xport, env.port xbridge port = some xport → xport.peer = none)
include hpatch

/-- An output does not lead anywhere else. -/
theorem leads_composeOutput (ofpPort : BitVec 16) :
    Leads xbridge false (composeOutputAction env xin inner ofpPort) (· = false) := by
  refine Leads.branch_bridge ?_
  cases hport : env.port xbridge ofpPort with
  | none => exact Leads.pure _ rfl
  | some xport =>
    dsimp only
    split
    · exact Leads.pure _ rfl
    · rw [hpatch ofpPort xport hport]
      exact Leads.modifyCtx (outputPort_stays xport)

theorem leads_flood (all : Bool) :
    Leads xbridge false (floodPackets env xin inner all) (· = false) := by
  refine Leads.branch_bridge (Leads.forM _ fun ofpPort _ => Leads.branch fun inPort => ?_)
  split
  · exact Leads.pure _ rfl
  split
  · exact leads_composeOutput hpatch ofpPort
  · exact Leads.pure _ rfl

theorem leads_normal {fx : Effects (Logged A)}
    (hlearn : ∀ bridge input view l r, fx.learn bridge input view l = .ok r → r.2.2 = l.2) :
    Leads xbridge false (xlateNormal env xin fx inner) (· = false) := by
  refine (Leads.onCtx fun _ => ⟨rfl, rfl, rfl⟩).bind_running fun (bridge, view) => ?_
  dsimp only
  cases env.normalIn bridge view with
  | none => exact Leads.pure _ rfl
  | some input =>
    refine (Leads.onState (hlearn bridge input view)).bind_running fun dst =>
      Leads.forM _ fun out _ => ?_
    exact (leads_composeOutput hpatch out.port).bracket (fun _ => ⟨⟨rfl, rfl, rfl⟩, rfl⟩)
      fun _ _ => ⟨⟨rfl, rfl, rfl⟩, rfl⟩

theorem leads_enqueueTo (priority : BitVec 32) (ofpPort : BitVec 16) :
    Leads xbridge false (enqueueTo env xin inner priority ofpPort) (· = false) :=
  (leads_composeOutput hpatch ofpPort).bracket (fun _ => ⟨⟨rfl, rfl, rfl⟩, rfl⟩)
    fun _ _ => ⟨⟨rfl, rfl, rfl⟩, rfl⟩

/-- The effects keep the log, but for drops, which stop translation. -/
structure Logs (xbridge : Nat) (fx : Effects (Logged A)) : Prop where
  gotoFp : ∀ b, Leads xbridge false (fx.gotoFp b) fun _ => True
  learn : ∀ bridge input view l r, fx.learn bridge input view l = .ok r → r.2.2 = l.2

variable {fx : Effects (Logged A)} (hfx : Logs xbridge fx)
  (hI : ∀ f, inner = some f → Translates xbridge f)
include hfx hI

theorem leads_output (port : BitVec 16) (mayPacketIn : Bool) :
    Leads xbridge false (xlateOutputAction env xin fx inner port mayPacketIn) fun _ => True := by
  have hcompose (port : BitVec 16) :
      Leads xbridge false (composeOutputAction env xin inner port) fun _ => True :=
    (leads_composeOutput hpatch port).mono fun _ _ => trivial
  refine Leads.branch fun inPort => ?_
  split
  · exact hcompose inPort
  split
  · exact leads_table hI inPort 0 mayPacketIn
  split
  · exact (leads_normal hpatch hfx.learn).mono fun _ _ => trivial
  split
  · exact (leads_flood hpatch false).mono fun _ _ => trivial
  split
  · exact (leads_flood hpatch true).mono fun _ _ => trivial
  split
  · exact (Leads.modifyCtx executeControllerAction_stays).mono fun _ _ => trivial
  split
  · exact Leads.pure _ trivial
  split
  · exact Leads.pure _ trivial
  · exact hcompose port

theorem leads_enqueue (port : BitVec 16) (queue : BitVec 32) :
    Leads xbridge false (xlateEnqueueAction env xin fx inner port queue) fun _ => True := by
  refine Leads.branch fun (bridge, inPort) => ?_
  dsimp only
  split
  · exact leads_output hpatch hfx hI port false
  split
  · exact (leads_enqueueTo hpatch _ inPort).mono fun _ _ => trivial
  split
  · exact Leads.pure _ trivial
  · exact (leads_enqueueTo hpatch _ port).mono fun _ _ => trivial

theorem leads_act (act : Act) :
    Leads xbridge false (xlateAct env xin fx inner act) fun _ => True := by
  cases act with
  | output port => exact (leads_output hpatch hfx hI port true).andReturn false
  | group groupId => exact leads_groupAction hI groupId
  | enqueue port queue => exact (leads_enqueue hpatch hfx hI port queue).andReturn false
  | resubmit inPort tableId =>
    exact Leads.andReturn (Leads.branch fun _ => leads_table hI _ _ false) false
  | compute operand =>
    refine (Leads.onCtx fun _ => ⟨rfl, rfl, rfl⟩).bind_running fun port => ?_
    cases port with
    | none => exact Leads.pure _ trivial
    | some port => exact (leads_output hpatch hfx hI port false).andReturn false
  | _ => exact leads_localAct _

theorem leads_ofpact (o : Ofpact) :
    Leads xbridge false (xlateOfpact env xin fx inner o) fun _ => True := by
  cases o with
  | action act => exact leads_act hpatch hfx hI act
  | clearActions | writeActions | writeMetadata =>
    refine Leads.andReturn (Leads.mono (Leads.modifyCtx ?_) fun _ _ => trivial) false
    exact fun _ => ⟨rfl, rfl, rfl⟩
  | meter => exact Leads.pure _ trivial
  | gotoTable tableId =>
    unfold xlateOfpact
    refine Leads.branch fun (current, inPort) => ?_
    dsimp only
    split
    · exact (leads_table hI inPort tableId true).andReturn false
    · intro s r _ _ hr
      cases hr
  | gotoFp b => exact (hfx.gotoFp b).andReturn false

theorem leads_list (ofpacts : List Ofpact) :
    Leads xbridge false (loggedList env xin fx inner ofpacts) fun _ => True := by
  induction ofpacts with
  | nil => exact Leads.pure _ trivial
  | cons o rest ih =>
    refine Leads.branch_exit ((leads_noteRan o).bind_running fun _ => ?_)
    refine (leads_ofpact hpatch hfx hI o).bind_any fun stop exit => ?_
    cases stop with
    | true => exact Leads.pure _ trivial
    | false =>
      cases exit with
      | false => exact ih
      | true => exact (idle_list rest).mono fun _ _ => trivial

omit hI in
theorem translates_actions (depth : Nat) :
    Translates xbridge (loggedActions env xin fx depth) := by
  induction depth with
  | zero =>
    refine fun ofpacts => ⟨leads_list hpatch hfx (fun f hf => ?_) ofpacts, idle_list ofpacts⟩
    cases hf
  | succ depth ih =>
    refine fun ofpacts => ⟨leads_list hpatch hfx (fun f hf => ?_) ofpacts, idle_list ofpacts⟩
    rw [← Option.some.inj hf]
    exact ih

omit hI in
theorem leads_arrived (ofpacts : List Ofpact) :
    Leads xbridge false (loggedArrived env xin fx ofpacts) fun _ => True := by
  have htranslates : Translates xbridge (loggedActions env xin fx maxResubmitRecursion) :=
    translates_actions hpatch hfx maxResubmitRecursion
  refine Leads.bind_any (Leads.branch fun lets => ?_) fun _ exit => ?_
  · cases lets with
    | true => exact (htranslates ofpacts).1
    | false => exact Leads.pure _ trivial
  · refine Leads.branch fun acts => ?_
    cases acts with
    | nil => exact Leads.pure _ trivial
    | cons act acts =>
      cases exit with
      | false => exact (htranslates _).1
      | true => exact (htranslates _).2.mono fun _ _ => trivial

end bridge

theorem logs_loggedEffects (xbridge : Nat) (undetermined : NoValue → Bool) (xin : XlateIn) :
    Logs xbridge (loggedEffects undetermined xin : Effects (Logged (Shared hash))) where
  gotoFp := by
    intro b s r hs he hr
    change loggedFp undetermined xin.tcpFlags b s = .ok r at hr
    rw [loggedFp] at hr
    cases hfp : xlateFp s.1.1.apps b s.2.flow xin.tcpFlags with
    | error fault =>
      rw [hfp] at hr
      cases hr
    | ok fpr =>
      rw [hfp] at hr
      obtain rfl := Except.ok.inj hr
      refine ⟨?_, trivial⟩
      dsimp only
      cases hstop : shouldStop undetermined fpr.drop with
      | false => exact .of_undropped hs.bridge hs.lookups (hs.undropped he)
      | true =>
        refine ⟨hs.bridge, hs.lookups, fun after shared odp before hlog => ?_⟩
        cases after with
        | nil =>
          obtain ⟨hmark, -⟩ := List.cons.inj hlog
          obtain ⟨rfl, rfl⟩ := Mark.dropped.inj hmark
          exact ⟨rfl, Bool.or_true _, rfl, rfl⟩
        | cons m after =>
          refine absurd ?_ (hs.undropped he shared odp)
          rw [(List.cons.inj hlog).2]
          exact List.mem_append_right after List.mem_cons_self
  learn := by
    intro bridge input view l r hr
    obtain rfl := Except.ok.inj hr
    rfl

/-! ## The output of in-band control -/

theorem outputPort_appends (xport : XPort) (c : XlateCtx) :
    ∃ acts, (outputPort xport c).odp = c.odp ++ acts := by
  have hq : (queueDscp xport c).odp = c.odp := by
    unfold queueDscp
    split <;> rfl
  unfold outputPort
  dsimp only
  split
  · exact ⟨[], hq.trans (List.append_nil _).symm⟩
  · obtain ⟨acts, hacts⟩ := (commitOdpActions_commits (queueDscp xport c)).appends
    refine ⟨acts ++ [.output xport.odpPort], ?_⟩
    change (commitOdpActions (queueDscp xport c)).odp ++ _ = _
    rw [hacts, hq, List.append_assoc]

/-- It is added to what is there, and nothing else changes. -/
theorem inBandOutput_ok {env : Env} {xin : XlateIn} {inner : Inner A} {s : A × XlateCtx}
    (hpatch : ∀ port xport, env.port s.2.xbridge port = some xport → xport.peer = none)
    {r : PUnit × A × XlateCtx} (hr : inBandOutput env xin inner s = .ok r) :
    r.2.1 = s.1 ∧ r.2.2.resubmits = s.2.resubmits ∧ ∃ inBand, r.2.2.odp = s.2.odp ++ inBand ∧
      (env.hasInBand s.2.xbridge = false → inBand = []) := by
  have hnothing : s.2.odp = s.2.odp ++ [] := (List.append_nil _).symm
  unfold inBandOutput branch at hr
  cases hdue : inBandDue env s.2 with
  | false =>
    rw [hdue] at hr
    obtain rfl := Except.ok.inj hr
    exact ⟨rfl, rfl, [], hnothing, fun _ => rfl⟩
  | true =>
    rw [hdue] at hr
    have hband : env.hasInBand s.2.xbridge = true := by
      unfold inBandDue at hdue
      simp only [Bool.and_eq_true] at hdue
      exact hdue.1.1
    unfold composeOutputAction branch at hr
    dsimp only at hr
    cases hport : env.port s.2.xbridge ofppLocal with
    | none =>
      rw [hport] at hr
      obtain rfl := Except.ok.inj hr
      exact ⟨rfl, rfl, [], hnothing, fun _ => rfl⟩
    | some xport =>
      rw [hport] at hr
      dsimp only at hr
      split at hr
      · obtain rfl := Except.ok.inj hr
        exact ⟨rfl, rfl, [], hnothing, fun _ => rfl⟩
      · rw [hpatch _ xport hport] at hr
        obtain rfl := Except.ok.inj hr
        obtain ⟨acts, hacts⟩ := outputPort_appends xport s.2
        refine ⟨rfl, (outputPort_stays xport s.2).resubmits, acts, hacts, fun h => ?_⟩
        rw [hband] at h
        cases h

/-! ## The result -/

theorem startActions_stays (env : Env) (xin : XlateIn) (c : XlateCtx) :
    Stays c (startActions env xin c).2 := by
  unfold startActions
  split
  · exact ⟨rfl, rfl, rfl⟩
  · split <;> exact ⟨rfl, rfl, rfl⟩

theorem hideFragPorts_stays (env : Env) (c : XlateCtx) : Stays c (hideFragPorts env c) := by
  unfold hideFragPorts
  split <;> exact ⟨rfl, rfl, rfl⟩

/-- Every packet is output on port 2 before it goes through the app, and again after. -/
def outputTwiceEnv : Env :=
  twoRulesEnv [] noMasks [.action (.output 2), .gotoFp 1, .action (.output 2)] []

def Mark.actions : Mark A → Option (List OdpAction)
  | .ran _ => none
  | .dropped _ odp => some odp

end Sdpa.Switch
