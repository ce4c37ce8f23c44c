import Sdpa.Lib.Simulation
import Sdpa.Switch.Xlate

/-!
# Two translations side by side

The translator of this switch run twice, on related contexts and with different
effects on what outlasts them. The recursion through tables, patch ports and groups is
followed here once and for all: what relates two translations is asked only of the
steps they are made of.
-/
namespace Sdpa.Switch

open Sdpa.Lib.Simulation

variable {A B α β : Type}

/-- What masks have been set for from some point on. -/
inductive Milestone
  | normal

/-- A relation of two translations, with facts that are kept from some point on. -/
abbrev XlateSpec (A B : Type) := Spec Fault (A × XlateCtx) (B × XlateCtx) Milestone

/-- No precondition. -/
def anywhere {S : Type} : S → Prop := fun _ => True

/-- What decides how translation goes on. -/
structure Control where
  xbridge : Nat
  inPort : BitVec 16
  tableId : BitVec 8
  exit : Bool
  withinLimits : Bool
  actionSet : List Act

def XlateCtx.control (c : XlateCtx) : Control :=
  ⟨c.xbridge, c.flow .inPort, c.tableId, c.exit, withinLimits c, c.actionSet⟩

/-- The steps are related from any related contexts. -/
abbrev Step (P : XlateSpec A B) (f f' : XlateCtx → α × XlateCtx) : Prop :=
  Sim P anywhere (onCtx f) (onCtx f')

abbrev Update (P : XlateSpec A B) (f f' : XlateCtx → XlateCtx) : Prop :=
  Sim P anywhere (modifyCtx f) (modifyCtx f')

/-- What is bracketed may be anything. -/
def Brackets (P : XlateSpec A B) (enter : XlateCtx → XlateCtx)
    (leave : XlateCtx → XlateCtx → XlateCtx) : Prop :=
  ∀ m m', Sim P anywhere m m' → Sim P anywhere (bracket enter leave m) (bracket enter leave m')

/-- What is asked of the steps of two translations. -/
structure Steps (env : Env) (xin xin' : XlateIn) (P : XlateSpec A B) : Prop where
  control : ∀ s t, P.rel s t → s.2.control = t.2.control
  receive : ∀ xbridge port xport peer, env.port xbridge port = some xport →
    xport.peer = some peer → ∀ s t, P.rel s t →
      mayReceive peer.config s.2.flow = mayReceive peer.config t.2.flow
  arrives : ∀ s t, P.rel s t → arrives env s.2 = arrives env t.2
  inBand : ∀ s t, P.rel s t → inBandDue env s.2 = inBandDue env t.2
  assertion : ∀ s, P.inv s → s.2.exit = false → ¬ P.bad .assertion → P.good s
  stop : Update P (fun c => { c with exit := true }) (fun c => { c with exit := true })
  resubmit : Update P (fun c => { c with resubmits := c.resubmits + 1 })
    (fun c => { c with resubmits := c.resubmits + 1 })
  clear : Update P (fun c => { c with actionSet := [] }) (fun c => { c with actionSet := [] })
  write : ∀ acts, Update P (fun c => { c with actionSet := c.actionSet ++ acts })
    (fun c => { c with actionSet := c.actionSet ++ acts })
  metadata : ∀ metadata mask, Update P (writeMetadata metadata mask) (writeMetadata metadata mask)
  lookup : ∀ inPort tableId mayPacketIn, Step P (lookupRule env xin inPort tableId mayPacketIn)
    (lookupRule env xin' inPort tableId mayPacketIn)
  localAct : ∀ act, Step P (localAct env xin act) (localAct env xin' act)
  compute : ∀ operand, Step P (computeRegisters env operand) (computeRegisters env operand)
  select : ∀ live best, Step P (selectBucket live best) (selectBucket live best)
  controller : Update P (executeControllerAction xin) (executeControllerAction xin')
  output : ∀ xbridge port xport, env.port xbridge port = some xport → xport.peer = none →
    Update P (outputPort xport) (outputPort xport)
  normal : Step P normalView normalView
  normalSeen : ∀ s, P.inv s → P.kept .normal (s.1, (normalView s.2).2)
  outputNormal : ∀ inner inner' xbridge input dst out, out ∈ env.normal xbridge input dst →
    (∀ port, Sim P anywhere (composeOutputAction env xin inner port)
      (composeOutputAction env xin' inner' port)) →
    Sim P (fun s => s.2.xbridge = xbridge ∧ P.kept .normal s) (outputNormal env xin inner out)
      (outputNormal env xin' inner' out)
  table : Brackets P id (fun old c => { c with tableId := old.tableId })
  peer : ∀ xbridge port xport peer, env.port xbridge port = some xport → xport.peer = some peer →
    Brackets P (enterPeer peer) (fun old c => { c with flow := old.flow, xbridge := old.xbridge })
  bucket : Brackets P id (fun old c => { c with flow := old.flow })
  queue : ∀ priority, Brackets P (fun c => c.put .skbPriority priority)
    (fun old c => c.put .skbPriority (old.flow .skbPriority))

/-- What is asked of the effects of two translations. A list of actions is only followed
while translation has not been stopped. -/
structure SimEffects (P : XlateSpec A B) (fx : Effects A) (fx' : Effects B) : Prop where
  gotoFp : ∀ b, Sim P (fun s => s.2.exit = false) (fx.gotoFp b) (fx'.gotoFp b)
  learn : ∀ xbridge input view, Sim P anywhere (onState (fx.learn xbridge input view))
    (onState (fx'.learn xbridge input view))

/-! ## Rules for the monad of translation -/

section rules

variable {P : XlateSpec A B} {pre : A × XlateCtx → Prop}

theorem sim_branchOn {v : XlateCtx → β} {k : β → XlateM A α} {k' : β → XlateM B α}
    (hv : ∀ s t, P.rel s t → v s.2 = v t.2)
    (h : ∀ b, Sim P (fun s => pre s ∧ v s.2 = b) (k b) (k' b)) :
    Sim P pre (branch v k) (branch v k') :=
  Sim.dispatch (v := fun s : A × XlateCtx => v s.2) (w := fun t : B × XlateCtx => v t.2)
    (f := k) (g := k') hv h

theorem sim_branch {v : XlateCtx → β} {k : β → XlateM A α} {k' : β → XlateM B α}
    (hv : ∀ s t, P.rel s t → v s.2 = v t.2) (h : ∀ b, Sim P pre (k b) (k' b)) :
    Sim P pre (branch v k) (branch v k') :=
  sim_branchOn hv fun b => (h b).mono fun _ hp => hp.1

/-- The second part asks for nothing. -/
theorem sim_andThen {f : XlateM A α} {g : XlateM B α} {f' : α → XlateM A β} {g' : α → XlateM B β}
    (h : Sim P pre f g) (h' : ∀ a, Sim P anywhere (f' a) (g' a)) :
    Sim P pre (f >>= f') (g >>= g') :=
  h.bind (Q := fun _ => anywhere) h' fun _ _ _ _ _ => trivial

theorem sim_forEach {f : β → XlateM A PUnit} {g : β → XlateM B PUnit} (l : List β)
    (h : ∀ b ∈ l, Sim P anywhere (f b) (g b)) : Sim P anywhere (l.forM f) (l.forM g) :=
  Sim.forM l h fun _ _ _ _ _ _ _ => trivial

theorem sim_everywhere {f : XlateM A α} {g : XlateM B α} (h : Sim P anywhere f g) :
    Sim P pre f g := h.mono fun _ _ => trivial

/-- What a bracket has to respect on its way in and out. -/
structure BracketRule (P : XlateSpec A B) (enter : XlateCtx → XlateCtx)
    (leave : XlateCtx → XlateCtx → XlateCtx) : Prop where
  invIn : ∀ s, P.inv s → P.inv (s.1, enter s.2)
  invOut : ∀ s r, P.inv s → P.inv r → P.inv (r.1, leave s.2 r.2)
  keptIn : ∀ i s, P.kept i s → P.kept i (s.1, enter s.2)
  keptOut : ∀ i (s r : A × XlateCtx), P.kept i r → P.kept i (r.1, leave s.2 r.2)
  goodIn : ∀ s, P.good (s.1, enter s.2) → P.good s
  goodOut : ∀ s r : A × XlateCtx, P.good (r.1, leave s.2 r.2) → P.good r
  relIn : ∀ s t, P.rel s t → P.rel (s.1, enter s.2) (t.1, enter t.2)
  relOut : ∀ s t r r', P.rel s t → P.rel r r' →
    P.rel (r.1, leave s.2 r.2) (r'.1, leave t.2 r'.2)

theorem bracket_ok {enter : XlateCtx → XlateCtx} {leave : XlateCtx → XlateCtx → XlateCtx}
    {m : XlateM A PUnit} {s : A × XlateCtx} {r : PUnit × A × XlateCtx}
    (h : bracket enter leave m s = .ok r) :
    ∃ r', m (s.1, enter s.2) = .ok r' ∧ r.2 = (r'.2.1, leave s.2 r'.2.2) := by
  unfold bracket at h
  cases hm : m (s.1, enter s.2) with
  | error e =>
    rw [hm] at h
    cases h
  | ok r' =>
    rw [hm] at h
    exact ⟨r', rfl, (congrArg Prod.snd (Except.ok.inj h)).symm⟩

theorem bracket_eq {enter : XlateCtx → XlateCtx} {leave : XlateCtx → XlateCtx → XlateCtx}
    {m : XlateM A PUnit} {s : A × XlateCtx} {r : PUnit × A × XlateCtx}
    (h : m (s.1, enter s.2) = .ok r) :
    bracket enter leave m s = .ok (⟨⟩, r.2.1, leave s.2 r.2.2) := by
  unfold bracket
  rw [h]
  rfl

theorem bracket_error {enter : XlateCtx → XlateCtx} {leave : XlateCtx → XlateCtx → XlateCtx}
    {m : XlateM A PUnit} {s : A × XlateCtx} {e : Fault} (h : m (s.1, enter s.2) = .error e) :
    bracket enter leave m s = .error e := by
  unfold bracket
  rw [h]
  rfl

theorem BracketRule.brackets {enter : XlateCtx → XlateCtx} {leave : XlateCtx → XlateCtx → XlateCtx}
    (hB : BracketRule P enter leave) : Brackets P enter leave := by
  intro m m' h
  refine ⟨fun s r hi _ hr => ?_, fun s hi _ hg => ?_, fun s t hi _ hr hg => ?_⟩
  · obtain ⟨r', hr', heq⟩ := bracket_ok hr
    obtain ⟨hi', hk⟩ := h.keep _ r' (hB.invIn s hi) trivial hr'
    rw [heq]
    exact ⟨hB.invOut s r'.2 hi hi', fun i hs => hB.keptOut i s r'.2 (hk i (hB.keptIn i s hs))⟩
  · apply hB.goodIn s
    apply h.back _ (hB.invIn s hi) trivial
    cases hm : m (s.1, enter s.2) with
    | error e =>
      rw [bracket_error hm] at hg
      exact hg
    | ok r =>
      rw [bracket_eq hm] at hg
      exact hB.goodOut s r.2 hg
  · cases hm : m (s.1, enter s.2) with
    | error e =>
      rw [bracket_error hm] at hg ⊢
      have hout := h.sim _ _ (hB.invIn s hi) trivial (hB.relIn s t hr) (by rw [hm]; exact hg)
      rw [hm] at hout
      cases hm' : m' (t.1, enter t.2) with
      | error e' =>
        rw [hm'] at hout
        rw [bracket_error hm']
        exact hout
      | ok r' =>
        rw [hm'] at hout
        exact hout.elim
    | ok r =>
      rw [bracket_eq hm] at hg ⊢
      have hout := h.sim _ _ (hB.invIn s hi) trivial (hB.relIn s t hr)
        (by rw [hm]; exact hB.goodOut s r.2 hg)
      rw [hm] at hout
      cases hm' : m' (t.1, enter t.2) with
      | error e' =>
        rw [hm'] at hout
        exact hout.elim
      | ok r' =>
        rw [hm'] at hout
        rw [bracket_eq hm']
        exact ⟨rfl, hB.relOut s t r.2 r'.2 hr hout.2⟩

end rules

/-! ## Translations -/

/-- Nested lists of actions are translated alike, or the limit is reached in both. -/
inductive InnerSim (P : XlateSpec A B) : Inner A → Inner B → Prop
  | limit : InnerSim P none none
  | nested {f f'} (h : ∀ ofpacts, Sim P anywhere (f ofpacts) (f' ofpacts)) :
      InnerSim P (some f) (some f')

/-! A packet that comes back from a patch port is on the bridge it left. -/

theorem outputPort_xbridge (xport : XPort) (c : XlateCtx) :
    (outputPort xport c).xbridge = c.xbridge := by
  have hq : (queueDscp xport c).xbridge = c.xbridge := by
    unfold queueDscp
    split <;> rfl
  unfold outputPort
  dsimp only
  split
  · exact hq
  · have hc := commitOdpActions_commits (queueDscp xport c)
    generalize commitOdpActions (queueDscp xport c) = out at hc ⊢
    exact hc.xbridge.trans hq

theorem composeOutputAction_xbridge {env : Env} {xin : XlateIn} {inner : Inner A}
    {port : BitVec 16} {s : A × XlateCtx} {r : PUnit × A × XlateCtx}
    (h : composeOutputAction env xin inner port s = .ok r) : r.2.2.xbridge = s.2.xbridge := by
  unfold composeOutputAction branch at h
  cases hport : env.port s.2.xbridge port with
  | none =>
    simp only [hport] at h
    obtain rfl := Except.ok.inj h
    rfl
  | some xport =>
    simp only [hport] at h
    split at h
    · obtain rfl := Except.ok.inj h
      rfl
    cases hpeer : xport.peer with
    | none =>
      simp only [hpeer] at h
      obtain rfl := Except.ok.inj h
      exact outputPort_xbridge xport s.2
    | some peer =>
      simp only [hpeer] at h
      obtain ⟨r', _, hr⟩ := bracket_ok h
      rw [hr]

theorem outputNormal_xbridge {env : Env} {xin : XlateIn} {inner : Inner A}
    {out : NormalOutput} {s : A × XlateCtx} {r : PUnit × A × XlateCtx}
    (h : outputNormal env xin inner out s = .ok r) : r.2.2.xbridge = s.2.xbridge := by
  obtain ⟨r', hr', hr⟩ := bracket_ok h
  rw [hr]
  exact (composeOutputAction_xbridge hr' :)

theorem onState_ok {f : A → Except Fault (α × A)} {s : A × XlateCtx} {r : α × A × XlateCtx}
    (h : onState f s = .ok r) : ∃ r', f s.1 = .ok r' ∧ r = (r'.1, r'.2, s.2) := by
  unfold onState at h
  cases hf : f s.1 with
  | error e =>
    rw [hf] at h
    cases h
  | ok r' =>
    rw [hf] at h
    exact ⟨r', rfl, (Except.ok.inj h).symm⟩

section steps

variable {env : Env} {xin xin' : XlateIn} {P : XlateSpec A B} (hS : Steps env xin xin' P)
include hS

variable {inner : Inner A} {inner' : Inner B}

theorem sim_xlateRecursively {f : List Ofpact → XlateM A PUnit} {f' : List Ofpact → XlateM B PUnit}
    (h : ∀ ofpacts, Sim P anywhere (f ofpacts) (f' ofpacts)) (rule : Option Rule) :
    Sim P anywhere (xlateRecursively f rule) (xlateRecursively f' rule) := by
  cases rule with
  | none => exact Sim.pure _
  | some rule => exact sim_andThen hS.resubmit fun _ => h rule.ofpacts

theorem sim_xlateTableAction (hI : InnerSim P inner inner') (inPort : BitVec 16)
    (tableId : BitVec 8) (mayPacketIn : Bool) :
    Sim P anywhere (xlateTableAction env xin inner inPort tableId mayPacketIn)
      (xlateTableAction env xin' inner' inPort tableId mayPacketIn) := by
  cases hI with
  | limit => exact hS.stop
  | nested h =>
    unfold xlateTableAction
    refine sim_branch (v := withinLimits)
      (fun s t hr => congrArg Control.withinLimits (hS.control s t hr)) fun within => ?_
    cases within with
    | false => exact hS.stop
    | true =>
      exact hS.table _ _ (sim_andThen (hS.lookup inPort tableId mayPacketIn)
        fun rule => sim_xlateRecursively hS h rule)

theorem sim_composeOutputAction (hI : InnerSim P inner inner') (ofpPort : BitVec 16) :
    Sim P anywhere (composeOutputAction env xin inner ofpPort)
      (composeOutputAction env xin' inner' ofpPort) := by
  refine sim_branch (fun s t hr => congrArg Control.xbridge (hS.control s t hr)) fun xbridge => ?_
  cases hport : env.port xbridge ofpPort with
  | none => exact Sim.pure _
  | some xport =>
    dsimp only
    split
    · exact Sim.pure _
    cases hpeer : xport.peer with
    | none => exact hS.output xbridge ofpPort xport hport hpeer
    | some peer =>
      refine hS.peer xbridge ofpPort xport peer hport hpeer _ _
        (sim_branch (hS.receive xbridge ofpPort xport peer hport hpeer) fun
          | true => sim_xlateTableAction hS hI peer.ofpPort 0 true
          | false => Sim.pure _)

theorem sim_floodPackets (hI : InnerSim P inner inner') (all : Bool) :
    Sim P anywhere (floodPackets env xin inner all) (floodPackets env xin' inner' all) := by
  refine sim_branch (fun s t hr => congrArg Control.xbridge (hS.control s t hr)) fun xbridge => ?_
  refine sim_forEach _ fun ofpPort _ => ?_
  refine sim_branch (fun s t hr => congrArg Control.inPort (hS.control s t hr)) fun inPort => ?_
  split
  · exact Sim.pure _
  split
  · exact sim_composeOutputAction hS hI ofpPort
  · exact Sim.pure _

/-- The outputs are those of one bridge, and every output leaves the packet there. -/
theorem sim_outputsNormal (hI : InnerSim P inner inner') (xbridge : Nat) (input : NormalIn)
    (dst : Option Nat) :
    Sim P (fun s => s.2.xbridge = xbridge ∧ P.kept .normal s)
      ((env.normal xbridge input dst).forM (outputNormal env xin inner))
      ((env.normal xbridge input dst).forM (outputNormal env xin' inner')) := by
  have hout : ∀ out ∈ env.normal xbridge input dst,
      Sim P (fun s => s.2.xbridge = xbridge ∧ P.kept .normal s)
        (outputNormal env xin inner out) (outputNormal env xin' inner' out) := fun out hmem =>
    hS.outputNormal inner inner' xbridge input dst out hmem (sim_composeOutputAction hS hI)
  refine Sim.forM _ hout fun out hmem s r hi hs hr => ?_
  exact ⟨(outputNormal_xbridge hr).trans hs.1, ((hout out hmem).keep s r hi hs hr).2 _ hs.2⟩

section effects

variable {fx : Effects A} {fx' : Effects B} (hfx : SimEffects P fx fx')
include hfx

theorem sim_xlateNormal (hI : InnerSim P inner inner') :
    Sim P anywhere (xlateNormal env xin fx inner) (xlateNormal env xin' fx' inner') := by
  refine hS.normal.bind (Q := fun view s => s.2.xbridge = view.1 ∧ P.kept .normal s)
    (fun (xbridge, view) => ?_) ?_
  · dsimp only
    cases env.normalIn xbridge view with
    | none => exact Sim.pure _
    | some input =>
      have hlearn := hfx.learn xbridge input view
      refine (sim_everywhere hlearn).bind (Q := fun _ s => s.2.xbridge = xbridge ∧ P.kept .normal s)
        (fun dst => sim_outputsNormal hS hI xbridge input dst) ?_
      -- what is learned is not part of the context
      intro s r hi hs hr
      obtain ⟨r', hr', rfl⟩ := onState_ok hr
      exact ⟨hs.1, (hlearn.keep s _ hi trivial hr).2 _ hs.2⟩
  · intro s r hi _ hr
    obtain rfl := Except.ok.inj hr
    exact ⟨rfl, hS.normalSeen s hi⟩

theorem sim_xlateOutputAction (hI : InnerSim P inner inner') (port : BitVec 16)
    (mayPacketIn : Bool) :
    Sim P anywhere (xlateOutputAction env xin fx inner port mayPacketIn)
      (xlateOutputAction env xin' fx' inner' port mayPacketIn) := by
  refine sim_branch (fun s t hr => congrArg Control.inPort (hS.control s t hr)) fun inPort => ?_
  split
  · exact sim_composeOutputAction hS hI inPort
  split
  · exact sim_xlateTableAction hS hI inPort 0 mayPacketIn
  split
  · exact sim_xlateNormal hS hfx hI
  split
  · exact sim_floodPackets hS hI false
  split
  · exact sim_floodPackets hS hI true
  split
  · exact hS.controller
  split
  · exact Sim.pure _
  split
  · exact Sim.pure _
  · exact sim_composeOutputAction hS hI port

omit hfx in
theorem sim_enqueueTo (hI : InnerSim P inner inner') (priority : BitVec 32) (ofpPort : BitVec 16) :
    Sim P anywhere (enqueueTo env xin inner priority ofpPort)
      (enqueueTo env xin' inner' priority ofpPort) :=
  hS.queue priority _ _ (sim_composeOutputAction hS hI ofpPort)

theorem sim_xlateEnqueueAction (hI : InnerSim P inner inner') (port : BitVec 16)
    (queue : BitVec 32) :
    Sim P anywhere (xlateEnqueueAction env xin fx inner port queue)
      (xlateEnqueueAction env xin' fx' inner' port queue) := by
  refine sim_branch (v := fun c => (c.xbridge, c.flow .inPort))
    (fun s t hr => congrArg (fun k => (k.xbridge, k.inPort)) (hS.control s t hr))
    fun (xbridge, inPort) => ?_
  cases hq : env.queueToPriority xbridge queue with
  | none =>
    simp only [hq]
    exact sim_xlateOutputAction hS hfx hI port false
  | some priority =>
    simp only [hq]
    split
    · exact sim_enqueueTo hS hI priority inPort
    split
    · exact Sim.pure _
    · exact sim_enqueueTo hS hI priority port

omit hS hfx in
theorem sim_xlateGroupBucket {f : List Ofpact → XlateM A PUnit} {f' : List Ofpact → XlateM B PUnit}
    (h : ∀ ofpacts, Sim P anywhere (f ofpacts) (f' ofpacts)) (bucket : List Act) :
    Sim P anywhere (xlateGroupBucket f bucket) (xlateGroupBucket f' bucket) := h _

omit hfx in
theorem sim_xlateGroup {f : List Ofpact → XlateM A PUnit} {f' : List Ofpact → XlateM B PUnit}
    (h : ∀ ofpacts, Sim P anywhere (f ofpacts) (f' ofpacts)) (group : Group) :
    Sim P anywhere (xlateGroup f group) (xlateGroup f' group) := by
  cases group with
  | all buckets =>
    exact sim_forEach buckets fun bucket _ => hS.bucket _ _ (sim_xlateGroupBucket h bucket)
  | select live best =>
    refine sim_andThen (hS.select live best) fun bucket => ?_
    cases bucket with
    | none => exact Sim.pure _
    | some bucket => exact sim_xlateGroupBucket h bucket
  | ff firstLive =>
    cases firstLive with
    | none => exact Sim.pure _
    | some bucket => exact sim_xlateGroupBucket h bucket

omit hfx in
theorem sim_xlateGroupAction (hI : InnerSim P inner inner') (groupId : BitVec 32) :
    Sim P anywhere (xlateGroupAction env inner groupId) (xlateGroupAction env inner' groupId) := by
  cases hI with
  | limit => exact Sim.pure _
  | nested h =>
    unfold xlateGroupAction
    refine sim_branch (v := fun c => (withinLimits c, c.xbridge))
      (fun s t hr => congrArg (fun k => (k.withinLimits, k.xbridge)) (hS.control s t hr))
      fun (within, xbridge) => ?_
    cases within with
    | false => exact Sim.pure _
    | true =>
      simp only [if_true]
      split
      · exact Sim.pure _
      · exact sim_andThen (sim_xlateGroup hS h _) fun _ => Sim.pure _

omit hfx in
theorem sim_xlateOfpactResubmit (hI : InnerSim P inner inner') (inPort : BitVec 16)
    (tableId : BitVec 8) :
    Sim P anywhere (xlateOfpactResubmit env xin inner inPort tableId)
      (xlateOfpactResubmit env xin' inner' inPort tableId) :=
  sim_branch (v := fun c => (c.flow .inPort, c.tableId))
    (fun s t hr => congrArg (fun k => (k.inPort, k.tableId)) (hS.control s t hr))
    fun _ => sim_xlateTableAction hS hI _ _ false

theorem sim_xlateAct (hI : InnerSim P inner inner') (act : Act) :
    Sim P anywhere (xlateAct env xin fx inner act) (xlateAct env xin' fx' inner' act) := by
  cases act with
  | output port => exact sim_andThen (sim_xlateOutputAction hS hfx hI port true) fun _ => Sim.pure _
  | group groupId => exact sim_xlateGroupAction hS hI groupId
  | enqueue port queue =>
    exact sim_andThen (sim_xlateEnqueueAction hS hfx hI port queue) fun _ => Sim.pure _
  | resubmit inPort tableId =>
    exact sim_andThen (sim_xlateOfpactResubmit hS hI inPort tableId) fun _ => Sim.pure _
  | compute operand =>
    refine sim_andThen (hS.compute operand) fun port => ?_
    cases port with
    | none => exact Sim.pure _
    | some port => exact sim_andThen (sim_xlateOutputAction hS hfx hI port false) fun _ => Sim.pure _
  | _ => exact hS.localAct _

theorem sim_xlateOfpact (hI : InnerSim P inner inner') (o : Ofpact) :
    Sim P (fun s => s.2.exit = false) (xlateOfpact env xin fx inner o)
      (xlateOfpact env xin' fx' inner' o) := by
  cases o with
  | action act => exact sim_everywhere (sim_xlateAct hS hfx hI act)
  | clearActions => exact sim_andThen (sim_everywhere hS.clear) fun _ => Sim.pure _
  | writeActions acts => exact sim_andThen (sim_everywhere (hS.write acts)) fun _ => Sim.pure _
  | writeMetadata metadata mask =>
    exact sim_andThen (sim_everywhere (hS.metadata metadata mask)) fun _ => Sim.pure _
  | meter => exact Sim.pure _
  | gotoTable tableId =>
    unfold xlateOfpact
    refine sim_branch (v := fun c => (c.tableId, c.flow .inPort))
      (fun s t hr => congrArg (fun k => (k.tableId, k.inPort)) (hS.control s t hr))
      fun (current, inPort) => ?_
    dsimp only
    split
    · exact sim_andThen (sim_everywhere (sim_xlateTableAction hS hI inPort tableId true))
        fun _ => Sim.pure _
    · exact Sim.throw fun s hi hs => hS.assertion s hi hs
  | gotoFp b => exact sim_andThen (hfx.gotoFp b) fun _ => Sim.pure _

theorem sim_xlateList (hI : InnerSim P inner inner') (ofpacts : List Ofpact) :
    Sim P anywhere (xlateList env xin fx inner ofpacts)
      (xlateList env xin' fx' inner' ofpacts) := by
  induction ofpacts with
  | nil => exact Sim.pure _
  | cons o rest ih =>
    refine sim_branchOn (v := XlateCtx.exit)
      (fun s t hr => congrArg Control.exit (hS.control s t hr)) fun exit => ?_
    cases exit with
    | true => exact Sim.pure _
    | false =>
      refine (sim_andThen (sim_xlateOfpact hS hfx hI o) fun stop => ?_).mono fun s hs => hs.2
      cases stop with
      | true => exact Sim.pure _
      | false => exact ih

/-- Translations of one list of actions are related if their steps and their effects are. -/
theorem sim_doXlateActions (depth : Nat) (ofpacts : List Ofpact) :
    Sim P anywhere (doXlateActions env xin fx depth ofpacts)
      (doXlateActions env xin' fx' depth ofpacts) := by
  induction depth generalizing ofpacts with
  | zero => exact sim_xlateList hS hfx .limit ofpacts
  | succ depth ih => exact sim_xlateList hS hfx (.nested ih) ofpacts

theorem sim_xlateActionSet (depth : Nat) :
    Sim P anywhere (xlateActionSet (doXlateActions env xin fx depth))
      (xlateActionSet (doXlateActions env xin' fx' depth)) := by
  refine sim_branch (fun s t hr => congrArg Control.actionSet (hS.control s t hr)) fun acts => ?_
  cases acts with
  | nil => exact Sim.pure _
  | cons act acts => exact sim_doXlateActions hS hfx depth _

theorem sim_xlateArrived (ofpacts : List Ofpact) :
    Sim P anywhere (xlateArrived env xin fx ofpacts) (xlateArrived env xin' fx' ofpacts) := by
  refine sim_andThen (sim_branch (v := arrives env) hS.arrives fun lets => ?_) fun _ =>
    sim_xlateActionSet hS hfx maxResubmitRecursion
  cases lets with
  | true => exact sim_doXlateActions hS hfx maxResubmitRecursion ofpacts
  | false => exact Sim.pure _

omit hfx in
theorem sim_inBandOutput (hI : InnerSim P inner inner') :
    Sim P anywhere (inBandOutput env xin inner) (inBandOutput env xin' inner') := by
  refine sim_branch (v := inBandDue env) hS.inBand fun due => ?_
  cases due with
  | true => exact sim_composeOutputAction hS hI ofppLocal
  | false => exact Sim.pure _

/-- Whole translations are related, from what the lookup has found on. -/
theorem sim_xlateWhole (ofpacts : List Ofpact) :
    Sim P anywhere (xlateWhole env xin fx ofpacts) (xlateWhole env xin' fx' ofpacts) :=
  sim_andThen (sim_xlateArrived hS hfx ofpacts) fun _ =>
    sim_inBandOutput hS (.nested (sim_doXlateActions hS hfx _))

end effects

end steps

end Sdpa.Switch
