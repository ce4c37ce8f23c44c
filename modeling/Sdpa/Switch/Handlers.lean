import Sdpa.Switch.XlateSim

/-!
# One packet, two kinds of effects

Translations of the same input whose contexts stay equal, because the two kinds of effects
do the same to them. What they work on may differ. Effects that fail say that neither a
`goto_fp` nor `xlate_normal` is reached.
-/
namespace Sdpa.Switch

open Sdpa.Lib.Simulation

/-! ## Translation is never resumed -/

section exits

variable {env : Env} {xin : XlateIn}

/-- An action works on one bridge, looks nothing up and does not stop translation. -/
structure Stays (c c' : XlateCtx) : Prop where
  xbridge : c'.xbridge = c.xbridge
  resubmits : c'.resubmits = c.resubmits
  exit : c'.exit = c.exit

theorem Stays.trans {c c' c'' : XlateCtx} (h : Stays c c') (h' : Stays c' c'') : Stays c c'' :=
  ⟨h'.xbridge.trans h.xbridge, h'.resubmits.trans h.resubmits, h'.exit.trans h.exit⟩

theorem Commits.stays {c c' : XlateCtx} (h : Commits c c') : Stays c c' :=
  ⟨h.xbridge, by rw [h.rest], h.exit⟩

theorem executeControllerAction_stays (c : XlateCtx) :
    Stays c (executeControllerAction xin c) := by
  unfold executeControllerAction
  dsimp only
  split
  · exact ⟨(commitOdpActions_commits _).xbridge, (commitOdpActions_commits _).stays.resubmits,
      (commitOdpActions_commits _).exit⟩
  · exact ⟨rfl, rfl, rfl⟩

theorem outputPort_stays (xport : XPort) (c : XlateCtx) : Stays c (outputPort xport c) := by
  have hq : Stays c (queueDscp xport c) := by
    unfold queueDscp
    split <;> exact ⟨rfl, rfl, rfl⟩
  unfold outputPort
  dsimp only
  split
  · exact ⟨hq.xbridge, hq.resubmits, hq.exit⟩
  · have hc := hq.trans (commitOdpActions_commits (queueDscp xport c)).stays
    generalize commitOdpActions (queueDscp xport c) = out at hc ⊢
    exact ⟨hc.xbridge, hc.resubmits, hc.exit⟩

theorem composeDecTtl_stays (controllers : Nat) (c : XlateCtx) :
    Stays c (composeDecTtl xin controllers c).2 := by
  have hiterate (c : XlateCtx) : Stays c ((executeControllerAction xin)^[controllers] c) := by
    induction controllers generalizing c with
    | zero => exact ⟨rfl, rfl, rfl⟩
    | succ n ih => exact (executeControllerAction_stays c).trans (ih _)
  unfold composeDecTtl
  dsimp only
  split
  · split
    · exact ⟨rfl, rfl, rfl⟩
    · have hctl := hiterate (c.unwildcard .nwTtl)
      exact ⟨hctl.xbridge, hctl.resubmits, hctl.exit⟩
  · exact ⟨rfl, rfl, rfl⟩

theorem composeDecMplsTtlAction_stays (c : XlateCtx) :
    Stays c (composeDecMplsTtlAction xin c).2 := by
  unfold composeDecMplsTtlAction
  dsimp only
  split
  · exact ⟨rfl, rfl, rfl⟩
  · split
    · exact ⟨rfl, rfl, rfl⟩
    · have hctl : Stays _ (executeControllerAction xin (c.unwildcard .mplsLse)) :=
        executeControllerAction_stays _
      exact ⟨hctl.xbridge, hctl.resubmits, hctl.exit⟩

theorem localAct_stays {act : Act} (hact : act ≠ .exit) (c : XlateCtx) :
    Stays c (localAct env xin act c).2 := by
  cases act
  case exit => exact absurd rfl hact
  case controller => exact executeControllerAction_stays c
  case decTtl controllers => exact composeDecTtl_stays controllers c
  case decMplsTtl => exact composeDecMplsTtlAction_stays c
  case sample operand =>
    have hc := (commitOdpActions_commits c).stays
    unfold localAct
    dsimp only
    generalize commitOdpActions c = out at hc ⊢
    exact ⟨hc.xbridge, hc.resubmits, hc.exit⟩
  case pushMpls ethertype =>
    unfold localAct composeMplsPushAction
    dsimp only
    split
    · exact ⟨rfl, rfl, rfl⟩
    · split <;> exact ⟨rfl, rfl, rfl⟩
  case popMpls ethertype =>
    unfold localAct composeMplsPopAction
    dsimp only
    split
    · exact ⟨rfl, rfl, rfl⟩
    · split <;> exact ⟨rfl, rfl, rfl⟩
  case setMplsLabel | setMplsTc | setMplsTtl =>
    unfold localAct composeSetMplsAction
    dsimp only
    split
    · exact ⟨rfl, rfl, rfl⟩
    · split <;> exact ⟨rfl, rfl, rfl⟩
  case setL4SrcPort | setL4DstPort =>
    unfold localAct setL4Port
    dsimp only
    split <;> exact ⟨rfl, rfl, rfl⟩
  case setVlanVid | setVlanPcp =>
    unfold localAct
    simp only [setVlanVid, setVlanPcp]
    split <;> exact ⟨rfl, rfl, rfl⟩
  case learn operand =>
    unfold localAct xlateLearnAction
    dsimp only
    split <;> exact ⟨rfl, rfl, rfl⟩
  case setIpv4Src | setIpv4Dst | setIpDscp | setIpEcn | setIpTtl | setQueue =>
    unfold localAct
    dsimp only
    split <;> exact ⟨rfl, rfl, rfl⟩
  all_goals exact ⟨rfl, rfl, rfl⟩

theorem localAct_exit (act : Act) {c : XlateCtx} (h : c.exit = true) :
    (localAct env xin act c).2.exit = true := by
  by_cases hact : act = .exit
  · rw [hact]
    rfl
  · exact (localAct_stays hact c).exit.trans h

end exits

/-! ## Equal contexts -/

section equal

variable {A B α : Type}

/-- The contexts of the two translations are equal. What is said of the first one may
depend on whether it has been stopped. -/
def ctxSpec (good : A → Prop) (bad : Fault → Prop) (inv : A → Bool → Prop) (appRel : A → B → Prop) :
    XlateSpec A B where
  good s := good s.1
  bad := bad
  inv s := inv s.1 s.2.exit
  kept _ _ := True
  rel s t := appRel s.1 t.1 ∧ s.2 = t.2

variable {good : A → Prop} {bad : Fault → Prop} {inv : A → Bool → Prop} {appRel : A → B → Prop}

theorem step_ctx (hstop : ∀ a, inv a false → inv a true) {f : XlateCtx → α × XlateCtx}
    (hf : ∀ c, c.exit = true → (f c).2.exit = true) :
    Step (ctxSpec good bad inv appRel) f f := by
  refine ⟨fun s r hi _ hr => ?_, fun _ _ _ hg => hg, fun s t _ _ hr _ => ?_⟩
  · obtain rfl := Except.ok.inj hr
    refine ⟨?_, fun _ _ => trivial⟩
    change inv s.1 (f s.2).2.exit
    change inv s.1 s.2.exit at hi
    cases hexit : s.2.exit with
    | true =>
      rw [hexit] at hi
      rw [hf s.2 hexit]
      exact hi
    | false =>
      rw [hexit] at hi
      cases (f s.2).2.exit with
      | false => exact hi
      | true => exact hstop s.1 hi
  · obtain ⟨happ, hctx⟩ := hr
    exact ⟨congrArg (fun c => (f c).1) hctx, happ, congrArg (fun c => (f c).2) hctx⟩

theorem update_ctx (hstop : ∀ a, inv a false → inv a true) {f : XlateCtx → XlateCtx}
    (hf : ∀ c, c.exit = true → (f c).exit = true) :
    Update (ctxSpec good bad inv appRel) f f :=
  step_ctx hstop hf

theorem brackets_ctx {enter : XlateCtx → XlateCtx} {leave : XlateCtx → XlateCtx → XlateCtx}
    (hin : ∀ c, (enter c).exit = c.exit) (hout : ∀ c c', (leave c c').exit = c'.exit) :
    Brackets (ctxSpec good bad inv appRel) enter leave :=
  BracketRule.brackets {
    invIn := fun s hi => by
      change inv s.1 (enter s.2).exit
      rw [hin]
      exact hi
    invOut := fun s r _ hi => by
      change inv r.1 (leave s.2 r.2).exit
      rw [hout]
      exact hi
    keptIn := fun _ _ _ => trivial
    keptOut := fun _ _ _ _ => trivial
    goodIn := fun _ hg => hg
    goodOut := fun _ _ hg => hg
    relIn := fun s t hr => ⟨hr.1, congrArg enter hr.2⟩
    relOut := fun s t r r' hr hr' => ⟨hr'.1, by rw [hr.2, hr'.2]⟩ }

/-- Steps do not tell equal contexts apart. -/
theorem ctxSteps (env : Env) (xin : XlateIn) (hstop : ∀ a, inv a false → inv a true)
    (hassert : ∀ a, inv a false → ¬ bad .assertion → good a) :
    Steps env xin xin (ctxSpec good bad inv appRel) where
  control := fun _ _ hr => congrArg XlateCtx.control hr.2
  receive := fun _ _ _ peer _ _ _ _ hr => congrArg (fun c => mayReceive peer.config c.flow) hr.2
  arrives := fun _ _ hr => congrArg (arrives env) hr.2
  inBand := fun _ _ hr => congrArg (inBandDue env) hr.2
  assertion := fun s hi hexit hbad => hassert s.1 (hexit ▸ hi) hbad
  stop := update_ctx hstop fun _ _ => rfl
  resubmit := update_ctx hstop fun _ h => h
  clear := update_ctx hstop fun _ h => h
  write := fun _ => update_ctx hstop fun _ h => h
  metadata := fun _ _ => update_ctx hstop fun _ h => h
  lookup := fun _ _ _ => step_ctx hstop fun _ h => h
  localAct := fun act => step_ctx hstop fun _ h => localAct_exit act h
  compute := fun _ => step_ctx hstop fun _ h => h
  select := fun live best => step_ctx hstop fun c h => by
    unfold selectBucket
    split <;> exact h
  controller := update_ctx hstop fun c h => (executeControllerAction_stays c).exit.trans h
  output := fun _ _ xport _ _ => update_ctx hstop fun c h => (outputPort_stays xport c).exit.trans h
  normal := step_ctx hstop fun _ h => h
  normalSeen := fun _ _ => trivial
  outputNormal := by
    intro inner inner' _ _ _ out _ hcompose
    refine sim_everywhere (brackets_ctx ?_ ?_ _ _ (hcompose out.port))
    · exact fun _ => rfl
    · exact fun _ _ => rfl
  table := brackets_ctx (fun _ => rfl) (fun _ _ => rfl)
  peer := fun _ _ _ _ _ _ => brackets_ctx (fun _ => rfl) (fun _ _ => rfl)
  bucket := brackets_ctx (fun _ => rfl) (fun _ _ => rfl)
  queue := fun _ => brackets_ctx (fun _ => rfl) (fun _ _ => rfl)

theorem startActions_exit (env : Env) (xin : XlateIn) :
    (startActions env xin (initCtx xin)).2.exit = false := by
  unfold startActions
  split
  · rfl
  · split <;> rfl

theorem hideFragPorts_exit (env : Env) (c : XlateCtx) : (hideFragPorts env c).exit = c.exit := by
  unfold hideFragPorts
  split <;> rfl

/-- Effects that do the same to the context give the same translation. -/
theorem xlateActions_effects (env : Env) (xin : XlateIn) {fx : Effects A} {fx' : Effects B}
    (hfx : SimEffects (ctxSpec good bad inv appRel) fx fx')
    (hstop : ∀ a, inv a false → inv a true) (hassert : ∀ a, inv a false → ¬ bad .assertion → good a)
    {a : A} {b : B} (ha : inv a false) (hab : appRel a b) :
    match xlateActions env xin fx a with
    | .ok (a', out) => good a' → ∃ b', xlateActions env xin fx' b = .ok (b', out) ∧ appRel a' b'
    | .error e => ¬ bad e → xlateActions env xin fx' b = .error e := by
  have hexit : (hideFragPorts env (startActions env xin (initCtx xin)).2).exit = false :=
    (hideFragPorts_exit env _).trans (startActions_exit env xin)
  have hsim := (sim_xlateWhole (ctxSteps env xin hstop hassert) hfx
    (startActions env xin (initCtx xin)).1).sim
    (a, hideFragPorts env (startActions env xin (initCtx xin)).2)
    (b, hideFragPorts env (startActions env xin (initCtx xin)).2)
    (by
      change inv a _
      rw [hexit]
      exact ha) trivial ⟨hab, rfl⟩
  unfold xlateActions
  dsimp only
  by_cases hdrop : dropsFragment env xin = true
  · rw [if_pos hdrop, if_pos hdrop]
    exact fun _ => ⟨b, rfl, hab⟩
  rw [if_neg hdrop, if_neg hdrop]
  generalize xlateWhole env xin fx _ _ = r at hsim ⊢
  generalize xlateWhole env xin fx' _ _ = r' at hsim ⊢
  cases r with
  | error e =>
    intro hbad
    have hout := hsim hbad
    cases r' with
    | error e' => exact congrArg Except.error (hout : e = e').symm
    | ok r' => exact hout.elim
  | ok r =>
    intro hgood
    have hout := hsim hgood
    cases r' with
    | error e' => exact hout.elim
    | ok r' =>
      obtain ⟨_, happ, hctx⟩ := hout
      refine ⟨r'.2.1, ?_, happ⟩
      change Except.ok (r'.2.1, finish xin r'.2.2) = _
      rw [← hctx]

end equal

/-! ## Packets that change nothing -/

/-- Effects that are not to be reached. -/
def noEffects : Effects PUnit where
  gotoFp := fun _ => throw .assertion
  learn := fun _ _ _ _ => .error .assertion

/-- The translation comes to an end without reaching a `goto_fp` or what `xlate_normal`
learns. -/
def stateless (env : Env) (xin : XlateIn) : Bool :=
  match xlateActions env xin noEffects ⟨⟩ with
  | .ok _ => true
  | .error _ => false

theorem stateless_ok {env : Env} {xin : XlateIn} (h : stateless env xin = true) :
    ∃ out, xlateActions env xin noEffects ⟨⟩ = .ok (⟨⟩, out) := by
  unfold stateless at h
  split at h
  · rename_i r hr
    exact ⟨r.2, hr⟩
  · cases h

/-- Such a translation is the same whatever the state of the switch is, and leaves it alone. -/
theorem xlate_stateless {env : Env} {xin : XlateIn} {out : XlateOut}
    (h : xlateActions env xin noEffects ⟨⟩ = .ok (⟨⟩, out)) {hash : Key → BitVec 32}
    (undetermined : NoValue → Bool) (s : Shared hash) :
    xlate undetermined env xin s = .ok (s, out) := by
  have hfx : SimEffects (ctxSpec (fun _ : PUnit => True) (fun _ => True) (fun _ _ => True)
      fun _ s' => s' = s) noEffects (switchEffects undetermined xin) :=
    ⟨fun _ => Sim.excused trivial, fun _ _ _ => Sim.excused trivial⟩
  have hsame := xlateActions_effects env xin hfx (fun _ _ => trivial) (fun _ _ _ => trivial)
    (a := ⟨⟩) trivial rfl
  rw [h] at hsame
  obtain ⟨_, hrun, rfl⟩ := hsame trivial
  exact hrun

end Sdpa.Switch
