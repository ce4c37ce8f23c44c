import Sdpa.Switch.AppFields
import Sdpa.Switch.Handlers
import Sdpa.Switch.Isolation
import Sdpa.Switch.TwinXlate

/-!
# Cached translations

`handle_upcalls` of `ofproto/ofproto-dpif-upcall.c` caches the actions it has
translated for a packet, to be used for every packet that agrees with it on the
masks. A `goto_fp` decides upon fields of the packet without un-wildcarding them.
The masks are right if the lookups and actions on the way there do that in its place.
-/
namespace Sdpa.Switch

open Sdpa.Lib.Masks Sdpa.Lib.Simulation

/-! ## Packets -/

def ethTypeRarp : BitVec 16 := htons 0x8035
def flowNwFragLater : BitVec 8 := 2

/-- The Ethernet types whose network header is parsed. -/
def hasNetwork (fl : Flow) : Bool :=
  isIpAny fl || fl .dlType == ethTypeArp || fl .dlType == ethTypeRarp

/-- A flow as `flow_extract` leaves it: fields of headers that were not parsed are zero. -/
structure Extracted (fl : Flow) : Prop where
  metadata : fl .metadata = 0
  regs : ∀ i, fl (.reg i) = 0
  untagged : fl .vlanTci &&& vlanCfi = 0 → fl .vlanTci = 0
  proto : hasNetwork fl = false → fl .nwProto = 0
  frag : isIpAny fl = false → fl .nwFrag = 0
  ports : isIpAny fl = false → NoPorts fl
  later : fl .nwFrag &&& flowNwFragLater ≠ 0 → NoPorts fl
  icmp : isIcmp fl = true → Within (fl .tpSrc) (htons 0xff) ∧ Within (fl .tpDst) (htons 0xff)

/-- The headers of the packet are complete, and none of protocol or ports is zero. -/
structure Complete (fl : Flow) : Prop where
  proto : hasNetwork fl = true → fl .nwProto ≠ 0
  ports : isIpAny fl = true → hasPorts (fl .nwProto) → NoPorts fl →
    fl .nwFrag &&& flowNwFragLater ≠ 0

/-- A miss, as `handle_upcalls` has it translated. -/
def missIn (xbridge : Nat) (fl : Flow) : XlateIn where
  xbridge := xbridge
  flow := fl
  tcpFlags := htons (fl .tcpFlags)
  packet := false
  mayLearn := true
  ofpacts := none
  rule := none
  skipWildcards := false

/-! ## The start of a translation -/

section start

variable {W p q : Flow}

theorem initMasks_full (fl : Flow) :
    (initMasks fl).Full .inPort ∧ (initMasks fl).Full .skbPriority ∧ (initMasks fl).Full .dlType := by
  unfold initMasks lookupMasks
  split <;> exact ⟨by decide, by decide, by decide⟩

theorem initMasks_ports (fl : Flow) : ∀ f ∈ portFields, initMasks fl f = 0 := by
  unfold initMasks lookupMasks
  split <;> decide

theorem initMasks_frag {fl : Flow} (h : isIpAny fl = true) :
    initMasks fl .nwFrag = flowNwFragMask := by
  unfold initMasks lookupMasks
  rw [if_pos h]
  decide

theorem isIpAny_congr (h : p .dlType = q .dlType) : isIpAny p = isIpAny q := by
  rw [isIpAny, isIpAny, h]

theorem Pair.of_extracted (hinit : (initMasks p).Within W) (hag : W.AgreeOn p q)
    (hp : Extracted p) (hc : Complete p) (hq : Extracted q) : Pair W p q := by
  obtain ⟨hin, hprio, hdl⟩ := initMasks_full p
  have hdlW : W.Full .dlType := hinit.full hdl
  have htype : p .dlType = q .dlType := (hag .dlType).eq hdlW
  have hip := isIpAny_congr htype
  have hfragW (h : isIpAny p = true) : Within flowNwFragMask (W .nwFrag) := by
    rw [← initMasks_frag h]
    exact hinit .nwFrag
  refine ⟨hinit.full hin, hinit.full hprio, hdlW, ?_, ?_, ?_, hq.untagged⟩
  · cases h : isIpAny p with
    | true => exact .inl (hfragW h)
    | false => exact .inr ((hp.frag h).trans (hq.frag (hip ▸ h)).symm)
  · intro hz
    refine hq.proto ?_
    have hnet : hasNetwork p = hasNetwork q := by rw [hasNetwork, hasNetwork, hip, htype]
    rw [← hnet]
    cases h : hasNetwork p with
    | false => rfl
    | true => exact absurd hz (hc.proto h)
  · intro _ hports hsrc hdst
    cases h : isIpAny p with
    | false => exact hq.ports (hip ▸ h)
    | true =>
      refine hq.later ?_
      have hbits : p .nwFrag &&& flowNwFragLater = q .nwFrag &&& flowNwFragLater := by
        have hlater : Within flowNwFragLater flowNwFragMask := by decide
        exact (hag .nwFrag).mono (hlater.trans (hfragW h))
      rw [← hbits]
      exact hc.ports h hports ⟨hsrc, hdst⟩

theorem Pair.hidePorts (h : Pair W p q) : Pair W (hidePorts p) (hidePorts q) :=
  ⟨h.inPort, h.skbPriority, h.dlType, h.frag, h.noProto, fun _ _ _ _ => ⟨rfl, rfl⟩, h.untagged⟩

theorem twin_init (xbridge : Nat) (hag : W.AgreeOn p q) :
    Twin W p q (initCtx (missIn xbridge p)) (initCtx (missIn xbridge q)) := by
  have hbase (fl : Flow) : Own W fl fl (clearTunnel fl) := by
    refine ⟨fun f _ => .refl _ _, fun f hf => ?_, .inr rfl, .inr fun f hf => ⟨rfl, ?_⟩,
      .inr fun f hf => ?_, rfl⟩
    · cases f
      all_goals first
        | exact .refl _ _
        | cases hf
    all_goals
      rcases List.mem_cons.mp hf with rfl | hf
      · rfl
      · obtain rfl := List.mem_singleton.mp hf
        rfl
  refine ⟨hbase p, hbase q, hag, fun f => ?_, .inr (initMasks_ports p), rfl⟩
  cases f
  all_goals first
    | exact hag _
    | exact .refl _ _

theorem hidePorts_of_ne {f : FlowField} (hf : f ∉ portFields) (fl : Flow) :
    hidePorts fl f = fl f := by
  unfold hidePorts
  rw [Flow.set_of_ne, Flow.set_of_ne]
  · rintro rfl
    exact hf (by decide)
  · rintro rfl
    exact hf (by decide)

theorem Own.hide {flow base : Flow} (h : Own W p flow base) :
    Own W (hidePorts p) (hidePorts flow) (hidePorts base) := by
  have hzero (fl fl' : Flow) : ∀ f ∈ portFields, hidePorts fl f = hidePorts fl' f := by
    intro f hf
    rcases List.mem_cons.mp hf with rfl | hf
    · rfl
    · obtain rfl := List.mem_singleton.mp hf
      rfl
  have hout {fl : Flow} (hfl : ∀ f, f.isHeader = true → AgreeOn (~~~W f) (fl f) (p f)) :
      ∀ f, f.isHeader = true → AgreeOn (~~~W f) (hidePorts fl f) (hidePorts p f) := by
    intro f hf
    by_cases hm : f ∈ portFields
    · exact .of_eq (hzero fl p f hm)
    · rw [hidePorts_of_ne hm, hidePorts_of_ne hm]
      exact hfl f hf
  exact ⟨hout h.flowOutside, hout h.baseOutside, h.vlan,
    .inr fun f hf => ⟨hzero flow p f hf, hzero base p f hf⟩, .inr (hzero base p), h.proto⟩

theorem hideFragPorts_wc (env : Env) (c : XlateCtx) : (hideFragPorts env c).wc = c.wc := by
  unfold hideFragPorts
  split <;> rfl

theorem Twin.hideFragPorts {c d : XlateCtx} (h : Twin W p q c d) (env : Env) (hP : Pair W p q) :
    ∃ p' q', Pair W p' q' ∧ Twin W p' q' (hideFragPorts env c) (hideFragPorts env d) := by
  have hbridge : c.xbridge = d.xbridge := h.rest XlateCtx.xbridge fun _ => rfl
  have hcond : (isFragment d.flow && env.frag d.xbridge == .normal) =
      (isFragment c.flow && env.frag c.xbridge == .normal) := by
    rw [h.isFragment_eq hP, hbridge]
  unfold Switch.hideFragPorts
  by_cases hn : (isFragment c.flow && env.frag c.xbridge == .normal) = true
  · rw [if_pos hn, if_pos (hcond.trans hn)]
    exact ⟨_, _, hP.hidePorts, h.left.hide, h.right.hide, h.flow.hidePorts, h.base.hidePorts,
      h.known, h.bare⟩
  · rw [if_neg hn, if_neg (by rw [hcond]; exact hn)]
    exact ⟨p, q, hP, h⟩

/-- What the final adjustment of the masks takes away, packets cannot differ in. -/
theorem agreeOn_of_finalMasks (hknown : W.Full .nwProto ∨ ∀ f ∈ portFields, W f = 0)
    (hdl : W.Full .dlType) (hp : Extracted p) (hq : Extracted q)
    (hag : (finalMasks (isIcmp p) W).AgreeOn p q) : W.AgreeOn p q := by
  have hport {f : FlowField} (hf : f ∈ portFields) {k : BitVec f.width}
      (hfinal : finalMasks (isIcmp p) W f = if isIcmp p then W f &&& k else W f)
      (hk : ∀ fl, Extracted fl → isIcmp fl = true → Within (fl f) k) :
      AgreeOn (W f) (p f) (q f) := by
    rcases hknown with hproto | hzero
    · have hicmp : isIcmp p = isIcmp q := by
        rw [isIcmp, isIcmp, (hag .dlType).eq hdl, (hag .nwProto).eq hproto]
      have hf := hag f
      rw [hfinal] at hf
      cases hi : isIcmp p with
      | false =>
        rw [hi] at hf
        exact hf
      | true =>
        rw [hi, if_pos rfl] at hf
        exact AgreeOn.of_within (hk p hp hi) (hk q hq (hicmp ▸ hi)) hf
    · rw [hzero f hf]
      exact AgreeOn.zero _ _
  intro f
  cases f
  case metadata => exact .of_eq (hp.metadata.trans hq.metadata.symm)
  case reg i => exact .of_eq ((hp.regs i).trans (hq.regs i).symm)
  case tpSrc => exact hport (by decide) rfl fun fl hfl hi => (hfl.icmp hi).1
  case tpDst => exact hport (by decide) rfl fun fl hfl hi => (hfl.icmp hi).2
  all_goals exact hag _

end start

/-! ## Two translations -/

section runs

variable {A B : Type} {env : Env} {xbridge : Nat} {p q : Flow} {appRel : A → B → Prop}

/-- What the lookup for a miss finds, and the context after it. -/
def startOf (env : Env) (xbridge : Nat) (fl : Flow) : List Ofpact × XlateCtx :=
  startActions env (missIn xbridge fl) (initCtx (missIn xbridge fl))

theorem startOf_eq (env : Env) (xbridge : Nat) (fl : Flow) :
    startOf env xbridge fl =
      let r := lookupRule env (missIn xbridge fl) (fl .inPort) 0 true (initCtx (missIn xbridge fl))
      ((r.1.getD missRule).ofpacts, r.2) := rfl

theorem startOf_grows (hE : SafeEnv env) :
    (initMasks p).Within (startOf env xbridge p).2.wc := by
  have hlookup (W q : Flow) (hP : Pair W q q) : Masked W q q
      (lookupRule env (missIn xbridge p) (p .inPort) 0 true)
      (lookupRule env (missIn xbridge p) (p .inPort) 0 true) :=
    lookupRule_masked hP hE rfl (p .inPort) 0 true
  exact (hlookup _ _ .full).grows (initCtx (missIn xbridge p))

theorem startOf_twin (hE : SafeEnv env) {W : Flow} (hP : Pair W p q) (hag : W.AgreeOn p q)
    (hw : (startOf env xbridge p).2.wc.Within W) :
    (startOf env xbridge p).1 = (startOf env xbridge q).1 ∧
      Twin W p q (startOf env xbridge p).2 (startOf env xbridge q).2 := by
  have hin : q .inPort = p .inPort := ((hag .inPort).eq hP.inPort).symm
  have hmasked : Masked W p q (lookupRule env (missIn xbridge p) (p .inPort) 0 true)
      (lookupRule env (missIn xbridge q) (p .inPort) 0 true) :=
    lookupRule_masked hP hE rfl (p .inPort) 0 true
  have hlookup := hmasked.twin _ _ (twin_init xbridge hag) hw
  rw [startOf_eq, startOf_eq, hin]
  dsimp only
  rw [hlookup.1]
  exact ⟨rfl, hlookup.2⟩

/-- The translation of a packet that is let in. -/
def runFrom (env : Env) (xbridge : Nat) (fx : Effects A) (fl : Flow) (a : A) :
    Except Fault (PUnit × A × XlateCtx) :=
  xlateWhole env (missIn xbridge fl) fx (startOf env xbridge fl).1
    (a, hideFragPorts env (startOf env xbridge fl).2)

/-- Translations from twins end in twins. -/
theorem run_twin (hE : SafeEnv env) {W : Flow} {fx : Effects A} {fx' : Effects B}
    (hfx : ∀ p' q', SimEffects (maskSpec W p' q' appRel) fx fx')
    (hP : Pair W p q) (hag : W.AgreeOn p q) {a : A} {b : B} (hab : appRel a b)
    {r : PUnit × A × XlateCtx} (hr : runFrom env xbridge fx p a = .ok r) (hW : r.2.2.wc = W)
    (hw : (startOf env xbridge p).2.wc.Within W) :
    ∃ r', runFrom env xbridge fx' q b = .ok r' ∧ appRel r.2.1 r'.2.1 ∧
      ∃ p' q', Twin W p' q' r.2.2 r'.2.2 := by
  obtain ⟨hacts, ht⟩ := startOf_twin hE hP hag hw
  obtain ⟨p', q', hP', ht'⟩ := ht.hideFragPorts env hP
  have hI : SameInput (missIn xbridge p) (missIn xbridge q) :=
    ⟨rfl, (hag .skbPriority).eq hP.skbPriority, rfl⟩
  have hsim := sim_xlateWhole (maskSteps hE hI) (hfx p' q') (startOf env xbridge p).1
  have hgood : GoodOut (maskSpec W p' q' appRel) (runFrom env xbridge fx p a) := by
    rw [hr]
    exact hW ▸ .refl _
  have hout := hsim.sim (a, hideFragPorts env (startOf env xbridge p).2)
    (b, hideFragPorts env (startOf env xbridge q).2) trivial trivial ⟨hab, hP', ht'⟩ hgood
  change OutRel _ (runFrom env xbridge fx p a) _ at hout
  rw [hr, hacts] at hout
  change OutRel _ _ (runFrom env xbridge fx' q b) at hout
  cases hr' : runFrom env xbridge fx' q b with
  | error e =>
    rw [hr'] at hout
    exact hout.elim
  | ok r' =>
    rw [hr'] at hout
    exact ⟨r', rfl, hout.2.1, p', q', hout.2.2.2⟩

/-- What a run has in its masks at the end: those of the lookup, and the protocol if it has ports. -/
theorem run_masks (hE : SafeEnv env) {fx : Effects A} {fx' : Effects B}
    (hfx : ∀ W p' q', SimEffects (maskSpec W p' q' appRel) fx fx')
    (hp : Extracted p) (hc : Complete p) {a : A} {b : B} (hab : appRel a b)
    {r : PUnit × A × XlateCtx} (hr : runFrom env xbridge fx p a = .ok r) :
    (startOf env xbridge p).2.wc.Within r.2.2.wc ∧
      (r.2.2.wc.Full .nwProto ∨ ∀ f ∈ portFields, r.2.2.wc f = 0) := by
  have hI : SameInput (missIn xbridge p) (missIn xbridge p) := ⟨rfl, rfl, rfl⟩
  have hw : (startOf env xbridge p).2.wc.Within r.2.2.wc := by
    have hback := (sim_xlateWhole (maskSteps hE hI) (hfx r.2.2.wc p p)
      (startOf env xbridge p).1).back (a, hideFragPorts env (startOf env xbridge p).2) trivial
      trivial (by
        change GoodOut _ (runFrom env xbridge fx p a)
        rw [hr]
        exact .refl _)
    rw [← hideFragPorts_wc env]
    exact hback
  have hag : r.2.2.wc.AgreeOn p p := fun f => .refl _ _
  have hP : Pair r.2.2.wc p p := .of_extracted ((startOf_grows hE).trans hw) hag hp hc hp
  obtain ⟨_, _, _, _, _, ht⟩ := run_twin hE (hfx r.2.2.wc) hP hag hab hr rfl hw
  exact ⟨hw, ht.known⟩

theorem dropsFragment_eq {W : Flow} (hP : Pair W p q) (hag : W.AgreeOn p q) :
    dropsFragment env (missIn xbridge p) = dropsFragment env (missIn xbridge q) := by
  have hfrag : isFragment p = isFragment q := (twin_init xbridge hag).isFragment_eq hP
  unfold dropsFragment
  rw [missIn, missIn, hfrag]

theorem Twin.finish_eq {W p' q' : Flow} {c d : XlateCtx} (h : Twin W p' q' c d) (xin xin' : XlateIn) :
    (finish xin' d).odp = (finish xin c).odp ∧ (finish xin' d).slow = (finish xin c).slow :=
  ⟨(h.rest XlateCtx.odp fun _ => rfl).symm,
    (h.rest (fun c => (finish xin c).slow) fun _ => rfl).symm⟩

/-- A packet that agrees with another one on the masks of its translation is translated alike. -/
theorem xlateActions_twin (hE : SafeEnv env) {fx : Effects A} {fx' : Flow → Effects B}
    (hfx : ∀ W fl, W.AgreeOn p fl → ∀ p' q', SimEffects (maskSpec W p' q' appRel) fx (fx' fl))
    (hp : Extracted p) (hc : Complete p) (hq : Extracted q) {a a' : A} {b : B}
    (hab : appRel a b) {out : XlateOut}
    (h : xlateActions env (missIn xbridge p) fx a = .ok (a', out)) (hag : out.wc.AgreeOn p q) :
    ∃ b' out', xlateActions env (missIn xbridge q) (fx' q) b = .ok (b', out') ∧ appRel a' b' ∧
      out'.odp = out.odp ∧ out'.slow = out.slow := by
  have hinit : (initMasks p).Within (startOf env xbridge p).2.wc := startOf_grows hE
  unfold xlateActions at h ⊢
  dsimp only at h ⊢
  by_cases hdrop : dropsFragment env (missIn xbridge p) = true
  · rw [if_pos hdrop] at h
    obtain ⟨rfl, rfl⟩ := Prod.mk.inj (Except.ok.inj h)
    have hP := Pair.of_extracted hinit hag hp hc hq
    have ht := (startOf_twin hE hP hag (.refl _)).2
    rw [if_pos ((dropsFragment_eq hP hag).symm.trans hdrop)]
    exact ⟨b, _, rfl, hab, (ht.rest XlateCtx.odp fun _ => rfl).symm,
      (ht.rest XlateCtx.slow fun _ => rfl).symm⟩
  rw [if_neg hdrop] at h
  change (runFrom env xbridge fx p a >>= _) = _ at h
  cases hr : runFrom env xbridge fx p a with
  | error e =>
    rw [hr] at h
    cases h
  | ok r =>
    rw [hr] at h
    obtain ⟨rfl, rfl⟩ := Prod.mk.inj (Except.ok.inj h)
    obtain ⟨hw, hknown⟩ :=
      run_masks hE (fun W => hfx W p fun _ => .refl _ _) hp hc hab hr
    have hdl : r.2.2.wc.Full .dlType := (hinit.trans hw).full (initMasks_full p).2.2
    have hagW : r.2.2.wc.AgreeOn p q := agreeOn_of_finalMasks hknown hdl hp hq hag
    have hP : Pair r.2.2.wc p q := .of_extracted (hinit.trans hw) hagW hp hc hq
    obtain ⟨r', hr', happ, p', q', ht⟩ :=
      run_twin hE (hfx r.2.2.wc q hagW) hP hagW hab hr rfl hw
    rw [if_neg (by rw [← dropsFragment_eq hP hagW]; exact hdrop)]
    change ∃ b' out', (runFrom env xbridge (fx' q) q b >>= _) = _ ∧ _
    rw [hr']
    exact ⟨r'.2.1, _, rfl, happ, ht.finish_eq _ _⟩

end runs

/-! ## The state machine -/

section machine

variable {hash : Key → BitVec 32}

theorem gotoFp_ok {undetermined : NoValue → Bool} {tcpFlags : BitVec 16} {bitmap : BitVec 8}
    {s : Shared hash × XlateCtx} {r : PUnit × Shared hash × XlateCtx}
    (h : gotoFp undetermined tcpFlags bitmap s = .ok r) :
    ∃ res, xlateFp s.1.apps bitmap s.2.flow tcpFlags = .ok res ∧
      r = (⟨⟩, { s.1 with apps := res.apps }, { s.2 with
        flow := res.flow, exit := s.2.exit || shouldStop undetermined res.drop }) := by
  unfold gotoFp at h
  cases hx : xlateFp s.1.apps bitmap s.2.flow tcpFlags with
  | error e =>
    rw [hx] at h
    cases h
  | ok res =>
    rw [hx] at h
    exact ⟨res, rfl, (Except.ok.inj h).symm⟩

theorem gotoFp_of_ok {undetermined : NoValue → Bool} {tcpFlags : BitVec 16} {bitmap : BitVec 8}
    {s : Shared hash × XlateCtx} {res : FpResult hash}
    (h : xlateFp s.1.apps bitmap s.2.flow tcpFlags = .ok res) :
    gotoFp undetermined tcpFlags bitmap s = .ok (⟨⟩, { s.1 with apps := res.apps }, { s.2 with
      flow := res.flow, exit := s.2.exit || shouldStop undetermined res.drop }) := by
  unfold gotoFp
  rw [h]
  rfl

theorem Twin.rewrite {W p q : Flow} {c d : XlateCtx} (h : Twin W p q c d) {fields : List FlowField}
    (hW : ∀ f ∈ fields, W.Full f) {out out' : Flow}
    (hout : SameRewrite fields c.flow d.flow out out') (stop : Bool) :
    Twin W p q { c with flow := out, exit := c.exit || stop }
      { d with flow := out', exit := d.exit || stop } := by
  have hput : Twin W p q { c with flow := out } { d with flow := out' } := by
    rcases hout with ⟨rfl, rfl⟩ | ⟨f, hf, hplain, v, rfl, rfl⟩
    · exact h
    · rcases hplain with rfl | rfl
      · exact h.putPlain rfl (hW _ hf) rfl
      · exact h.putPlain rfl (hW _ hf) rfl
  exact ⟨hput.left, hput.right, hput.flow, hput.base, hput.known,
    congrArg (fun b : XlateCtx => { b with exit := b.exit || stop }) hput.bare⟩

/-- The switch as it is, except that it fails at a `goto_fp` for which the masks do not yet
cover what the app looks at or sets. -/
def maskedEffects (undetermined : NoValue → Bool) (xin : XlateIn) : Effects (Shared hash) where
  gotoFp := fun bitmap s =>
    if ∀ f ∈ s.1.apps.fields bitmap, s.2.wc.Full f then
      gotoFp undetermined xin.tcpFlags bitmap s
    else .error .assertion
  learn := (switchEffects undetermined xin).learn

/-- At every `goto_fp` that the translation reaches, the masks cover what the app looks at. -/
def reachedCovered (undetermined : NoValue → Bool) (env : Env) (xin : XlateIn) (s : Shared hash) :
    Bool :=
  match xlateActions env xin (maskedEffects undetermined xin) s with
  | .ok _ => true
  | .error _ => false

theorem maskedEffects_ok {undetermined : NoValue → Bool} {xin : XlateIn} {bitmap : BitVec 8}
    {s : Shared hash × XlateCtx} {r : PUnit × Shared hash × XlateCtx}
    (h : (maskedEffects undetermined xin).gotoFp bitmap s = .ok r) :
    (∀ f ∈ s.1.apps.fields bitmap, s.2.wc.Full f) ∧
      gotoFp undetermined xin.tcpFlags bitmap s = .ok r := by
  unfold maskedEffects at h
  dsimp only at h
  split at h
  · rename_i hfull
    exact ⟨hfull, h⟩
  · cases h

/-- Where it does not fail, it is the switch as it is. -/
theorem xlate_of_covered {undetermined : NoValue → Bool} {env : Env} {xin : XlateIn}
    {s : Shared hash} (h : reachedCovered undetermined env xin s = true) :
    xlate undetermined env xin s = xlateActions env xin (maskedEffects undetermined xin) s := by
  have hfx : SimEffects (ctxSpec (fun _ : Shared hash => True) (fun _ => True) (fun _ _ => True) Eq)
      (maskedEffects undetermined xin) (switchEffects undetermined xin) := by
    refine ⟨fun b => Sim.of_ok (fun _ => trivial) (fun _ _ _ _ _ => ⟨trivial, fun _ _ => trivial⟩)
      (fun _ _ _ _ => trivial) ?_, fun _ _ _ => Sim.of_ok (fun _ => trivial)
        (fun _ _ _ _ _ => ⟨trivial, fun _ _ => trivial⟩) (fun _ _ _ _ => trivial) ?_⟩
    · rintro ⟨a, c⟩ ⟨_, _⟩ r - - ⟨rfl, rfl⟩ hr -
      exact ⟨r.2, (maskedEffects_ok hr).2, rfl, rfl⟩
    · rintro ⟨a, c⟩ ⟨_, _⟩ r - - ⟨rfl, rfl⟩ hr -
      exact ⟨r.2, hr, rfl, rfl⟩
  have hsame := xlateActions_effects env xin hfx (fun _ _ => trivial) (fun _ _ _ => trivial)
    (a := s) trivial rfl
  unfold reachedCovered at h
  cases hr : xlateActions env xin (maskedEffects undetermined xin) s with
  | error e =>
    rw [hr] at h
    cases h
  | ok r =>
    rw [hr] at hsame
    obtain ⟨s', hrun, rfl⟩ := hsame trivial
    exact hrun

/-- A `goto_fp` whose fields are in the masks does the same to both packets. -/
theorem sim_maskedEffects (undetermined : NoValue → Bool) {W p' q' : Flow} {xin xin' : XlateIn}
    (htcp : W.Full .tcpFlags → xin.tcpFlags = xin'.tcpFlags) (hlearn : xin.mayLearn = xin'.mayLearn) :
    SimEffects (maskSpec W p' q' (Eq : Shared hash → _ → Prop)) (maskedEffects undetermined xin)
      (switchEffects undetermined xin') := by
  refine ⟨fun bitmap => Sim.of_ok (fun _ => trivial) (fun s r _ _ hr => ?_) (fun s r hr hg => ?_) ?_,
    fun xbridge input view => onState_masked ?_⟩
  · obtain ⟨res, _, rfl⟩ := gotoFp_ok (maskedEffects_ok hr).2
    exact ⟨trivial, fun _ hk => hk⟩
  · obtain ⟨res, _, rfl⟩ := gotoFp_ok (maskedEffects_ok hr).2
    exact hg
  · rintro ⟨s, c⟩ ⟨_, d⟩ r - - ⟨rfl, hP, ht⟩ hr hg
    obtain ⟨hfull, hr⟩ := maskedEffects_ok hr
    obtain ⟨res, hres, rfl⟩ := gotoFp_ok hr
    have hW : ∀ f ∈ s.apps.fields bitmap, W.Full f := fun f hf =>
      (show c.wc.Within W from hg).full (hfull f hf)
    have hsame : SameFields (s.apps.fields bitmap) c.flow d.flow xin.tcpFlags xin'.tcpFlags :=
      ⟨fun f hf => ht.flow_eq (hW f hf), fun hf => htcp (hW _ hf)⟩
    have halike := xlateFp_alike hsame
    rw [hres] at halike
    obtain ⟨res', hres', happs, hdrop, hflow⟩ := halike.of_ok
    refine ⟨_, gotoFp_of_ok hres', ?_, hP, ?_⟩
    · rw [happs]
    · rw [← hdrop]
      exact ht.rewrite hW hflow _
  · rintro s _ r rfl hr
    rw [maskedEffects, switchEffects, hlearn] at hr
    exact ⟨_, hr, rfl⟩

end machine

/-! ## A switch with two rules -/

section twoRules

variable {fields : List FlowField} {value : Flow} {ofpacts otherwise : List Ofpact}

def plainPort (odpPort : BitVec 32) : XPort :=
  ⟨⟨false, false, false, false, false⟩, odpPort, none, fun _ => none⟩

def exactMask (fields : List FlowField) : Flow :=
  fun f => if f ∈ fields then BitVec.allOnes f.width else 0

/-- A bridge with ports 1 and 2 and a rule for packets with given values in some
fields. Another one of lower priority takes all that is left. -/
def twoRulesEnv (fields : List FlowField) (value : Flow) (ofpacts otherwise : List Ofpact) :
    Env where
  port := fun _ port => if port = 1 ∨ port = 2 then some (plainPort (port.setWidth 32)) else none
  xports := fun _ => [1, 2]
  classifier := fun _ tableId fl =>
    if tableId = 0 then
      (some (if ∀ f ∈ fields, fl f = value f then ⟨ofpacts⟩ else ⟨otherwise⟩), exactMask fields)
    else (none, noMasks)
  frag := fun _ => .normal
  group := fun _ _ => none
  queueToPriority := fun _ _ => none
  hasInBand := fun _ => false
  normalIn := fun _ _ => none
  normal := fun _ _ _ => []
  load := fun _ r => r
  compute := fun _ r => (none, r)
  learnMask := fun _ => noMasks

theorem exactMask_full {f : FlowField} (hf : f ∈ fields) : (exactMask fields).Full f :=
  if_pos hf

theorem MasksUse.same {β : Type} (b : β) : MasksUse fun r => (b, r) where
  grows := fun r => .refl r.wc
  known := fun _ => .inr fun _ _ => rfl
  proto := fun _ => rfl
  alike := fun _ _ _ _ h hs => ⟨rfl, hs, h⟩
  outside := fun _ _ _ _ _ _ _ => .refl _ _
  ports := fun _ _ _ _ _ _ => .inr fun _ _ => rfl

theorem twoRulesEnv_port {xbridge : Nat} {port : BitVec 16} {xport : XPort}
    (h : (twoRulesEnv fields value ofpacts otherwise).port xbridge port = some xport) :
    xport = plainPort (port.setWidth 32) := by
  change (if _ then some _ else none) = some xport at h
  split at h
  · exact (Option.some.inj h).symm
  · cases h

theorem twoRulesEnv_safe (hfields : ∀ f ∈ portFields, f ∉ fields) :
    SafeEnv (twoRulesEnv fields value ofpacts otherwise) where
  classifier := by
    intro xbridge tableId fl fl' hag
    unfold twoRulesEnv at hag ⊢
    dsimp only at hag ⊢
    by_cases ht : tableId = 0
    · rw [if_pos ht] at hag
      have hall : (∀ f ∈ fields, fl f = value f) ↔ ∀ f ∈ fields, fl' f = value f :=
        forall₂_congr fun f hf => by rw [(hag f).eq (exactMask_full hf)]
      simp only [hall]
    · rw [if_neg ht, if_neg ht]
  ports := by
    intro xbridge tableId fl
    refine .inr fun f hf => ?_
    unfold twoRulesEnv
    dsimp only
    split
    · exact if_neg (hfields f hf)
    · rfl
  learn := fun _ => .inr fun _ _ => rfl
  load := fun _ => .same _
  compute := fun _ => .same _
  dscp := by
    intro xbridge port xport h priority
    rw [twoRulesEnv_port h]
    rfl
  receive := by
    intro xbridge port xport h
    rw [twoRulesEnv_port h]
    exact ⟨rfl, fun peer hpeer => by cases hpeer⟩
  normal := fun _ _ _ out hout => by cases hout
  inBand := fun _ => rfl

/-- A UDP packet that arrives on port 1. -/
def udpFrom (src : BitVec 32) : Flow := fun f => match f with
  | .inPort => 1
  | .dlType => ethTypeIp
  | .nwProto => ipprotoUdp
  | .nwSrc => htonl src
  | .tpSrc => htons 1000
  | .tpDst => htons 1000
  | _ => 0

theorem udpFrom_extracted (src : BitVec 32) : Extracted (udpFrom src) := by
  have hip : isIpAny (udpFrom src) = true := rfl
  have hnet : hasNetwork (udpFrom src) = true := rfl
  have hicmp : isIcmp (udpFrom src) = false := rfl
  have hlater : udpFrom src .nwFrag &&& flowNwFragLater = 0 := by
    change 0 &&& flowNwFragLater = 0
    decide
  exact {
    metadata := rfl
    regs := fun _ => rfl
    untagged := fun _ => rfl
    proto := fun h => absurd (hnet.symm.trans h) (by decide)
    frag := fun _ => rfl
    ports := fun h => absurd (hip.symm.trans h) (by decide)
    later := fun h => absurd hlater h
    icmp := fun h => absurd (hicmp.symm.trans h) (by decide) }

theorem udpFrom_complete (src : BitVec 32) : Complete (udpFrom src) := by
  have hproto : ipprotoUdp ≠ 0 := by decide
  have hport : htons 1000 ≠ 0 := by decide
  exact ⟨fun _ => hproto, fun _ _ h => absurd h.1 hport⟩

/-- App 1 lets the first packet of a source address through, and drops those after it. -/
def firstOnlyApp (states : Entries hashString StMatchEntry.data) : ControllApp hashString where
  appid := 1
  pst := ⟨0x8000, states⟩
  pstt := [always 1 2, always 2 3, always 3 3]
  pat := ⟨0x20, (Entries.init.insert ⟨[49], 2, ⟨3, 0⟩⟩).insert ⟨[49], 3, ⟨2, 0⟩⟩⟩

/-- 10.0.0.1 has sent nothing yet, 10.0.0.2 has. -/
def firstOnly : GApps hashString :=
  GApps.start.append (firstOnlyApp ((Entries.init.insert ⟨inetNtoa (htonl 0x0a000001), 1⟩).insert
    ⟨inetNtoa (htonl 0x0a000002), 2⟩)) rfl

/-- Through the app, and out of port 2. -/
def throughApp : List Ofpact := [.gotoFp 1, .action (.output 2)]

/-- Every packet goes through the app. -/
def appEnv : Env := twoRulesEnv [] noMasks throughApp []

/-- Packets of 10.0.0.1 go through the app, others do not. -/
def sourceEnv : Env :=
  twoRulesEnv [.inPort, .dlType, .nwSrc] (udpFrom 0x0a000001) throughApp [.action (.output 2)]

theorem appEnv_safe : SafeEnv appEnv := twoRulesEnv_safe fun _ _ => List.not_mem_nil

theorem sourceEnv_safe : SafeEnv sourceEnv := twoRulesEnv_safe (by decide)

end twoRules

theorem map_eq_ok {α β : Type} {f : α → β} {x : Except Fault α} {b : β} (h : x.map f = .ok b) :
    ∃ a, x = .ok a ∧ f a = b := by
  cases x with
  | error e => cases h
  | ok a => exact ⟨a, rfl, Except.ok.inj h⟩

/-! ## Soundness -/

section soundness

variable {hash : Key → BitVec 32}

end soundness

end Sdpa.Switch
