import Sdpa.Switch.TwinActions
import Sdpa.Switch.XlateSim

/-!
# Translations of packets that the masks do not tell apart

What the switch has to be configured like for its masks to be right, `goto_fp`
aside, and the proof that they are: translations of two packets that agree on the
masks of the first one go the same way.
-/
namespace Sdpa.Switch

open Sdpa.Lib.Masks Sdpa.Lib.Simulation

/-- A switch whose masks cover what decides about a packet. The classifier is right;
actions on subfields are; ports treat all destinations alike, set no DSCP for a queue;
the learning switch neither outputs to patch ports nor adds priority tags; and no bridge is
under in-band control, which looks at the packet without regard to the masks. -/
structure SafeEnv (env : Env) : Prop where
  classifier : ∀ xbridge tableId (fl fl' : Flow),
    (env.classifier xbridge tableId fl).2.AgreeOn fl fl' →
      (env.classifier xbridge tableId fl).1 = (env.classifier xbridge tableId fl').1
  ports : ∀ xbridge tableId fl, (env.classifier xbridge tableId fl).2.PortsWithProto
  learn : ∀ operand, (env.learnMask operand).PortsWithProto
  load : ∀ operand, MasksUse fun r => (PUnit.unit, env.load operand r)
  compute : ∀ operand, MasksUse (env.compute operand)
  dscp : ∀ xbridge port xport, env.port xbridge port = some xport →
    ∀ priority, xport.skbPriorities priority = none
  receive : ∀ xbridge port xport, env.port xbridge port = some xport →
    xport.config.noRecv = xport.config.noRecvStp ∧
      ∀ peer, xport.peer = some peer → peer.config.noRecv = peer.config.noRecvStp
  normal : ∀ xbridge input dst, ∀ out ∈ env.normal xbridge input dst,
    out.usePriorityTags = false ∧
      ∀ xport, env.port xbridge out.port = some xport → xport.peer = none
  inBand : ∀ xbridge, env.hasInBand xbridge = false

section steps

variable {env : Env} {W p q : Flow}

/-! ## Lookups -/

theorem Flow.AgreeOn.set {a b : Flow} (h : W.AgreeOn a b) (f : FlowField) (v : BitVec f.width) :
    W.AgreeOn (a.set f v) (b.set f v) := by
  intro f'
  by_cases hf : f' = f
  · subst hf
    rw [Flow.set_self, Flow.set_self]
    exact .refl _ _
  · rw [Flow.set_of_ne _ _ hf, Flow.set_of_ne _ _ hf]
    exact h f'

theorem Flow.AgreeOn.hidePorts {a b : Flow} (h : W.AgreeOn a b) :
    W.AgreeOn (hidePorts a) (hidePorts b) :=
  (h.set .tpSrc 0).set .tpDst 0

theorem Flow.AgreeOn.mono {m k a b : Flow} (h : k.AgreeOn a b) (hm : m.Within k) : m.AgreeOn a b :=
  fun f => (h f).mono (hm f)

theorem lookup_alike (hE : SafeEnv env) {xbridge : Nat} {tableId : BitVec 8} {a b : Flow}
    (h : W.AgreeOn a b) (hfrag : isFragment a = isFragment b)
    (hw : (ruleDpifLookupInTable env xbridge a tableId).2.Within W) :
    (ruleDpifLookupInTable env xbridge a tableId).1 =
      (ruleDpifLookupInTable env xbridge b tableId).1 := by
  have hor {m k : Flow} (hmk : (m.or k).Within W) : k.Within W := fun f =>
    (Within.right _ _).trans (hmk f)
  unfold ruleDpifLookupInTable at hw ⊢
  rw [← hfrag]
  by_cases ht : tableId = 255
  · rw [if_pos ht, if_pos ht]
  rw [if_neg ht] at hw ⊢
  rw [if_neg ht]
  by_cases hn : (isFragment a && env.frag xbridge == .normal) = true
  · rw [if_pos hn] at hw ⊢
    rw [if_pos hn]
    exact hE.classifier _ _ _ _ (h.hidePorts.mono (hor hw))
  rw [if_neg hn] at hw ⊢
  rw [if_neg hn]
  by_cases hd : (isFragment a && env.frag xbridge == .drop) = true
  · rw [if_pos hd, if_pos hd]
  · rw [if_neg hd] at hw ⊢
    rw [if_neg hd]
    exact hE.classifier _ _ _ _ (h.mono (hor hw))

theorem lookup_portsWithProto (hE : SafeEnv env) (xbridge : Nat) (fl : Flow) (tableId : BitVec 8) :
    (ruleDpifLookupInTable env xbridge fl tableId).2.PortsWithProto := by
  have hmasks : ∀ f ∈ portFields, lookupMasks fl f = 0 := by
    unfold lookupMasks
    split <;> decide
  have hor (fl' : Flow) :
      ((lookupMasks fl).or (env.classifier xbridge tableId fl').2).PortsWithProto := by
    refine (hE.ports xbridge tableId fl').imp (fun hfull => ?_) fun hz f hf => ?_
    · exact Flow.Within.full (fun _ => Within.right _ _) hfull
    · rw [Flow.or, hmasks f hf, hz f hf]
      exact BitVec.or_zero
  unfold ruleDpifLookupInTable
  split
  · exact .inr (by decide)
  split
  · exact hor _
  split
  · exact .inr hmasks
  · exact hor _

theorem Twin.isFragment_eq {c d : XlateCtx} (h : Twin W p q c d) (hP : Pair W p q) :
    isFragment c.flow = isFragment d.flow := by
  have hbits : c.flow .nwFrag &&& flowNwFragAny = d.flow .nwFrag &&& flowNwFragAny := by
    rcases hP.frag with hW | hpq
    · have hany : Within flowNwFragAny flowNwFragMask := by decide
      exact (h.flow .nwFrag).mono (hany.trans hW)
    · have heq : c.flow .nwFrag = d.flow .nwFrag := by
        refine (h.flow .nwFrag).eq_of_outside ((h.left.flowOutside .nwFrag rfl).trans ?_)
        rw [hpq]
        exact (h.right.flowOutside .nwFrag rfl).symm
      rw [heq]
  rw [isFragment, isFragment, hbits]

theorem lookupRule_masked (hP : Pair W p q) (hE : SafeEnv env) {xin xin' : XlateIn}
    (hskip : xin.skipWildcards = false) (inPort : BitVec 16) (tableId : BitVec 8)
    (mayPacketIn : Bool) :
    Masked W p q (lookupRule env xin inPort tableId mayPacketIn)
      (lookupRule env xin' inPort tableId mayPacketIn) := by
  refine ⟨fun c => ?_, fun c d h hw => ?_⟩
  · unfold lookupRule
    rw [hskip]
    exact Flow.within_or _ _
  have hbridge : c.xbridge = d.xbridge := h.rest XlateCtx.xbridge fun _ => rfl
  have hfrag : isFragment (c.flow.set .inPort inPort) = isFragment (d.flow.set .inPort inPort) :=
    h.isFragment_eq hP
  have hfound : (ruleDpifLookupInTable env c.xbridge (c.flow.set .inPort inPort) tableId).1 =
      (ruleDpifLookupInTable env c.xbridge (d.flow.set .inPort inPort) tableId).1 :=
    lookup_alike hE (h.flow.set .inPort inPort) hfrag (by
      unfold lookupRule at hw
      rw [hskip] at hw
      exact fun f => (Within.right _ _).trans (hw f))
  have hmasks := h.orMasks (lookup_portsWithProto hE c.xbridge (c.flow.set .inPort inPort) tableId)
    (by
      unfold lookupRule at hw
      rw [hskip] at hw
      exact hw) d.wc
  refine ⟨?_, h.left, h.right, h.flow, h.base, ?_,
    congrArg (fun b : XlateCtx => { b with tableId := tableId }) h.bare⟩
  rotate_left
  · unfold lookupRule
    rw [hskip]
    exact hmasks.known
  unfold lookupRule
  dsimp only
  rw [hfound, hbridge, h.flow_eq hP.inPort]

/-! ## Output -/

theorem Own.mix {flow flow' base base' : Flow} (h : Own W p flow base) (h' : Own W p flow' base') :
    Own W p flow base' where
  flowOutside := h.flowOutside
  baseOutside := h'.baseOutside
  vlan := h'.vlan
  ports := by
    rcases h.ports with hfull | hp
    · exact .inl hfull
    · exact h'.ports.imp_right fun hp' f hf => ⟨(hp f hf).1, (hp' f hf).2⟩
  basePorts := h'.basePorts
  proto := h.proto

/-- Flows are restored to what they were. -/
theorem Twin.restore {c d c' d' : XlateCtx} (h : Twin W p q c d) (h' : Twin W p q c' d') :
    Twin W p q { c' with flow := c.flow } { d' with flow := d.flow } :=
  ⟨h.left.mix h'.left, h.right.mix h'.right, h.flow, h'.base, h'.known, h'.bare⟩

theorem queueDscp_eq (hE : SafeEnv env) {xbridge : Nat} {port : BitVec 16} {xport : XPort}
    (hport : env.port xbridge port = some xport) (c : XlateCtx) : queueDscp xport c = c := by
  unfold queueDscp
  rw [hE.dscp xbridge port xport hport]

/-- Without a DSCP to set, an output is a commit and the output itself. -/
theorem outputPort_eq (hE : SafeEnv env) {xbridge : Nat} {port : BitVec 16} {xport : XPort}
    (hport : env.port xbridge port = some xport) (c : XlateCtx) :
    outputPort xport c =
      { (if xport.odpPort = odppNone then c
          else (commitOdpActions c).putOdp (.output xport.odpPort)) with flow := c.flow } := by
  rw [outputPort, queueDscp_eq hE hport]

theorem outputPort_masked (hP : Pair W p q) (hE : SafeEnv env) {xbridge : Nat} {port : BitVec 16}
    {xport : XPort} (hport : env.port xbridge port = some xport) :
    MaskedUpdate W p q (outputPort xport) (outputPort xport) := by
  have hput : MaskedUpdate W p q (fun c => c.putOdp (.output xport.odpPort))
      (fun d => d.putOdp (.output xport.odpPort)) := .of_twin (fun _ => rfl) fun _ _ h => h.putOdp rfl
  have hout := MaskedUpdate.ite (v := fun _ => xport.odpPort = odppNone) (fun _ _ _ => Iff.rfl)
    MaskedUpdate.refl ((commitOdpActions_masked hP).comp hput)
  refine ⟨fun c => ?_, fun c d h hw => ?_⟩
  · rw [outputPort_eq hE hport]
    exact hout.grows c
  · rw [outputPort_eq hE hport] at hw ⊢
    rw [outputPort_eq hE hport]
    exact h.restore (hout.twin c d h hw)

/-- A tag that has changed is un-wildcarded by an output. -/
theorem outputPort_full_vlan (hP : Pair W p q) (hE : SafeEnv env) {xbridge : Nat} {port : BitVec 16}
    {xport : XPort} (hport : env.port xbridge port = some xport) (hnone : xport.odpPort ≠ odppNone)
    (c : XlateCtx) :
    c.base .vlanTci = c.flow .vlanTci ∨ (outputPort xport c).wc.Full .vlanTci := by
  have hfull := commitOdpActions_full_vlan hP c
  rw [outputPort_eq hE hport, if_neg hnone]
  generalize commitOdpActions c = out at hfull ⊢
  exact hfull

/-! ## The learning switch -/

def normalMask : BitVec 16 := vlanVidMask ||| vlanCfi

theorem htons_vid_ne_zero {vid : BitVec 12} (h : vid ≠ 0) : htons (vid.setWidth 16) ≠ 0 := by
  intro hz
  have hset : vid.setWidth 16 = 0 := Sdpa.Lib.Endian.bswap_injective 2 (hz.trans (by decide))
  apply h
  have hback := congrArg (fun x : BitVec 16 => x.setWidth 12) hset
  simpa using hback

/-- Without priority tags a packet is tagged with its priority kept, or not at all. -/
theorem normalTci_eq {out : NormalOutput} (hout : out.usePriorityTags = false) (tci : BitVec 16) :
    normalTci out tci = if out.vid = 0 then 0
      else (tci &&& ~~~normalMask) ||| (htons (out.vid.setWidth 16) ||| vlanCfi) := by
  unfold normalTci
  by_cases hv : out.vid = 0
  · simp [hv, hout]
  · have htagged : htons (out.vid.setWidth 16) ||| (tci &&& vlanPcpMask) ≠ 0 := fun hz =>
      htons_vid_ne_zero hv (BitVec.or_eq_zero_iff.mp hz).1
    have hmask : ~~~normalMask = vlanPcpMask := by decide
    rw [if_pos (.inl hv), if_neg hv]
    dsimp only
    rw [if_neg htagged, hmask, ← BitVec.or_assoc, BitVec.or_comm (tci &&& vlanPcpMask)]

/-- The packet as it leaves through a port of the learning switch. -/
theorem Twin.putNormal {c d : XlateCtx} (h : Twin W p q c d) (hP : Pair W p q)
    (hW : Within normalMask (W .vlanTci)) {out : NormalOutput} (hout : out.usePriorityTags = false)
    (hc : W.Full .vlanTci ∨ c.base .vlanTci = normalTci out (c.flow .vlanTci)) :
    Twin W p q (c.put .vlanTci (normalTci out (c.flow .vlanTci)))
      (d.put .vlanTci (normalTci out (d.flow .vlanTci))) := by
  rw [normalTci_eq hout, normalTci_eq hout] at *
  by_cases hv : out.vid = 0
  · rw [if_pos hv] at hc ⊢
    rw [if_pos hv]
    by_cases hfull : W.Full .vlanTci
    · exact h.putPlain rfl hfull rfl
    · -- neither packet is tagged, since the masks cover that
      have hp : p .vlanTci = 0 :=
        (h.left.vlan.resolve_left hfull).symm.trans (hc.resolve_left hfull)
      have hq : q .vlanTci = 0 := by
        refine hP.untagged ?_
        rw [← h.right.vlan.resolve_left hfull]
        have hcfi : Within vlanCfi normalMask := .right _ _
        have hbits : c.base .vlanTci &&& vlanCfi = d.base .vlanTci &&& vlanCfi :=
          (h.base .vlanTci).mono (hcfi.trans hW)
        rw [← hbits, hc.resolve_left hfull]
        decide
      exact h.put (.refl _ _) (fun _ => .of_eq hp.symm) (fun _ => .of_eq hq.symm) (by decide)
        (fun hm => absurd hm (by decide))
  · rw [if_neg hv, if_neg hv]
    refine h.putBits rfl hW (Within.trans ?_ hW)
    exact .or ((vid_within out.vid).trans (.left _ _)) (.right _ _)

/-- `output_normal` to a port that is not a patch port. -/
def normalPort (xport : XPort) (out : NormalOutput) (c : XlateCtx) : XlateCtx :=
  (outputPort xport (c.put .vlanTci (normalTci out (c.flow .vlanTci)))).put .vlanTci
    (c.flow .vlanTci)

theorem put_restore {c out : XlateCtx} {f : FlowField} {v : BitVec f.width}
    (h : out.flow = (c.put f v).flow) : out.put f (c.flow f) = { out with flow := c.flow } := by
  have hflow : out.flow.set f (c.flow f) = c.flow := by
    rw [h]
    simp [XlateCtx.put, Flow.set]
  unfold XlateCtx.put
  rw [hflow]

theorem normalPort_eq (xport : XPort) (out : NormalOutput) (c : XlateCtx) :
    normalPort xport out c =
      { outputPort xport (c.put .vlanTci (normalTci out (c.flow .vlanTci))) with flow := c.flow } :=
  put_restore rfl

theorem normalPort_masked (hP : Pair W p q) (hE : SafeEnv env)
    (hW : Within normalMask (W .vlanTci)) {xbridge : Nat} {port : BitVec 16} {xport : XPort}
    (hport : env.port xbridge port = some xport) {out : NormalOutput}
    (hout : out.usePriorityTags = false) :
    MaskedUpdate W p q (normalPort xport out) (normalPort xport out) := by
  have ho := outputPort_masked hP hE hport
  refine ⟨fun c => ?_, fun c d h hw => ?_⟩
  · rw [normalPort_eq]
    exact ho.grows (c.put .vlanTci (normalTci out (c.flow .vlanTci)))
  by_cases hnone : xport.odpPort = odppNone
  · -- nothing leaves the switch
    have hsame (e : XlateCtx) : normalPort xport out e = e := by
      rw [normalPort_eq, outputPort_eq hE hport, if_pos hnone]
      rfl
    rw [hsame, hsame]
    exact h
  · rw [normalPort_eq] at hw ⊢
    rw [normalPort_eq]
    have hcommit : W.Full .vlanTci ∨ c.base .vlanTci = normalTci out (c.flow .vlanTci) := by
      rcases outputPort_full_vlan hP hE hport hnone
        (c.put .vlanTci (normalTci out (c.flow .vlanTci))) with hsame | hfull
      · have hput : (c.put .vlanTci (normalTci out (c.flow .vlanTci))).flow .vlanTci =
            normalTci out (c.flow .vlanTci) := Flow.set_self c.flow .vlanTci _
        exact .inr (hsame.trans hput)
      · exact .inl (hw.full hfull)
    exact h.restore (ho.twin _ _ (h.putNormal hP hW hout hcommit) hw)

/-- `output_normal` on a switch whose learning ports are not patch ports. -/
def normalStep (env : Env) (xbridge : Nat) (out : NormalOutput) (c : XlateCtx) : XlateCtx :=
  match env.port xbridge out.port with
  | none => c
  | some xport => if xport.config.noFwd then c else normalPort xport out c

theorem normalStep_grows (hP : Pair W p q) (hE : SafeEnv env) (xbridge : Nat) (out : NormalOutput)
    (c : XlateCtx) : c.wc.Within (normalStep env xbridge out c).wc := by
  unfold normalStep
  split
  · exact .refl c.wc
  · rename_i xport hport
    split
    · exact .refl c.wc
    · rw [normalPort_eq]
      exact (outputPort_masked hP hE hport).grows (c.put .vlanTci (normalTci out (c.flow .vlanTci)))

theorem normalStep_twin (hP : Pair W p q) (hE : SafeEnv env)
    (hW : Within normalMask (W .vlanTci)) {xbridge : Nat} {out : NormalOutput}
    (hout : out.usePriorityTags = false) {c d : XlateCtx} (h : Twin W p q c d)
    (hw : (normalStep env xbridge out c).wc.Within W) :
    Twin W p q (normalStep env xbridge out c) (normalStep env xbridge out d) := by
  unfold normalStep at hw ⊢
  cases hport : env.port xbridge out.port with
  | none => exact h
  | some xport =>
    rw [hport] at hw
    dsimp only at hw ⊢
    split
    · exact h
    · rename_i hfwd
      rw [if_neg hfwd] at hw
      exact (normalPort_masked hP hE hW hport hout).twin c d h hw

theorem outputNormal_eq {A : Type} {xin : XlateIn} {inner : Inner A} {xbridge : Nat}
    {out : NormalOutput} (hpeer : ∀ xport, env.port xbridge out.port = some xport → xport.peer = none)
    {s : A × XlateCtx} (hs : s.2.xbridge = xbridge) :
    outputNormal env xin inner out s = .ok (⟨⟩, s.1, normalStep env xbridge out s.2) := by
  have hb : (s.2.put .vlanTci (normalTci out (s.2.flow .vlanTci))).xbridge = xbridge := hs
  have hsame : (s.2.put .vlanTci (normalTci out (s.2.flow .vlanTci))).put .vlanTci
      (s.2.flow .vlanTci) = s.2 := put_restore rfl
  unfold outputNormal normalStep
  cases hport : env.port xbridge out.port with
  | none =>
    refine (bracket_eq (r := (⟨⟩, s.1, s.2.put .vlanTci (normalTci out (s.2.flow .vlanTci)))) ?_).trans
      (by rw [hsame])
    unfold composeOutputAction branch
    simp only [hb, hport]
    rfl
  | some xport =>
    dsimp only
    by_cases hfwd : xport.config.noFwd = true
    · rw [if_pos hfwd]
      refine (bracket_eq (r := (⟨⟩, s.1, s.2.put .vlanTci (normalTci out (s.2.flow .vlanTci))))
        ?_).trans (by rw [hsame])
      unfold composeOutputAction branch
      simp only [hb, hport, hfwd]
      rfl
    · rw [if_neg hfwd]
      refine bracket_eq (r := (⟨⟩, s.1,
        outputPort xport (s.2.put .vlanTci (normalTci out (s.2.flow .vlanTci))))) ?_
      unfold composeOutputAction branch
      simp only [hb, hport, hfwd, hpeer xport hport]
      rfl

theorem normalView_masked (hP : Pair W p q) : Masked W p q normalView normalView := by
  refine ⟨fun c => ?_, fun c d h hw => ?_⟩
  · exact (c.unwildcards_grows [.dlSrc, .dlDst]).trans
      ((c.unwildcards [.dlSrc, .dlDst]).observe_grows .vlanTci _)
  have hW : Within (vlanVidMask ||| vlanCfi) (W .vlanTci) :=
    observed_within (c := c.unwildcards [.dlSrc, .dlDst]) (f := .vlanTci) hw
  have hmac {f : FlowField} (hf : f ∈ [FlowField.dlSrc, .dlDst]) : W.Full f := by
    refine Flow.Within.full (m := (c.unwildcards [.dlSrc, .dlDst]).wc) ?_ (c.unwildcards_full hf)
    exact ((c.unwildcards [.dlSrc, .dlDst]).observe_grows .vlanTci _).trans hw
  have hvlan : c.flow .vlanTci &&& (vlanVidMask ||| vlanCfi) =
      d.flow .vlanTci &&& (vlanVidMask ||| vlanCfi) := (h.flow .vlanTci).mono hW
  refine ⟨?_, (h.unwildcards (.inr (by decide))).observe (by decide) _⟩
  unfold normalView
  dsimp only
  rw [h.rest XlateCtx.xbridge fun _ => rfl, h.flow_eq hP.inPort, h.flow_eq hP.dlType,
    h.flow_eq (hmac (f := .dlSrc) (by decide)), h.flow_eq (hmac (f := .dlDst) (by decide)), hvlan]

/-! ## Other steps -/

theorem selectBucket_masked (live : List (List Act)) (best : BitVec 48 → Nat) :
    Masked W p q (selectBucket live best) (selectBucket live best) := by
  have hsome (dst : BitVec 48) (hlive : live ≠ []) :
      ∃ bucket, bestLiveBucket live best dst = some bucket := by
    have hlt := Nat.mod_lt (best dst) (List.length_pos_iff.mpr hlive)
    exact ⟨_, List.getElem?_eq_getElem hlt⟩
  refine ⟨fun c => ?_, fun c d h hw => ?_⟩
  · unfold selectBucket
    split
    · exact c.unwildcard_grows .dlDst
    · exact .refl c.wc
  · by_cases hlive : live = []
    · subst hlive
      exact ⟨rfl, h⟩
    · obtain ⟨bucket, hb⟩ := hsome (c.flow .dlDst) hlive
      unfold selectBucket at hw ⊢
      rw [hb] at hw ⊢
      have hfull : W.Full .dlDst := hw.full (c.unwildcard_full .dlDst)
      rw [← h.flow_eq hfull, hb]
      exact ⟨rfl, h.unwildcard (.inr (by decide))⟩

theorem writeMetadata_masked (metadata mask : BitVec 64) :
    MaskedUpdate W p q (writeMetadata metadata mask) (writeMetadata metadata mask) :=
  .of_twin (fun _ => rfl) fun _ _ h => h.putMeta rfl rfl (((h.flow .metadata).and _).or (.refl _ _))

theorem Own.enterPeer (hin : W.Full .inPort) (peer : Peer) {c : XlateCtx}
    (h : Own W p c.flow c.base) : Own W p (enterPeer peer c).flow c.base where
  flowOutside := by
    intro f hf
    cases f
    case inPort => exact .outside hin _ _
    all_goals first
      | exact h.flowOutside _ hf
      | cases hf
  baseOutside := h.baseOutside
  vlan := h.vlan
  ports := h.ports.imp_right fun hp f hf => by
    rcases List.mem_cons.mp hf with rfl | hf
    · exact hp .tpSrc (by decide)
    · obtain rfl := List.mem_singleton.mp hf
      exact hp .tpDst (by decide)
  basePorts := h.basePorts
  proto := h.proto

theorem Twin.enterPeer (hP : Pair W p q) (peer : Peer) {c d : XlateCtx} (h : Twin W p q c d) :
    Twin W p q (enterPeer peer c) (enterPeer peer d) where
  left := h.left.enterPeer hP.inPort peer
  right := h.right.enterPeer hP.inPort peer
  flow := by
    intro f
    cases f
    all_goals first
      | exact h.flow _
      | exact .refl _ _
  base := h.base
  known := h.known
  bare := congrArg (fun b : XlateCtx => { b with xbridge := peer.xbridge }) h.bare

end steps

/-! ## The simulation -/

section simulation

variable {A B α : Type}

/-- Translations that agree under the masks `W`. -/
def maskSpec (W p q : Flow) (appRel : A → B → Prop) : XlateSpec A B where
  good s := s.2.wc.Within W
  bad _ := True
  inv _ := True
  kept _ s := Within normalMask (s.2.wc .vlanTci)
  rel s t := appRel s.1 t.1 ∧ Pair W p q ∧ Twin W p q s.2 t.2

variable {W p q : Flow} {appRel : A → B → Prop}

theorem maskSpec_kept {m : Milestone} {s s' : A × XlateCtx} (hw : s.2.wc.Within s'.2.wc)
    (h : (maskSpec (B := B) W p q appRel).kept m s) :
    (maskSpec (B := B) W p q appRel).kept m s' :=
  Within.trans h (hw .vlanTci)

/-- There are packets to which the conditions apply: that masks only grow does not
depend on the packets. -/
theorem Pair.full : Pair (fun f => BitVec.allOnes f.width) noMasks noMasks where
  inPort := rfl
  skbPriority := rfl
  dlType := rfl
  frag := .inr rfl
  noProto := fun _ => rfl
  noPorts := fun _ _ _ _ => ⟨rfl, rfl⟩
  untagged := fun _ => rfl

theorem step_of_masked {f f' : XlateCtx → α × XlateCtx}
    (h : ∀ {W p q : Flow}, Pair W p q → Masked W p q f f') :
    Step (maskSpec W p q appRel) f f' := by
  have hgrows := (h .full).grows
  refine ⟨fun s r hi _ hr => ?_, fun s _ _ hg => (hgrows s.2).trans hg, fun s t _ _ hr hg => ?_⟩
  · obtain rfl := Except.ok.inj hr
    exact ⟨hi, fun m hm => maskSpec_kept (hgrows s.2) hm⟩
  · obtain ⟨happ, hP, ht⟩ := hr
    obtain ⟨hres, ht'⟩ := (h hP).twin s.2 t.2 ht hg
    exact ⟨hres, happ, hP, ht'⟩

theorem update_of_masked {f f' : XlateCtx → XlateCtx}
    (h : ∀ {W p q : Flow}, Pair W p q → MaskedUpdate W p q f f') :
    Update (maskSpec W p q appRel) f f' :=
  step_of_masked fun hP => (h hP).result PUnit.unit

/-- Brackets that leave the masks alone. -/
theorem brackets_masked {enter : XlateCtx → XlateCtx} {leave : XlateCtx → XlateCtx → XlateCtx}
    (henter : ∀ c, (enter c).wc = c.wc) (hleave : ∀ c c', (leave c c').wc = c'.wc)
    (hin : Pair W p q → ∀ c d, Twin W p q c d → Twin W p q (enter c) (enter d))
    (hout : Pair W p q → ∀ c d c' d', Twin W p q c d → Twin W p q c' d' →
      Twin W p q (leave c c') (leave d d')) :
    Brackets (maskSpec W p q appRel) enter leave := by
  have hwIn (c : XlateCtx) : c.wc.Within (enter c).wc := by
    rw [henter]
    exact .refl c.wc
  have hwOut (c c' : XlateCtx) : c'.wc.Within (leave c c').wc := by
    rw [hleave]
    exact .refl c'.wc
  exact BracketRule.brackets {
    invIn := fun _ hi => hi
    invOut := fun _ _ _ hi => hi
    keptIn := fun _ s hk => maskSpec_kept (hwIn s.2) hk
    keptOut := fun _ s r hk => maskSpec_kept (hwOut s.2 r.2) hk
    goodIn := fun s hg => (hwIn s.2).trans hg
    goodOut := fun s r hg => (hwOut s.2 r.2).trans hg
    relIn := fun s t ⟨happ, hP, ht⟩ => ⟨happ, hP, hin hP s.2 t.2 ht⟩
    relOut := fun s t r r' ⟨_, hP, ht⟩ ⟨happ, _, ht'⟩ =>
      ⟨happ, hP, hout hP s.2 t.2 r.2 r'.2 ht ht'⟩ }

/-- A step on the other state alone leaves masks and packets as they are. -/
theorem onState_masked {f : A → Except Fault (α × A)} {f' : B → Except Fault (α × B)}
    (h : ∀ a b r, appRel a b → f a = .ok r → ∃ b', f' b = .ok (r.1, b') ∧ appRel r.2 b') :
    Sim (maskSpec W p q appRel) anywhere (onState f) (onState f') := by
  refine Sim.of_ok (fun _ => trivial) (fun s r _ _ hr => ?_) (fun s r hr hg => ?_) ?_
  · obtain ⟨_, _, rfl⟩ := onState_ok hr
    exact ⟨trivial, fun _ hk => hk⟩
  · obtain ⟨_, _, rfl⟩ := onState_ok hr
    exact hg
  · intro s t r _ _ hrel hr _
    obtain ⟨a', ha, rfl⟩ := onState_ok hr
    obtain ⟨b', hb, happ⟩ := h s.1 t.1 a' hrel.1 ha
    refine ⟨(b', t.2), ?_, happ, hrel.2⟩
    unfold onState
    rw [hb]
    rfl

/-- What the inputs of the two translations have in common. -/
structure SameInput (xin xin' : XlateIn) : Prop where
  packet : xin.packet = xin'.packet
  priority : xin.flow .skbPriority = xin'.flow .skbPriority
  masks : xin.skipWildcards = false

theorem receive_eq {config : PortConfig} (h : config.noRecv = config.noRecvStp) (fl fl' : Flow) :
    mayReceive config fl = mayReceive config fl' := by
  unfold mayReceive
  rw [h, ite_self, ite_self]

theorem Twin.control_eq (hP : Pair W p q) {c d : XlateCtx} (h : Twin W p q c d) :
    c.control = d.control := by
  have hbridge : c.xbridge = d.xbridge := h.rest XlateCtx.xbridge fun _ => rfl
  have htable : c.tableId = d.tableId := h.rest XlateCtx.tableId fun _ => rfl
  have hexit : c.exit = d.exit := h.rest XlateCtx.exit fun _ => rfl
  have hlimits : withinLimits c = withinLimits d := h.rest withinLimits fun _ => rfl
  have hset : c.actionSet = d.actionSet := h.rest XlateCtx.actionSet fun _ => rfl
  unfold XlateCtx.control
  rw [hbridge, h.flow_eq hP.inPort, htable, hexit, hlimits, hset]

theorem sim_outputNormal_masked {env : Env} (hE : SafeEnv env) {xin xin' : XlateIn}
    {inner : Inner A} {inner' : Inner B} {xbridge : Nat} {input : NormalIn} {dst : Option Nat}
    {out : NormalOutput} (hout : out ∈ env.normal xbridge input dst) :
    Sim (maskSpec W p q appRel)
      (fun s => s.2.xbridge = xbridge ∧ (maskSpec W p q appRel).kept .normal s)
      (outputNormal env xin inner out) (outputNormal env xin' inner' out) := by
  obtain ⟨htags, hpeer⟩ := hE.normal xbridge input dst out hout
  have hgrows := normalStep_grows .full hE xbridge out
  refine ⟨fun s r hi hp hr => ?_, fun s hi hp hg => ?_, fun s t hi hp hr hg => ?_⟩
  · rw [outputNormal_eq hpeer hp.1] at hr
    obtain rfl := Except.ok.inj hr
    exact ⟨hi, fun m hm => maskSpec_kept (hgrows s.2) hm⟩
  · rw [outputNormal_eq hpeer hp.1] at hg
    exact (hgrows s.2).trans hg
  · obtain ⟨happ, hP, ht⟩ := hr
    have hbridge : t.2.xbridge = xbridge := (ht.rest XlateCtx.xbridge fun _ => rfl).symm.trans hp.1
    rw [outputNormal_eq hpeer hp.1] at hg ⊢
    rw [outputNormal_eq hpeer hbridge]
    have hW : Within normalMask (W .vlanTci) := Within.trans hp.2 (((hgrows s.2).trans hg) .vlanTci)
    exact ⟨rfl, happ, hP, normalStep_twin hP hE hW htags ht hg⟩

/-- The masks of a safe switch cover every step of a translation. -/
theorem maskSteps {env : Env} (hE : SafeEnv env) {xin xin' : XlateIn} (hI : SameInput xin xin') :
    Steps env xin xin' (maskSpec W p q appRel) where
  control := fun s t ⟨_, hP, ht⟩ => ht.control_eq hP
  receive := fun xbridge port xport peer hport hpeer s t _ =>
    receive_eq ((hE.receive xbridge port xport hport).2 peer hpeer) _ _
  arrives := by
    intro s t ⟨_, hP, ht⟩
    unfold arrives
    rw [ht.rest XlateCtx.xbridge fun _ => rfl, ht.flow_eq hP.inPort]
    split
    · rename_i xport hport
      exact receive_eq (hE.receive _ _ xport hport).1 _ _
    · rfl
  inBand := by
    intro s t _
    rw [inBandDue, inBandDue, hE.inBand, hE.inBand]
    rfl
  assertion := fun _ _ _ hbad => absurd trivial hbad
  stop := update_of_masked fun _ => exit_masked
  resubmit := update_of_masked fun _ => .of_twin (fun _ => rfl) fun _ _ h =>
    ⟨h.left, h.right, h.flow, h.base, h.known,
      congrArg (fun b : XlateCtx => { b with resubmits := b.resubmits + 1 }) h.bare⟩
  clear := update_of_masked fun _ => .of_twin (fun _ => rfl) fun _ _ h =>
    ⟨h.left, h.right, h.flow, h.base, h.known,
      congrArg (fun b : XlateCtx => { b with actionSet := [] }) h.bare⟩
  write := fun acts => update_of_masked fun _ => .of_twin (fun _ => rfl) fun _ _ h =>
    ⟨h.left, h.right, h.flow, h.base, h.known,
      congrArg (fun b : XlateCtx => { b with actionSet := b.actionSet ++ acts }) h.bare⟩
  metadata := fun metadata mask => update_of_masked fun _ => writeMetadata_masked metadata mask
  lookup := fun inPort tableId mayPacketIn => step_of_masked fun hP =>
    lookupRule_masked hP hE hI.masks inPort tableId mayPacketIn
  localAct := fun act => step_of_masked fun hP =>
    localAct_masked hP hE.load hE.learn hI.packet hI.priority act
  compute := fun operand => step_of_masked fun _ => registers_masked (hE.compute operand)
  select := fun live best => step_of_masked fun _ => selectBucket_masked live best
  controller := update_of_masked fun hP => executeControllerAction_masked hP hI.packet
  output := fun xbridge port xport hport _ => update_of_masked fun hP => outputPort_masked hP hE hport
  normal := step_of_masked fun hP => normalView_masked hP
  normalSeen := fun s _ => observed_within (c := s.2.unwildcards [.dlSrc, .dlDst]) (f := .vlanTci)
    (Flow.Within.refl _)
  outputNormal := fun _ _ _ _ _ _ hout _ => sim_outputNormal_masked hE hout
  table := brackets_masked (fun _ => rfl) (fun _ _ => rfl) (fun _ _ _ h => h)
    fun _ c d c' d' h h' => ⟨h'.left, h'.right, h'.flow, h'.base, h'.known, by
      have htable : c.tableId = d.tableId := h.rest XlateCtx.tableId fun _ => rfl
      show { c'.bare with tableId := c.tableId } = { d'.bare with tableId := d.tableId }
      rw [h'.bare, htable]⟩
  peer := fun xbridge port xport peer _ _ => brackets_masked (fun _ => rfl) (fun _ _ => rfl)
    (fun hP _ _ h => h.enterPeer hP peer) fun _ c d c' d' h h' =>
    ⟨h.left.mix h'.left, h.right.mix h'.right, h.flow, h'.base, h'.known, by
      have hbridge : c.xbridge = d.xbridge := h.rest XlateCtx.xbridge fun _ => rfl
      show { c'.bare with xbridge := c.xbridge } = { d'.bare with xbridge := d.xbridge }
      rw [h'.bare, hbridge]⟩
  bucket := brackets_masked (fun _ => rfl) (fun _ _ => rfl) (fun _ _ _ h => h)
    fun _ _ _ _ _ h h' => h.restore h'
  queue := fun priority => brackets_masked (fun _ => rfl) (fun _ _ => rfl)
    (fun hP _ _ h => h.putPlain rfl hP.skbPriority rfl)
    fun hP _ _ _ _ h h' => h'.putPlain rfl hP.skbPriority (h.flow_eq hP.skbPriority)

end simulation

end Sdpa.Switch
