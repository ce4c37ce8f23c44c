import Sdpa.Switch.TwinCommit

/-!
# Actions on packets that the masks do not tell apart

Each action that translation carries out in place un-wildcards what it depends on
and what it writes. Actions on subfields are given by the environment, so that this
is asked of them.
-/
namespace Sdpa.Switch

open Sdpa.Lib.Masks Sdpa.Lib.Endian

/-! ## Values of narrow fields -/

theorem htons_within {a b : BitVec 16} (h : Within a b) : Within (htons a) (htons b) := by
  unfold Within htons at *
  exact (bswap_and 2 a b).symm.trans (congrArg (bswap 2) h)

theorem htonl_within {a b : BitVec 32} (h : Within a b) : Within (htonl a) (htonl b) := by
  unfold Within htonl at *
  exact (bswap_and 4 a b).symm.trans (congrArg (bswap 4) h)

theorem vid_within (vid : BitVec 12) : Within (htons (vid.setWidth 16)) vlanVidMask :=
  htons_within (Within.setWidth vid)

theorem pcp_within (pcp : BitVec 3) :
    Within (htons ((pcp.setWidth 16 <<< 13) ||| 0x1000)) (vlanPcpMask ||| vlanCfi) := by
  have h : Within ((pcp.setWidth 16 <<< 13) ||| 0x1000) (0xf000 : BitVec 16) :=
    .or ((Within.setWidth pcp).shiftLeft 13 |>.trans (by decide)) (by decide)
  exact htons_within h

theorem dscp_within (dscp : BitVec 6) : Within (dscp.setWidth 8 <<< 2) ipDscpMask :=
  (Within.setWidth dscp).shiftLeft 2

theorem ecn_within (ecn : BitVec 2) : Within (ecn.setWidth 8) ipEcnMask := Within.setWidth ecn

theorem mplsLabel_within (label : BitVec 20) :
    Within (htonl (label.setWidth 32 <<< 12)) mplsLabelMask :=
  htonl_within ((Within.setWidth label).shiftLeft 12)

theorem mplsTc_within (tc : BitVec 3) : Within (htonl (tc.setWidth 32 <<< 9)) mplsTcMask :=
  htonl_within ((Within.setWidth tc).shiftLeft 9)

theorem mplsTtl_within (ttl : BitVec 8) : Within (htonl (ttl.setWidth 32)) mplsTtlMask :=
  htonl_within (Within.setWidth ttl)

/-! ## Overwriting -/

/-- Fields that actions may write freely: neither the protocol nor a port. -/
def FlowField.isPlain (f : FlowField) : Bool :=
  match f with
  | .nwProto | .tpSrc | .tpDst => false
  | _ => true

theorem FlowField.ne_nwProto_of_isPlain {f : FlowField} (h : f.isPlain = true) : f ≠ .nwProto := by
  rintro rfl
  cases h

theorem FlowField.not_mem_portFields {f : FlowField} (h : f.isPlain = true) : f ∉ portFields := by
  intro hf
  rcases List.mem_cons.mp hf with rfl | hf
  · cases h
  · obtain rfl := List.mem_singleton.mp hf
    cases h

section overwriting

variable {W p q : Flow} {c d : XlateCtx}

/-- The same change of bits that the masks cover. -/
theorem Twin.putBits (h : Twin W p q c d) {f : FlowField} (hf : f.isPlain = true)
    {k v : BitVec f.width} (hk : Within k (W f)) (hv : Within v (W f)) :
    Twin W p q (c.put f ((c.flow f &&& ~~~k) ||| v)) (d.put f ((d.flow f &&& ~~~k) ||| v)) :=
  h.put (((h.flow f).and _).or (.refl _ v))
    (fun hh => (AgreeOn.overwrite hk hv).trans (h.left.flowOutside f hh))
    (fun hh => (AgreeOn.overwrite hk hv).trans (h.right.flowOutside f hh))
    (FlowField.ne_nwProto_of_isPlain hf) (fun hm => absurd hm (FlowField.not_mem_portFields hf))

theorem Twin.putPlain (h : Twin W p q c d) {f : FlowField} (hf : f.isPlain = true) (hW : W.Full f)
    {v w : BitVec f.width} (hvw : v = w) : Twin W p q (c.put f v) (d.put f w) :=
  h.putFull hW hvw (FlowField.ne_nwProto_of_isPlain hf)
    (fun hm => absurd hm (FlowField.not_mem_portFields hf))

/-- A field that is not of the packet needs no masks. -/
theorem Twin.putMeta (h : Twin W p q c d) {f : FlowField} (hf : f.isPlain = true)
    (hh : f.isHeader = false) {v w : BitVec f.width} (hvw : AgreeOn (W f) v w) :
    Twin W p q (c.put f v) (d.put f w) :=
  h.put hvw (fun hht => by rw [hh] at hht; cases hht) (fun hht => by rw [hh] at hht; cases hht)
    (FlowField.ne_nwProto_of_isPlain hf) (fun hm => absurd hm (FlowField.not_mem_portFields hf))

theorem observed_within {f : FlowField} {m : BitVec f.width} (hw : (c.observe f m).wc.Within W) :
    Within m (W f) := by
  have h := hw f
  simp only [XlateCtx.observe, Flow.set_self] at h
  exact (Within.right _ _).trans h

theorem overwrite_masked {f : FlowField} (hf : f.isPlain = true) (v : BitVec f.width) :
    MaskedUpdate W p q (overwrite f v) (overwrite f v) where
  grows := fun c => c.unwildcard_grows f
  twin := fun c _ h hw => Twin.putPlain
    (h.unwildcard (.inr (FlowField.not_mem_portFields hf))) hf (hw.full (c.unwildcard_full f)) rfl

theorem overwriteBits_masked {f : FlowField} (hf : f.isPlain = true) {m v : BitVec f.width}
    (hv : Within v m) : MaskedUpdate W p q (overwriteBits f m v) (overwriteBits f m v) where
  grows := fun c => c.observe_grows f m
  twin := by
    intro c d h hw
    have hm : Within m (W f) := observed_within (c := c) hw
    have ho := h.observe (FlowField.not_mem_portFields hf) m
    exact ho.putBits hf hm (hv.trans hm)

/-! ## VLAN and IP -/

/-- The common form of the two actions that set a part of a tag. -/
theorem setVlan_masked {m k v : BitVec 16} (push : Bool) (hcfi : Within vlanCfi m)
    (hk : Within k m) (hv : Within v m) :
    MaskedUpdate W p q
      (fun c => if (c.observe .vlanTci m).flow .vlanTci &&& vlanCfi ≠ 0 ∨ push = true then
          (c.observe .vlanTci m).put .vlanTci
            (((c.observe .vlanTci m).flow .vlanTci &&& ~~~k) ||| v)
        else c.observe .vlanTci m)
      (fun d => if (d.observe .vlanTci m).flow .vlanTci &&& vlanCfi ≠ 0 ∨ push = true then
          (d.observe .vlanTci m).put .vlanTci
            (((d.observe .vlanTci m).flow .vlanTci &&& ~~~k) ||| v)
        else d.observe .vlanTci m) where
  grows := by
    intro c
    split <;> exact c.observe_grows .vlanTci m
  twin := by
    intro c d h hw
    have hm : Within m (W .vlanTci) := by
      refine observed_within (c := c) (f := .vlanTci) ?_
      revert hw
      split <;> exact id
    have ho := h.observe (f := .vlanTci) (by decide) m
    have htag : (c.observe .vlanTci m).flow .vlanTci &&& vlanCfi =
        (d.observe .vlanTci m).flow .vlanTci &&& vlanCfi := (ho.flow .vlanTci).mono (hcfi.trans hm)
    rw [htag]
    split
    · exact ho.putBits rfl (hk.trans hm) (hv.trans hm)
    · exact ho

theorem setVlanVid_masked (vid : BitVec 12) (push : Bool) :
    MaskedUpdate W p q (setVlanVid vid push) (setVlanVid vid push) :=
  setVlan_masked push (.right _ _) (.left _ _)
    (.or ((vid_within vid).trans (.left _ _)) (.right _ _))

theorem setVlanPcp_masked (pcp : BitVec 3) (push : Bool) :
    MaskedUpdate W p q (setVlanPcp pcp push) (setVlanPcp pcp push) :=
  setVlan_masked push (.right _ _) (.left _ _) (pcp_within pcp)

section pair

variable (hP : Pair W p q)
include hP

theorem Twin.isIpAny_flow (h : Twin W p q c d) : isIpAny c.flow = isIpAny d.flow := by
  rw [isIpAny, isIpAny, h.flow_eq hP.dlType]

/-- An action that only applies to IP. -/
theorem ifIp_masked {f f' : XlateCtx → XlateCtx} (h : MaskedUpdate W p q f f') :
    MaskedUpdate W p q (fun c => if isIpAny c.flow then f c else c)
      (fun d => if isIpAny d.flow then f' d else d) :=
  .ite (fun c d ht => by rw [ht.isIpAny_flow hP]) h .refl

theorem ifIpv4_masked {f f' : XlateCtx → XlateCtx} (h : MaskedUpdate W p q f f') :
    MaskedUpdate W p q (fun c => if c.flow .dlType = ethTypeIp then f c else c)
      (fun d => if d.flow .dlType = ethTypeIp then f' d else d) :=
  .ite (fun c d ht => by rw [ht.flow_eq hP.dlType]) h .refl

theorem setL4Port_masked {f : FlowField} (hf : f ∈ portFields) (v : BitVec f.width) :
    MaskedUpdate W p q (setL4Port f v) (setL4Port f v) := by
  refine ifIp_masked hP ⟨fun c => ?_, fun c d h hw => ?_⟩
  · exact (c.unwildcard_grows .nwProto).trans ((c.unwildcard .nwProto).unwildcard_grows f)
  · have hproto : W.Full .nwProto := hw.full
      (((c.unwildcard .nwProto).unwildcard_grows f).full (c.unwildcard_full .nwProto))
    have hport : W.Full f := hw.full ((c.unwildcard .nwProto).unwildcard_full f)
    refine Twin.putFull ((h.unwildcard (.inl hproto)).unwildcard (.inl hproto)) hport rfl ?_
      fun _ => hproto
    rintro rfl
    exact absurd hf (by decide)

theorem executeControllerAction_masked {xin xin' : XlateIn} (hpacket : xin.packet = xin'.packet) :
    MaskedUpdate W p q (executeControllerAction xin) (executeControllerAction xin') := by
  have hslow : MaskedUpdate W p q (fun c => { c with slow := { c.slow with controller := true } })
      (fun d => { d with slow := { d.slow with controller := true } }) :=
    ⟨fun c => .refl c.wc, fun c d h _ => ⟨h.left, h.right, h.flow, h.base, h.known,
      congrArg (fun b : XlateCtx => { b with slow := { b.slow with controller := true } }) h.bare⟩⟩
  exact hslow.comp (.ite (v := fun _ => xin.packet = true)
    (fun _ _ _ => by rw [hpacket]) (commitOdpActions_masked hP) .refl)

/-! ## Actions that may end a list -/

theorem composeDecTtl_masked {xin xin' : XlateIn} (hpacket : xin.packet = xin'.packet)
    (controllers : Nat) :
    Masked W p q (composeDecTtl xin controllers) (composeDecTtl xin' controllers) := by
  have hctl := (executeControllerAction_masked hP hpacket).iterate controllers
  have hg (c : XlateCtx) :
      (c.unwildcard .nwTtl).wc.Within (composeDecTtl xin controllers c).2.wc := by
    unfold composeDecTtl
    dsimp only
    split
    · split
      · exact .refl _
      · exact hctl.grows _
    · exact .refl _
  refine ⟨fun c => (c.unwildcard_grows .nwTtl).trans (hg c), fun c d h hw => ?_⟩
  have hfull := ((hg c).trans hw).full (c.unwildcard_full .nwTtl)
  have hu := h.unwildcard (f := .nwTtl) (.inr (by decide))
  unfold composeDecTtl at hw ⊢
  dsimp only at hw ⊢
  rw [← hu.isIpAny_flow hP, ← hu.flow_eq hfull]
  by_cases hip : isIpAny (c.unwildcard .nwTtl).flow = true
  · rw [if_pos hip] at hw ⊢
    rw [if_pos hip]
    by_cases httl : (1 : BitVec 8).ult ((c.unwildcard .nwTtl).flow .nwTtl) = true
    · rw [if_pos httl, if_pos httl]
      exact ⟨rfl, hu.putPlain rfl hfull rfl⟩
    · rw [if_neg httl] at hw ⊢
      rw [if_neg httl]
      exact ⟨rfl, hctl.twin _ _ hu hw⟩
  · rw [if_neg hip, if_neg hip]
    exact ⟨rfl, hu⟩

omit hP in
theorem Twin.setDelta (h : Twin W p q c d) (delta : MplsDelta) :
    Twin W p q { c with mplsDepthDelta := delta } { d with mplsDepthDelta := delta } :=
  ⟨h.left, h.right, h.flow, h.base, h.known,
    congrArg (fun b : XlateCtx => { b with mplsDepthDelta := delta }) h.bare⟩

omit hP in
theorem Twin.setPrePush (h : Twin W p q c d) {lse lse' : BitVec 32} (hl : lse = lse') :
    Twin W p q { c with prePushMplsLse := lse } { d with prePushMplsLse := lse' } :=
  ⟨h.left, h.right, h.flow, h.base, h.known, by
    subst hl
    exact congrArg (fun b : XlateCtx => { b with prePushMplsLse := lse }) h.bare⟩

theorem Twin.firstMplsLse_eq (h : Twin W p q c d) (httl : W.Full .nwTtl)
    (htos : Within ipDscpMask (W .nwTos)) : firstMplsLse c.flow = firstMplsLse d.flow := by
  have hdscp : c.flow .nwTos &&& ipDscpMask = d.flow .nwTos &&& ipDscpMask :=
    (h.flow .nwTos).mono htos
  rw [firstMplsLse, firstMplsLse, h.flow_eq httl, hdscp, h.flow_eq hP.dlType]

omit hP in
theorem Twin.delta_eq (h : Twin W p q c d) : c.mplsDepthDelta = d.mplsDepthDelta :=
  h.rest XlateCtx.mplsDepthDelta fun _ => rfl

omit hP in
theorem observe_unwildcard_grows (c : XlateCtx) :
    c.wc.Within ((c.observe .nwTos ipDscpMask).unwildcard .nwTtl).wc :=
  (c.observe_grows .nwTos ipDscpMask).trans
    ((c.observe .nwTos ipDscpMask).unwildcard_grows .nwTtl)

/-- The part of a push that sets the label, the label being un-wildcarded. -/
theorem pushLse_masked (hlse : W.Full .mplsLse) :
    MaskedUpdate W p q
      (fun c => if ethTypeMpls (c.flow .dlType) then
          c.put .mplsLse (c.flow .mplsLse &&& ~~~mplsBosMask)
        else
          ((c.observe .nwTos ipDscpMask).unwildcard .nwTtl).put .mplsLse
            (firstMplsLse ((c.observe .nwTos ipDscpMask).unwildcard .nwTtl).flow))
      (fun d => if ethTypeMpls (d.flow .dlType) then
          d.put .mplsLse (d.flow .mplsLse &&& ~~~mplsBosMask)
        else
          ((d.observe .nwTos ipDscpMask).unwildcard .nwTtl).put .mplsLse
            (firstMplsLse ((d.observe .nwTos ipDscpMask).unwildcard .nwTtl).flow)) := by
  refine .ite (fun c d h => by rw [h.flow_eq hP.dlType])
    ⟨fun c => .refl c.wc, fun c d h _ => h.putPlain rfl hlse (by rw [h.flow_eq hlse])⟩
    ⟨fun c => ?_, fun c d h hw => ?_⟩
  · exact observe_unwildcard_grows c
  · have httl := hw.full ((c.observe .nwTos ipDscpMask).unwildcard_full .nwTtl)
    have htos : Within ipDscpMask (W .nwTos) := observed_within (c := c) (f := .nwTos)
      (((c.observe .nwTos ipDscpMask).unwildcard_grows .nwTtl).trans hw)
    have ho := (h.observe (f := .nwTos) (by decide) ipDscpMask).unwildcard (f := .nwTtl)
      (.inr (by decide))
    exact ho.putPlain rfl hlse (ho.firstMplsLse_eq hP httl htos)

theorem composeMplsPushAction_masked (ethType : BitVec 16) :
    Masked W p q (composeMplsPushAction ethType) (composeMplsPushAction ethType) := by
  refine .ite (fun c d h => ?_) (MaskedUpdate.refl.result true) ⟨fun c => ?_, fun c d h hw => ?_⟩
  · have hlse : c.flow .mplsLse = c.base .mplsLse ↔ d.flow .mplsLse = d.base .mplsLse := by
      rw [eq_comm, h.unchanged_iff rfl, eq_comm]
    exact or_congr (by rw [h.delta_eq]) (not_congr hlse)
  · refine (c.unwildcard_grows .mplsLse).trans ?_
    dsimp only
    split
    · exact .refl _
    · exact observe_unwildcard_grows (c.unwildcard .mplsLse)
  · have hfull : W.Full .mplsLse := by
      refine Flow.Within.full (m := (c.unwildcard .mplsLse).wc) ?_ (c.unwildcard_full .mplsLse)
      refine Flow.Within.trans ?_ hw
      dsimp only
      split
      · exact .refl _
      · exact observe_unwildcard_grows (c.unwildcard .mplsLse)
    have hu := h.unwildcard (f := .mplsLse) (.inr (by decide))
    have hpre := hu.setPrePush (hu.flow_eq hfull)
    have hset := (pushLse_masked hP hfull).twin _ _ hpre hw
    exact ⟨rfl, (hset.putPlain rfl hP.dlType rfl).setDelta .pushed⟩

theorem composeMplsPopAction_masked (ethType : BitVec 16) :
    Masked W p q (composeMplsPopAction ethType) (composeMplsPopAction ethType) := by
  refine .ite (fun c d h => by rw [h.flow_eq hP.dlType]) (MaskedUpdate.refl.result true)
    ⟨fun c => ?_, fun c d h hw => ?_⟩
  · split
    · exact .refl c.wc
    · exact c.unwildcard_grows .mplsLse
    · exact c.unwildcard_grows .mplsLse
  have hlse : c.prePushMplsLse = d.prePushMplsLse := h.rest XlateCtx.prePushMplsLse fun _ => rfl
  have hu := h.unwildcard (f := .mplsLse) (.inr (by decide))
  rw [← h.delta_eq]
  cases hdelta : c.mplsDepthDelta with
  | popped => exact ⟨rfl, h⟩
  | pushed =>
    rw [hdelta] at hw
    have hfull : W.Full .mplsLse := hw.full (c.unwildcard_full .mplsLse)
    exact ⟨rfl, ((hu.putPlain rfl hfull hlse).putPlain rfl hP.dlType rfl).setDelta .unchanged⟩
  | unchanged => exact ⟨rfl, (hu.putPlain rfl hP.dlType rfl).setDelta .popped⟩

theorem composeSetMplsAction_masked {m v : BitVec 32} (hv : Within v m) :
    Masked W p q (composeSetMplsAction m v) (composeSetMplsAction m v) :=
  .ite (fun c d h => by rw [h.flow_eq hP.dlType]) (MaskedUpdate.refl.result true)
    (.ite (fun c d h => by rw [h.delta_eq]) (MaskedUpdate.refl.result true)
      ((overwriteBits_masked (f := .mplsLse) rfl hv).result false))

theorem composeDecMplsTtlAction_masked {xin xin' : XlateIn} (hpacket : xin.packet = xin'.packet) :
    Masked W p q (composeDecMplsTtlAction xin) (composeDecMplsTtlAction xin') := by
  have hctl := executeControllerAction_masked hP hpacket
  have hg (c : XlateCtx) :
      (c.unwildcard .mplsLse).wc.Within (composeDecMplsTtlAction xin c).2.wc := by
    unfold composeDecMplsTtlAction
    dsimp only
    split
    · exact .refl _
    split
    · exact .refl _
    · exact hctl.grows _
  refine ⟨fun c => (c.unwildcard_grows .mplsLse).trans (hg c), fun c d h hw => ?_⟩
  have hfull := ((hg c).trans hw).full (c.unwildcard_full .mplsLse)
  have hu := h.unwildcard (f := .mplsLse) (.inr (by decide))
  unfold composeDecMplsTtlAction at hw ⊢
  dsimp only at hw ⊢
  rw [← hu.flow_eq hP.dlType, ← hu.flow_eq hfull, ← h.flow_eq hfull]
  by_cases hm : (!ethTypeMpls ((c.unwildcard .mplsLse).flow .dlType)) = true
  · rw [if_pos hm, if_pos hm]
    exact ⟨rfl, hu⟩
  rw [if_neg hm] at hw ⊢
  rw [if_neg hm]
  by_cases httl : (1 : BitVec 8).ult (mplsLseToTtl (c.flow .mplsLse)) = true
  · rw [if_pos httl, if_pos httl]
    exact ⟨rfl, hu.putPlain rfl hfull rfl⟩
  · rw [if_neg httl] at hw ⊢
    rw [if_neg httl]
    exact ⟨rfl, hctl.twin _ _ hu hw⟩

end pair

/-! ## Actions on subfields -/

/-- An action on subfields un-wildcards what it reads and writes. It never writes the
protocol, and ports only when the protocol is known. -/
structure MasksUse {β : Type} (op : Registers → β × Registers) : Prop where
  grows : ∀ r : Registers, r.wc.Within (op r).2.wc
  known : ∀ r, (op r).2.wc.Full .nwProto ∨ ∀ f ∈ portFields, (op r).2.wc f = r.wc f
  proto : ∀ r, (op r).2.flow .nwProto = r.flow .nwProto
  alike : ∀ (W : Flow) (r r' : Registers), (op r).2.wc.Within W → W.AgreeOn r.flow r'.flow →
    r.stack = r'.stack → (op r).1 = (op r').1 ∧ (op r).2.stack = (op r').2.stack ∧
      W.AgreeOn (op r).2.flow (op r').2.flow
  outside : ∀ (W : Flow) (r r' : Registers), (op r).2.wc.Within W → W.AgreeOn r.flow r'.flow →
    r.stack = r'.stack → ∀ f, AgreeOn (~~~W f) ((op r').2.flow f) (r'.flow f)
  ports : ∀ (W : Flow) (r r' : Registers), (op r).2.wc.Within W → W.AgreeOn r.flow r'.flow →
    r.stack = r'.stack → W.Full .nwProto ∨ ∀ f ∈ portFields, (op r').2.flow f = r'.flow f

/-- A new flow that differs from the old one within the masks. -/
theorem Own.replace {base flow' : Flow} {flow : Flow} (h : Own W p flow base)
    (hout : ∀ f, AgreeOn (~~~W f) (flow' f) (flow f)) (hproto : flow' .nwProto = flow .nwProto)
    (hports : W.Full .nwProto ∨ ∀ f ∈ portFields, flow' f = flow f) : Own W p flow' base where
  flowOutside := fun f hf => (hout f).trans (h.flowOutside f hf)
  baseOutside := h.baseOutside
  vlan := h.vlan
  ports := by
    rcases hports with hfull | hports
    · exact .inl hfull
    · exact h.ports.imp_right fun hp f hf => ⟨(hports f hf).trans (hp f hf).1, (hp f hf).2⟩
  basePorts := h.basePorts
  proto := hproto.trans h.proto

theorem registers_masked {β : Type} {op : Registers → β × Registers} (hop : MasksUse op) :
    Masked W p q (fun c => ((op c.registers).1, c.setRegisters (op c.registers).2))
      (fun d => ((op d.registers).1, d.setRegisters (op d.registers).2)) where
  grows := fun c => hop.grows c.registers
  twin := by
    intro c d h hw
    have hstack : c.stack = d.stack := h.rest XlateCtx.stack fun _ => rfl
    have hrefl : W.AgreeOn c.flow c.flow := fun f => .refl _ _
    obtain ⟨hres, hst, hfl⟩ := hop.alike W c.registers d.registers hw h.flow hstack
    refine ⟨hres, ?_, ?_, hfl, h.base, ?_, ?_⟩
    · exact h.left.replace (hop.outside W c.registers c.registers hw hrefl rfl) (hop.proto _)
        (hop.ports W c.registers c.registers hw hrefl rfl)
    · exact h.right.replace (hop.outside W c.registers d.registers hw h.flow hstack) (hop.proto _)
        (hop.ports W c.registers d.registers hw h.flow hstack)
    · rcases hop.known c.registers with hfull | hsame
      · exact .inl (hw.full hfull)
      · exact h.known.imp_right fun hz f hf => (hsame f hf).trans (hz f hf)
    · have hbare (e : XlateCtx) (r : Registers) :
          (e.setRegisters r).bare = { e.bare with stack := r.stack } := rfl
      rw [hbare, hbare, hst, h.bare]

/-- Masks that cover ports only together with the protocol. -/
def Flow.PortsWithProto (m : Flow) : Prop := m.Full .nwProto ∨ ∀ f ∈ portFields, m f = 0

theorem Twin.orMasks (h : Twin W p q c d) {m : Flow} (hm : m.PortsWithProto)
    (hw : (c.wc.or m).Within W) (wc' : Flow) :
    Twin W p q { c with wc := c.wc.or m } { d with wc := wc' } := by
  refine h.masks (hm.imp (fun hfull => ?_) fun hz f hf => ?_) wc'
  · exact Flow.Within.full (fun f => (Within.right _ _).trans (hw f)) hfull
  · rw [Flow.or, hz f hf]
    exact BitVec.or_zero

theorem learn_masked {env : Env} {operand : Nat} (hmask : (env.learnMask operand).PortsWithProto)
    (xin xin' : XlateIn) :
    MaskedUpdate W p q (xlateLearnAction env xin operand) (xlateLearnAction env xin' operand) where
  grows := by
    intro c
    unfold xlateLearnAction
    dsimp only
    split <;> exact fun f => .left _ _
  twin := by
    intro c d h hw
    have hor : (c.wc.or (env.learnMask operand)).Within W := by
      revert hw
      unfold xlateLearnAction
      dsimp only
      split <;> exact id
    have ht := h.orMasks hmask hor (d.wc.or (env.learnMask operand))
    unfold xlateLearnAction
    dsimp only
    split <;> split <;> exact ⟨ht.left, ht.right, ht.flow, ht.base, ht.known, ht.bare⟩

theorem exit_masked :
    MaskedUpdate W p q (fun c => { c with exit := true }) (fun d => { d with exit := true }) :=
  .of_twin (fun _ => rfl) fun _ _ h => ⟨h.left, h.right, h.flow, h.base, h.known,
    congrArg (fun b : XlateCtx => { b with exit := true }) h.bare⟩

/-! ## The cases -/

/-- Actions in place keep twins. -/
theorem localAct_masked (hP : Pair W p q) {env : Env}
    (hload : ∀ operand, MasksUse fun r => (PUnit.unit, env.load operand r))
    (hlearn : ∀ operand, (env.learnMask operand).PortsWithProto) {xin xin' : XlateIn}
    (hpacket : xin.packet = xin'.packet)
    (hprio : xin.flow .skbPriority = xin'.flow .skbPriority) (act : Act) :
    Masked W p q (localAct env xin act) (localAct env xin' act) := by
  cases act with
  | controller => exact (executeControllerAction_masked hP hpacket).result false
  | setVlanVid vid push => exact (setVlanVid_masked vid push).result false
  | setVlanPcp pcp push => exact (setVlanPcp_masked pcp push).result false
  | stripVlan => exact (overwrite_masked (f := .vlanTci) rfl 0).result false
  | pushVlan => exact (overwrite_masked (f := .vlanTci) rfl vlanCfi).result false
  | setEthSrc mac => exact (overwrite_masked (f := .dlSrc) rfl mac).result false
  | setEthDst mac => exact (overwrite_masked (f := .dlDst) rfl mac).result false
  | setIpv4Src ipv4 => exact (ifIpv4_masked hP (overwrite_masked (f := .nwSrc) rfl ipv4)).result false
  | setIpv4Dst ipv4 => exact (ifIpv4_masked hP (overwrite_masked (f := .nwDst) rfl ipv4)).result false
  | setIpDscp dscp =>
    exact (ifIp_masked hP (overwriteBits_masked (f := .nwTos) rfl (dscp_within dscp))).result false
  | setIpEcn ecn =>
    exact (ifIp_masked hP (overwriteBits_masked (f := .nwTos) rfl (ecn_within ecn))).result false
  | setIpTtl ttl => exact (ifIp_masked hP (overwrite_masked (f := .nwTtl) rfl ttl)).result false
  | setL4SrcPort port =>
    exact (setL4Port_masked hP (f := .tpSrc) (by decide) (htons port)).result false
  | setL4DstPort port =>
    exact (setL4Port_masked hP (f := .tpDst) (by decide) (htons port)).result false
  | setTunnel tunId =>
    have hput : MaskedUpdate W p q (fun c => c.put .tunId tunId) (fun d => d.put .tunId tunId) :=
      .of_twin (fun _ => rfl) fun c d h => h.putMeta rfl rfl (.refl _ tunId)
    exact hput.result false
  | setQueue queueId =>
    refine MaskedUpdate.result ⟨fun c => ?_, fun c d h _ => ?_⟩ false
    · split <;> exact .refl _
    · have hbridge : c.xbridge = d.xbridge := h.rest XlateCtx.xbridge fun _ => rfl
      rw [← hbridge]
      split
      · exact h.putPlain rfl hP.skbPriority rfl
      · exact h
  | popQueue =>
    have hput : MaskedUpdate W p q (fun c => c.put .skbPriority (xin.flow .skbPriority))
        (fun d => d.put .skbPriority (xin'.flow .skbPriority)) :=
      .of_twin (fun _ => rfl) fun c d h => h.putPlain rfl hP.skbPriority hprio
    exact hput.result false
  | load operand => exact (registers_masked (hload operand)).update.result false
  | pushMpls ethertype => exact composeMplsPushAction_masked hP ethertype
  | popMpls ethertype => exact composeMplsPopAction_masked hP ethertype
  | setMplsLabel label => exact composeSetMplsAction_masked hP (mplsLabel_within label)
  | setMplsTc tc => exact composeSetMplsAction_masked hP (mplsTc_within tc)
  | setMplsTtl ttl => exact composeSetMplsAction_masked hP (mplsTtl_within ttl)
  | decMplsTtl => exact composeDecMplsTtlAction_masked hP hpacket
  | decTtl controllers => exact composeDecTtl_masked hP hpacket controllers
  | learn operand => exact (learn_masked (hlearn operand) xin xin').result false
  | exit => exact exit_masked.result false
  | finTimeout =>
    exact MaskedUpdate.result ⟨fun c => c.unwildcard_grows .nwProto, fun c d h _ =>
      h.unwildcard (.inr (by decide))⟩ false
  | sample operand =>
    have hput : MaskedUpdate W p q (fun c => c.putOdp (.sample operand))
        (fun d => d.putOdp (.sample operand)) := .of_twin (fun _ => rfl) fun c d h => h.putOdp rfl
    exact ((commitOdpActions_masked hP).comp hput).result false
  | note | output | group | enqueue | resubmit | compute => exact MaskedUpdate.refl.result false

end overwriting

end Sdpa.Switch
