import Sdpa.Switch.Twin

/-!
# Commits of packets that the masks do not tell apart

A commit un-wildcards the fields it writes, but it also looks at fields without
un-wildcarding them: it does nothing for a packet of protocol 0, and takes ports
for absent if both are zero. `Pair` says of the two packets what is needed there.
-/
namespace Sdpa.Switch

open Sdpa.Lib.Masks

/-- The protocols whose ports a commit writes. -/
def hasPorts (proto : BitVec 8) : Prop :=
  proto = ipprotoTcp ∨ proto = ipprotoUdp ∨ proto = ipprotoSctp

/-- What the masks leave to be said about two packets. -/
structure Pair (W p q : Flow) : Prop where
  inPort : W.Full .inPort
  skbPriority : W.Full .skbPriority
  dlType : W.Full .dlType
  frag : Within flowNwFragMask (W .nwFrag) ∨ p .nwFrag = q .nwFrag
  noProto : p .nwProto = 0 → q .nwProto = 0
  noPorts : p .nwProto = q .nwProto → hasPorts (p .nwProto) → p .tpSrc = 0 → p .tpDst = 0 →
    q .tpSrc = 0 ∧ q .tpDst = 0
  untagged : q .vlanTci &&& vlanCfi = 0 → q .vlanTci = 0

/-! ## Masks -/

theorem XlateCtx.unwildcard_grows (c : XlateCtx) (f : FlowField) :
    c.wc.Within (c.unwildcard f).wc :=
  Flow.within_set c.wc f (Within.allOnes _)

theorem XlateCtx.observe_grows (c : XlateCtx) (f : FlowField) (m : BitVec f.width) :
    c.wc.Within (c.observe f m).wc :=
  Flow.within_set c.wc f (Within.left _ _)

theorem XlateCtx.unwildcard_full (c : XlateCtx) (f : FlowField) : (c.unwildcard f).wc.Full f :=
  Flow.set_self ..

theorem XlateCtx.unwildcards_eq (c : XlateCtx) (fs : List FlowField) :
    c.unwildcards fs = { c with wc := (c.unwildcards fs).wc } := by
  induction fs generalizing c with
  | nil => rfl
  | cons f fs ih => exact ih (c.unwildcard f)

theorem XlateCtx.unwildcards_grows (c : XlateCtx) (fs : List FlowField) :
    c.wc.Within (c.unwildcards fs).wc := by
  induction fs generalizing c with
  | nil => exact .refl c.wc
  | cons f fs ih => exact (c.unwildcard_grows f).trans (ih (c.unwildcard f))

theorem XlateCtx.unwildcards_full (c : XlateCtx) {fs : List FlowField} {f : FlowField}
    (hf : f ∈ fs) : (c.unwildcards fs).wc.Full f := by
  induction fs generalizing c with
  | nil => cases hf
  | cons f' fs ih =>
    rcases List.mem_cons.mp hf with rfl | hf
    · exact (unwildcards_grows (c.unwildcard f) fs).full (c.unwildcard_full f)
    · exact ih (c.unwildcard f') hf

theorem XlateCtx.rebases_wc (c : XlateCtx) (fs : List FlowField) : (c.rebases fs).wc = c.wc := by
  induction fs generalizing c with
  | nil => rfl
  | cons f fs ih => exact ih (c.rebase f)

/-! ## The common form -/

section commitSet

variable {compared written observed : List FlowField} {act : Flow → OdpAction}

theorem commitSet_wc_of_changed {c : XlateCtx} (hc : ¬ ∀ f ∈ compared, c.base f = c.flow f) :
    (commitSet compared written observed act c).wc = (c.unwildcards observed).wc := by
  rw [commitSet, if_neg hc]
  exact XlateCtx.rebases_wc _ _

theorem commitSet_grows (c : XlateCtx) :
    c.wc.Within (commitSet compared written observed act c).wc := by
  by_cases hc : ∀ f ∈ compared, c.base f = c.flow f
  · rw [commitSet, if_pos hc]
    exact .refl c.wc
  · rw [commitSet_wc_of_changed hc]
    exact c.unwildcards_grows observed

theorem commitSet_full {c : XlateCtx} {f : FlowField} (hf : f ∈ observed) :
    commitSet compared written observed act c = c ∨
      (commitSet compared written observed act c).wc.Full f := by
  by_cases hc : ∀ f ∈ compared, c.base f = c.flow f
  · exact .inl (by rw [commitSet, if_pos hc])
  · rw [commitSet_wc_of_changed hc]
    exact .inr (c.unwildcards_full hf)

variable {W p q : Flow}

theorem commitSet_masked (hcompared : ∀ f ∈ compared, f.isHeader = true)
    (hwritten : ∀ f ∈ written, f ∈ observed) (hports : ∀ f ∈ observed, f ∉ portFields)
    (hact : ∀ b b' : Flow, (∀ f ∈ observed, b f = b' f) → act b = act b') :
    MaskedUpdate W p q (commitSet compared written observed act)
      (commitSet compared written observed act) where
  grows := commitSet_grows
  twin := by
    intro c d h hw
    by_cases hc : ∀ f ∈ compared, c.base f = c.flow f
    · have hd : ∀ f ∈ compared, d.base f = d.flow f := fun f hf =>
        (h.unchanged_iff (hcompared f hf)).mp (hc f hf)
      rw [commitSet, commitSet, if_pos hc, if_pos hd]
      exact h
    · have hd : ¬ ∀ f ∈ compared, d.base f = d.flow f := fun hd =>
        hc fun f hf => (h.unchanged_iff (hcompared f hf)).mpr (hd f hf)
      rw [commitSet_wc_of_changed hc] at hw
      have hfull : ∀ f ∈ observed, W.Full f := fun f hf => hw.full (c.unwildcards_full hf)
      rw [commitSet, commitSet, if_neg hc, if_neg hd]
      have hr := (h.unwildcards (.inr hports)).rebases (c := c.unwildcards observed)
        (d := d.unwildcards observed) (fun f hf => hfull f (hwritten f hf))
        (fun f hf hp => absurd hp (hports f (hwritten f hf)))
      exact hr.putOdp (hact _ _ fun f hf => hr.base_eq (hfull f hf))

end commitSet

/-! ## The commits -/

section commits

variable {W p q : Flow}

theorem commitSetEtherAddrAction_masked :
    MaskedUpdate W p q commitSetEtherAddrAction commitSetEtherAddrAction := by
  refine commitSet_masked (by decide) (by decide) (by decide) fun b b' h => ?_
  rw [h .dlSrc (by decide), h .dlDst (by decide)]

theorem commitSetIpv4Action_masked :
    MaskedUpdate W p q commitSetIpv4Action commitSetIpv4Action := by
  refine commitSet_masked (by decide) (by decide) (by decide) fun b b' h => ?_
  rw [h .nwSrc (by decide), h .nwDst (by decide), h .nwTos (by decide), h .nwTtl (by decide),
    h .nwProto (by decide), h .nwFrag (by decide)]

theorem commitSetIpv6Action_masked :
    MaskedUpdate W p q commitSetIpv6Action commitSetIpv6Action := by
  refine commitSet_masked (by decide) (by decide) (by decide) fun b b' h => ?_
  rw [h .ipv6Src (by decide), h .ipv6Dst (by decide), h .ipv6Label (by decide),
    h .nwTos (by decide), h .nwTtl (by decide), h .nwProto (by decide), h .nwFrag (by decide)]

theorem commitSetPriorityAction_masked :
    MaskedUpdate W p q commitSetPriorityAction commitSetPriorityAction := by
  refine commitSet_masked (by decide) (by decide) (by decide) fun b b' h => ?_
  rw [h .skbPriority (by decide)]

theorem commitSetPktMarkAction_masked :
    MaskedUpdate W p q commitSetPktMarkAction commitSetPktMarkAction := by
  refine commitSet_masked (by decide) (by decide) (by decide) fun b b' h => ?_
  rw [h .pktMark (by decide)]

theorem Twin.putOdpIf {c d : XlateCtx} (h : Twin W p q c d) {v v' : Prop} [Decidable v]
    [Decidable v'] (hv : v ↔ v') {act act' : OdpAction} (hact : act = act') :
    Twin W p q (if v then c.putOdp act else c) (if v' then d.putOdp act' else d) := by
  by_cases hc : v
  · rw [if_pos hc, if_pos (hv.mp hc)]
    exact h.putOdp hact
  · rw [if_neg hc, if_neg (fun hd => hc (hv.mpr hd))]
    exact h

theorem slowAction_masked :
    MaskedUpdate W p q (fun c => { c with slow := { c.slow with action := true } })
      (fun d => { d with slow := { d.slow with action := true } }) where
  grows := fun c => .refl c.wc
  twin := fun _ _ h _ => ⟨h.left, h.right, h.flow, h.base, h.known,
    congrArg (fun b : XlateCtx => { b with slow := { b.slow with action := true } }) h.bare⟩

theorem commitSetArpAction_masked :
    MaskedUpdate W p q commitSetArpAction commitSetArpAction := by
  have hset : MaskedUpdate W p q
      (commitSet arpFields arpFields arpFields fun base => .setArp (base .nwSrc) (base .nwDst)
        (base .nwProto) (base .arpSha) (base .arpTha))
      (commitSet arpFields arpFields arpFields fun base => .setArp (base .nwSrc) (base .nwDst)
        (base .nwProto) (base .arpSha) (base .arpTha)) := by
    refine commitSet_masked (by decide) (by decide) (by decide) fun b b' h => ?_
    rw [h .nwSrc (by decide), h .nwDst (by decide), h .nwProto (by decide), h .arpSha (by decide),
      h .arpTha (by decide)]
  have hheader : ∀ f ∈ arpFields, f.isHeader = true := by decide
  exact MaskedUpdate.ite (fun c d h => forall₂_congr fun f hf => h.unchanged_iff (hheader f hf))
    .refl (hset.comp slowAction_masked)

theorem commitSetArpAction_full {c : XlateCtx} :
    commitSetArpAction c = c ∨ (commitSetArpAction c).wc.Full .nwProto := by
  unfold commitSetArpAction
  split
  · exact .inl rfl
  · rename_i hc
    right
    have hwc : (commitSet arpFields arpFields arpFields (fun base => .setArp (base .nwSrc)
        (base .nwDst) (base .nwProto) (base .arpSha) (base .arpTha)) c).wc =
        (c.unwildcards arpFields).wc := commitSet_wc_of_changed hc
    unfold Flow.Full
    rw [hwc]
    exact c.unwildcards_full (by decide)

theorem commitVlanAction_masked : MaskedUpdate W p q commitVlanAction commitVlanAction where
  grows := by
    intro c
    unfold commitVlanAction
    split
    · exact .refl c.wc
    · dsimp only
      split <;> split <;> exact c.unwildcard_grows .vlanTci
  twin := by
    intro c d h hw
    unfold commitVlanAction at hw ⊢
    by_cases hc : c.base .vlanTci = c.flow .vlanTci
    · rw [if_pos hc, if_pos ((h.unchanged_iff rfl).mp hc)]
      exact h
    · have hd : ¬ d.base .vlanTci = d.flow .vlanTci := fun hd => hc ((h.unchanged_iff rfl).mpr hd)
      rw [if_neg hc] at hw ⊢
      rw [if_neg hd]
      have hfull : W.Full .vlanTci := by
        refine Flow.Within.full (m := (c.unwildcard .vlanTci).wc) ?_ (c.unwildcard_full .vlanTci)
        revert hw
        dsimp only
        split <;> split <;> exact id
      have hu : Twin W p q (c.unwildcard .vlanTci) (d.unwildcard .vlanTci) :=
        h.unwildcard (.inr (by decide))
      have hpop : Twin W p q
          (if (c.unwildcard .vlanTci).base .vlanTci &&& vlanCfi ≠ 0 then
            (c.unwildcard .vlanTci).putOdp .popVlan else c.unwildcard .vlanTci)
          (if (d.unwildcard .vlanTci).base .vlanTci &&& vlanCfi ≠ 0 then
            (d.unwildcard .vlanTci).putOdp .popVlan else d.unwildcard .vlanTci) :=
        hu.putOdpIf (by rw [hu.base_eq hfull]) rfl
      have hflow := hpop.flow_eq hfull
      exact (hpop.putOdpIf (by rw [hflow]) (by rw [hflow])).rebase hfull
        (fun hm => absurd hm (by decide))

theorem commitVlanAction_full (c : XlateCtx) :
    c.base .vlanTci = c.flow .vlanTci ∨ (commitVlanAction c).wc.Full .vlanTci := by
  by_cases hc : c.base .vlanTci = c.flow .vlanTci
  · exact .inl hc
  · right
    unfold commitVlanAction
    rw [if_neg hc]
    dsimp only
    split <;> split <;> exact c.unwildcard_full .vlanTci

/-- A packet of protocol 0 is left as it is, and so is its twin. -/
theorem commitSetNwAction_masked (hP : Pair W p q) :
    MaskedUpdate W p q commitSetNwAction commitSetNwAction := by
  have hdl (t : BitVec 16) (c d : XlateCtx) (h : Twin W p q c d) :
      c.base .dlType = t ↔ d.base .dlType = t := by rw [h.base_eq hP.dlType]
  have hset := MaskedUpdate.ite (hdl ethTypeIp) commitSetIpv4Action_masked
    (.ite (hdl ethTypeIpv6) commitSetIpv6Action_masked
      (.ite (hdl ethTypeArp) commitSetArpAction_masked .refl))
  refine ⟨fun c => ?_, fun c d h hw => ?_⟩
  · unfold commitSetNwAction
    split
    · exact .refl c.wc
    · exact hset.grows c
  by_cases hc : c.flow .nwProto = 0
  · have hd : d.flow .nwProto = 0 := by
      rw [h.right.proto]
      exact hP.noProto (h.left.proto ▸ hc)
    rw [commitSetNwAction, commitSetNwAction, if_pos hc, if_pos hd]
    exact h
  have hfull : commitSetNwAction c = c ∨ (commitSetNwAction c).wc.Full .nwProto := by
    rw [commitSetNwAction, if_neg hc]
    split
    · exact commitSet_full (by decide)
    split
    · exact commitSet_full (by decide)
    split
    · exact commitSetArpAction_full
    · exact .inl rfl
  by_cases hd : d.flow .nwProto = 0
  · -- the protocols differ, so the first one is still wildcarded and nothing was written
    rcases hfull with hsame | hfull
    · rw [hsame, commitSetNwAction, if_pos hd]
      exact h
    · exact absurd ((h.flow_eq (hw.full hfull)).trans hd) hc
  · rw [commitSetNwAction, if_neg hc] at hw ⊢
    rw [commitSetNwAction, if_neg hd]
    exact hset.twin c d h hw

/-! Ports. The commit is cut at its two tests. -/

/-- The ports were absent at the last commit. -/
def NoPorts (fl : Flow) : Prop := fl .tpSrc = 0 ∧ fl .tpDst = 0

instance (fl : Flow) : Decidable (NoPorts fl) := inferInstanceAs (Decidable (_ ∧ _))

def PortsUnchanged (c : XlateCtx) : Prop :=
  c.base .tpSrc = c.flow .tpSrc ∧ c.base .tpDst = c.flow .tpDst

instance (c : XlateCtx) : Decidable (PortsUnchanged c) := inferInstanceAs (Decidable (_ ∧ _))

theorem commitSetPortAction_eq (c : XlateCtx) :
    commitSetPortAction c =
      if isIpAny c.base = true ∧ ¬ NoPorts c.base ∧ ¬ PortsUnchanged c then writePorts c else c := by
  have hdef : commitSetPortAction c =
      if !isIpAny c.base || (c.base .tpSrc == 0 && c.base .tpDst == 0) then c
      else if PortsUnchanged c then c else writePorts c := rfl
  rw [hdef]
  by_cases hu : PortsUnchanged c
  · simp [hu]
  · by_cases hz : NoPorts c.base
    · simp [hz, hz.1, hz.2]
    · have hz' : (c.base .tpSrc == 0 && c.base .tpDst == 0) = false := by
        simpa [NoPorts, ← Bool.not_eq_true] using hz
      rw [hz']
      cases isIpAny c.base <;> simp [hu, hz]

theorem writePorts_wc (c : XlateCtx) : (writePorts c).wc = (c.unwildcards portFields).wc := by
  have hr := XlateCtx.rebases_wc (c.unwildcards portFields) portFields
  unfold writePorts
  dsimp only
  split
  · exact hr
  split
  · exact hr
  split
  · exact hr
  · rfl

theorem writePorts_twin {c d : XlateCtx} (h : Twin W p q c d) (hproto : W.Full .nwProto)
    (hports : ∀ f ∈ portFields, W.Full f) : Twin W p q (writePorts c) (writePorts d) := by
  have hu : Twin W p q (c.unwildcards portFields) (d.unwildcards portFields) :=
    h.unwildcards (.inl hproto)
  have hr := hu.rebases hports fun _ _ _ => hports
  have hnw := hu.flow_eq hproto
  have hsrc := hu.flow_eq (hports .tpSrc (by decide))
  have hdst := hu.flow_eq (hports .tpDst (by decide))
  have hact (act : BitVec 16 → BitVec 16 → OdpAction) :
      Twin W p q
        (((c.unwildcards portFields).rebases portFields).putOdp
          (act ((c.unwildcards portFields).flow .tpSrc) ((c.unwildcards portFields).flow .tpDst)))
        (((d.unwildcards portFields).rebases portFields).putOdp
          (act ((d.unwildcards portFields).flow .tpSrc) ((d.unwildcards portFields).flow .tpDst))) :=
    hr.putOdp (by rw [hsrc, hdst])
  unfold writePorts
  simp only [show [FlowField.tpSrc, FlowField.tpDst] = portFields from rfl, ← hnw]
  split
  · exact hact .setTcp
  split
  · exact hact .setUdp
  split
  · exact hact .setSctp
  · exact hu

theorem writePorts_of_not_hasPorts {c : XlateCtx} (h : ¬ hasPorts (c.flow .nwProto)) :
    writePorts c = c.unwildcards portFields := by
  unfold hasPorts at h
  push Not at h
  have hflow : (c.unwildcards portFields).flow .nwProto = c.flow .nwProto := rfl
  unfold writePorts
  simp only [show [FlowField.tpSrc, FlowField.tpDst] = portFields from rfl, hflow, h.1, h.2.1, h.2.2,
    if_false]

theorem Twin.ports_full {c d : XlateCtx} (h : Twin W p q c d) (hc : ¬ PortsUnchanged c) :
    W.Full .nwProto := by
  refine h.left.ports.resolve_right fun hports => hc ⟨?_, ?_⟩
  · obtain ⟨hflow, hbase⟩ := hports .tpSrc (by decide)
    rw [hflow, hbase]
  · obtain ⟨hflow, hbase⟩ := hports .tpDst (by decide)
    rw [hflow, hbase]

/-- The base flows are those of the packets unless the masks cover the ports. -/
theorem Twin.noPorts {c d : XlateCtx} (h : Twin W p q c d) (hP : Pair W p q)
    (hproto : W.Full .nwProto) (hd : hasPorts (d.flow .nwProto)) (hc : NoPorts c.base) :
    NoPorts d.base := by
  rcases h.left.basePorts with hfull | hleft
  · exact ⟨(h.base_eq (hfull .tpSrc (by decide))).symm.trans hc.1,
      (h.base_eq (hfull .tpDst (by decide))).symm.trans hc.2⟩
  rcases h.right.basePorts with hfull | hright
  · exact ⟨(h.base_eq (hfull .tpSrc (by decide))).symm.trans hc.1,
      (h.base_eq (hfull .tpDst (by decide))).symm.trans hc.2⟩
  have hpq : p .nwProto = q .nwProto := by
    rw [← h.left.proto, ← h.right.proto]
    exact h.flow_eq hproto
  have hq := hP.noPorts hpq (by rw [hpq, ← h.right.proto]; exact hd)
    ((hleft .tpSrc (by decide)).symm.trans hc.1) ((hleft .tpDst (by decide)).symm.trans hc.2)
  exact ⟨(hright .tpSrc (by decide)).trans hq.1, (hright .tpDst (by decide)).trans hq.2⟩

/-- A packet without ports is left as it is. Its twin has no ports either, or they are
not such that a commit writes them. -/
theorem commitSetPortAction_masked (hP : Pair W p q) :
    MaskedUpdate W p q commitSetPortAction commitSetPortAction := by
  refine ⟨fun c => ?_, fun c d h hw => ?_⟩
  · rw [commitSetPortAction_eq]
    split
    · rw [writePorts_wc]
      exact c.unwildcards_grows portFields
    · exact .refl c.wc
  have hip : isIpAny c.base = isIpAny d.base := by rw [isIpAny, isIpAny, h.base_eq hP.dlType]
  have hunchanged : PortsUnchanged c ↔ PortsUnchanged d :=
    and_congr (h.unchanged_iff rfl) (h.unchanged_iff rfl)
  rw [commitSetPortAction_eq] at hw ⊢
  rw [commitSetPortAction_eq d]
  by_cases hc : isIpAny c.base = true ∧ ¬ NoPorts c.base ∧ ¬ PortsUnchanged c
  · rw [if_pos hc] at hw ⊢
    rw [writePorts_wc] at hw
    have hports : ∀ f ∈ portFields, W.Full f := fun f hf => hw.full (c.unwildcards_full hf)
    have hd : ¬ NoPorts d.base := by
      rw [NoPorts, ← h.base_eq (hports .tpSrc (by decide)), ← h.base_eq (hports .tpDst (by decide))]
      exact hc.2.1
    rw [if_pos ⟨hip ▸ hc.1, hd, fun hu => hc.2.2 (hunchanged.mpr hu)⟩]
    exact writePorts_twin h (h.ports_full hc.2.2) hports
  · rw [if_neg hc]
    split
    · -- the second packet has ports and the first has not
      rename_i hd
      have hchanged : ¬ PortsUnchanged c := fun hu => hd.2.2 (hunchanged.mp hu)
      have hz : NoPorts c.base := by
        by_contra hz
        exact hc ⟨hip ▸ hd.1, hz, hchanged⟩
      have hnot : ¬ hasPorts (d.flow .nwProto) := fun hproto =>
        hd.2.1 (h.noPorts hP (h.ports_full hchanged) hproto hz)
      rw [writePorts_of_not_hasPorts hnot, d.unwildcards_eq]
      exact h.masks (.inr fun _ _ => rfl) _
    · exact h

theorem commitMplsAction_masked (hP : Pair W p q) :
    MaskedUpdate W p q commitMplsAction commitMplsAction := by
  refine ⟨fun c => ?_, fun c d h hw => ?_⟩
  · unfold commitMplsAction
    split
    · exact .refl c.wc
    · dsimp only
      split <;> exact c.unwildcard_grows .mplsLse
  have hdelta : c.mplsDepthDelta = d.mplsDepthDelta := h.rest XlateCtx.mplsDepthDelta fun _ => rfl
  have hiff : (c.flow .mplsLse = c.base .mplsLse ∧ c.mplsDepthDelta = .unchanged) ↔
      (d.flow .mplsLse = d.base .mplsLse ∧ d.mplsDepthDelta = .unchanged) := by
    rw [hdelta, eq_comm, h.unchanged_iff rfl, eq_comm]
  unfold commitMplsAction at hw ⊢
  by_cases hc : c.flow .mplsLse = c.base .mplsLse ∧ c.mplsDepthDelta = .unchanged
  · rw [if_pos hc, if_pos (hiff.mp hc)]
    exact h
  · rw [if_neg hc] at hw ⊢
    rw [if_neg (fun hd => hc (hiff.mpr hd))]
    have hfull : W.Full .mplsLse := by
      refine Flow.Within.full (m := (c.unwildcard .mplsLse).wc) ?_ (c.unwildcard_full .mplsLse)
      revert hw
      dsimp only
      split <;> exact id
    have hu : Twin W p q (c.unwildcard .mplsLse) (d.unwildcard .mplsLse) :=
      h.unwildcard (.inr (by decide))
    have hset {act act' : OdpAction} (hact : act = act') :
        Twin W p q { ((c.unwildcard .mplsLse).putOdp act).rebases [.dlType, .mplsLse] with
            mplsDepthDelta := .unchanged }
          { ((d.unwildcard .mplsLse).putOdp act').rebases [.dlType, .mplsLse] with
            mplsDepthDelta := .unchanged } := by
      have hr := ((hu.putOdp hact).rebase hP.dlType (fun hm => absurd hm (by decide))).rebase hfull
        (fun hm => absurd hm (by decide))
      exact ⟨hr.left, hr.right, hr.flow, hr.base, hr.known,
        congrArg (fun b : XlateCtx => { b with mplsDepthDelta := .unchanged }) hr.bare⟩
    have hlse := hu.flow_eq hfull
    have hdl := hu.flow_eq hP.dlType
    have hdelta' : (d.unwildcard .mplsLse).mplsDepthDelta = (c.unwildcard .mplsLse).mplsDepthDelta :=
      hdelta.symm
    dsimp only
    rw [hdelta']
    cases (c.unwildcard .mplsLse).mplsDepthDelta with
    | popped => exact hset (by rw [hdl])
    | pushed => exact hset (by rw [hdl, hlse])
    | unchanged => exact hset (by rw [hlse])

/-- Commits of twins emit the same actions. -/
theorem commitOdpActions_masked (hP : Pair W p q) :
    MaskedUpdate W p q commitOdpActions commitOdpActions := by
  have hether := commitSetEtherAddrAction_masked (W := W) (p := p) (q := q)
  have hmark := commitSetPktMarkAction_masked (W := W) (p := p) (q := q)
  have h := hether.comp <| commitVlanAction_masked.comp <| (commitSetNwAction_masked hP).comp <|
    (commitSetPortAction_masked hP).comp <| (commitMplsAction_masked hP).comp <|
    commitSetPriorityAction_masked.comp hmark
  exact h

/-- A tag that has changed is un-wildcarded by a commit. -/
theorem commitOdpActions_full_vlan (hP : Pair W p q) (c : XlateCtx) :
    c.base .vlanTci = c.flow .vlanTci ∨ (commitOdpActions c).wc.Full .vlanTci := by
  have hether : commitSetEtherAddrAction c = c ∨
      ((commitSetEtherAddrAction c).base .vlanTci = c.base .vlanTci ∧
        (commitSetEtherAddrAction c).flow = c.flow) := by
    unfold commitSetEtherAddrAction commitSet
    split
    · exact .inl rfl
    · exact .inr ⟨rfl, rfl⟩
  have hvlan := commitVlanAction_full (commitSetEtherAddrAction c)
  have hgrows : (commitVlanAction (commitSetEtherAddrAction c)).wc.Within (commitOdpActions c).wc :=
    ((commitSetNwAction_masked hP).comp <| (commitSetPortAction_masked hP).comp <|
      (commitMplsAction_masked hP).comp <|
      commitSetPriorityAction_masked.comp commitSetPktMarkAction_masked).grows _
  rcases hvlan with hsame | hfull
  · left
    rcases hether with heq | ⟨hbase, hflow⟩
    · rwa [heq] at hsame
    · rwa [hbase, hflow] at hsame
  · exact .inr (hgrows.full hfull)

end commits

end Sdpa.Switch
