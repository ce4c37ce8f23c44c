import Mathlib.Logic.Function.Iterate
import Sdpa.Lib.Masks
import Sdpa.Switch.Xlate

/-!
# Packets that the masks do not tell apart

Two packets translated side by side, under masks `W` that cover what the first
translation un-wildcards. As long as every bit that a translation depends on or
changes is un-wildcarded, the flows of both agree on `W`, and outside of `W` each
is still the packet it was.
-/
namespace Sdpa.Switch

open Sdpa.Lib.Masks

namespace Flow

/-- The masks `k` cover the masks `m`. -/
def Within (m k : Flow) : Prop := ∀ f, Lib.Masks.Within (m f) (k f)

def AgreeOn (m a b : Flow) : Prop := ∀ f, Lib.Masks.AgreeOn (m f) (a f) (b f)

def Full (m : Flow) (f : FlowField) : Prop := m f = BitVec.allOnes f.width

instance (m : Flow) (f : FlowField) : Decidable (m.Full f) := inferInstanceAs (Decidable (_ = _))

theorem Within.refl (m : Flow) : m.Within m := fun f => Lib.Masks.Within.refl (m f)

theorem Within.trans {a b c : Flow} (h : a.Within b) (h' : b.Within c) : a.Within c :=
  fun f => (h f).trans (h' f)

theorem Within.full {m k : Flow} (h : m.Within k) {f : FlowField} (hf : m.Full f) : k.Full f := by
  have hk := h f
  rw [hf] at hk
  exact hk.eq_allOnes

theorem within_set (m : Flow) (f : FlowField) {v : BitVec f.width} (hv : Lib.Masks.Within (m f) v) :
    m.Within (m.set f v) := by
  intro f'
  by_cases hf : f' = f
  · subst hf
    rw [set_self]
    exact hv
  · rw [set_of_ne _ _ hf]
    exact Lib.Masks.Within.refl _

theorem within_or (m k : Flow) : m.Within (m.or k) := fun _ => Lib.Masks.Within.left _ _

end Flow

/-- Fields of the packet, as opposed to what the switch attaches to it. -/
def FlowField.isHeader : FlowField → Bool
  | .tunId | .tunSrc | .tunDst | .tunFlags | .tunTos | .tunTtl | .metadata | .reg _ => false
  | _ => true

def portFields : List FlowField := [.tpSrc, .tpDst]

/-- What a translation of the packet `p` has made of it, outside of the masks. Ports
are only ever changed when the protocol is known. -/
structure Own (W p flow base : Flow) : Prop where
  flowOutside : ∀ f, f.isHeader = true → AgreeOn (~~~W f) (flow f) (p f)
  baseOutside : ∀ f, f.isHeader = true → AgreeOn (~~~W f) (base f) (p f)
  vlan : W.Full .vlanTci ∨ base .vlanTci = p .vlanTci
  ports : W.Full .nwProto ∨ ∀ f ∈ portFields, flow f = p f ∧ base f = p f
  basePorts : (∀ f ∈ portFields, W.Full f) ∨ ∀ f ∈ portFields, base f = p f
  proto : flow .nwProto = p .nwProto

/-- A context without its flows. -/
def XlateCtx.bare (c : XlateCtx) : XlateCtx :=
  { c with flow := noMasks, base := noMasks, wc := noMasks, flowMods := [] }

/-- The contexts of the translations of `p` and `q` agree as far as the masks say. The
first one has un-wildcarded ports only if the masks cover the protocol. -/
structure Twin (W p q : Flow) (c d : XlateCtx) : Prop where
  left : Own W p c.flow c.base
  right : Own W q d.flow d.base
  flow : W.AgreeOn c.flow d.flow
  base : W.AgreeOn c.base d.base
  known : W.Full .nwProto ∨ ∀ f ∈ portFields, c.wc f = 0
  bare : c.bare = d.bare

namespace Own

variable {W p flow base : Flow}

theorem set (h : Own W p flow base) {f : FlowField} {v : BitVec f.width}
    (hv : f.isHeader = true → AgreeOn (~~~W f) v (p f)) (hproto : f ≠ .nwProto)
    (hports : f ∈ portFields → W.Full .nwProto) : Own W p (flow.set f v) base where
  flowOutside := by
    intro f' hf'
    by_cases hf : f' = f
    · subst hf
      rw [Flow.set_self]
      exact hv hf'
    · rw [Flow.set_of_ne _ _ hf]
      exact h.flowOutside f' hf'
  baseOutside := h.baseOutside
  vlan := h.vlan
  ports := by
    by_cases hf : f ∈ portFields
    · exact .inl (hports hf)
    · refine h.ports.imp_right fun hp f' hf' => ?_
      have hne : f' ≠ f := fun he => hf (he ▸ hf')
      rw [Flow.set_of_ne _ _ hne]
      exact hp f' hf'
  basePorts := h.basePorts
  proto := by
    rw [Flow.set_of_ne _ _ hproto.symm]
    exact h.proto

/-- A commit of a field that the masks cover. -/
theorem rebase (h : Own W p flow base) {f : FlowField} (hf : W.Full f)
    (hports : f ∈ portFields → ∀ f ∈ portFields, W.Full f) :
    Own W p flow (base.set f (flow f)) where
  flowOutside := h.flowOutside
  baseOutside := by
    intro f' hf'
    by_cases he : f' = f
    · subst he
      exact AgreeOn.outside hf _ _
    · rw [Flow.set_of_ne _ _ he]
      exact h.baseOutside f' hf'
  vlan := by
    by_cases he : FlowField.vlanTci = f
    · subst he
      exact .inl hf
    · rw [Flow.set_of_ne _ _ he]
      exact h.vlan
  ports := by
    refine h.ports.imp_right fun hp f' hf' => ⟨(hp f' hf').1, ?_⟩
    by_cases he : f' = f
    · subst he
      rw [Flow.set_self]
      exact (hp f' hf').1
    · rw [Flow.set_of_ne _ _ he]
      exact (hp f' hf').2
  basePorts := by
    by_cases hm : f ∈ portFields
    · exact .inl (hports hm)
    · refine h.basePorts.imp_right fun hp f' hf' => ?_
      have hne : f' ≠ f := fun he => hm (he ▸ hf')
      rw [Flow.set_of_ne _ _ hne]
      exact hp f' hf'
  proto := h.proto

end Own

namespace Twin

variable {W p q : Flow} {c d : XlateCtx}

theorem rest (h : Twin W p q c d) {β : Type} (v : XlateCtx → β) (hv : ∀ c, v c.bare = v c) :
    v c = v d := by
  rw [← hv c, h.bare, hv d]

/-- The masks that have been set so far are not compared. -/
theorem masks (h : Twin W p q c d) {wc : Flow}
    (hwc : W.Full .nwProto ∨ ∀ f ∈ portFields, wc f = c.wc f) (wc' : Flow) :
    Twin W p q { c with wc := wc } { d with wc := wc' } :=
  ⟨h.left, h.right, h.flow, h.base, hwc.elim .inl fun hsame =>
    h.known.imp_right fun hz f hf => (hsame f hf).trans (hz f hf), h.bare⟩

theorem observe (h : Twin W p q c d) {f : FlowField} (hf : f ∉ portFields) (m : BitVec f.width) :
    Twin W p q (c.observe f m) (d.observe f m) :=
  h.masks (.inr fun f' hf' => Flow.set_of_ne _ _ (fun he : f' = f => hf (he ▸ hf'))) _

theorem unwildcard (h : Twin W p q c d) {f : FlowField} (hf : W.Full .nwProto ∨ f ∉ portFields) :
    Twin W p q (c.unwildcard f) (d.unwildcard f) :=
  h.masks (hf.imp_right fun hf f' hf' =>
    Flow.set_of_ne _ _ (fun he : f' = f => hf (he ▸ hf'))) _

theorem flow_eq (h : Twin W p q c d) {f : FlowField} (hf : W.Full f) : c.flow f = d.flow f :=
  (h.flow f).eq hf

theorem base_eq (h : Twin W p q c d) {f : FlowField} (hf : W.Full f) : c.base f = d.base f :=
  (h.base f).eq hf

theorem put (h : Twin W p q c d) {f : FlowField} {v w : BitVec f.width}
    (hvw : AgreeOn (W f) v w) (hv : f.isHeader = true → AgreeOn (~~~W f) v (p f))
    (hw : f.isHeader = true → AgreeOn (~~~W f) w (q f)) (hproto : f ≠ .nwProto)
    (hports : f ∈ portFields → W.Full .nwProto) : Twin W p q (c.put f v) (d.put f w) where
  left := h.left.set hv hproto hports
  right := h.right.set hw hproto hports
  flow := by
    intro f'
    by_cases hf : f' = f
    · subst hf
      simpa only [XlateCtx.put, Flow.set_self] using hvw
    · simpa only [XlateCtx.put, Flow.set_of_ne _ _ hf] using h.flow f'
  base := h.base
  known := h.known
  bare := h.bare

/-- A field that the masks cover is given the same value in both. -/
theorem putFull (h : Twin W p q c d) {f : FlowField} {v w : BitVec f.width} (hf : W.Full f)
    (hvw : v = w) (hproto : f ≠ .nwProto) (hports : f ∈ portFields → W.Full .nwProto) :
    Twin W p q (c.put f v) (d.put f w) :=
  h.put (.of_eq hvw) (fun _ => .outside hf _ _) (fun _ => .outside hf _ _) hproto hports

theorem rebase (h : Twin W p q c d) {f : FlowField} (hf : W.Full f)
    (hports : f ∈ portFields → ∀ f ∈ portFields, W.Full f) :
    Twin W p q (c.rebase f) (d.rebase f) where
  left := h.left.rebase hf hports
  right := h.right.rebase hf hports
  flow := h.flow
  base := by
    intro f'
    by_cases he : f' = f
    · subst he
      simpa only [XlateCtx.rebase, Flow.set_self] using h.flow f'
    · simpa only [XlateCtx.rebase, Flow.set_of_ne _ _ he] using h.base f'
  known := h.known
  bare := h.bare

theorem rebases (h : Twin W p q c d) {fs : List FlowField} (hfs : ∀ f ∈ fs, W.Full f)
    (hports : ∀ f ∈ fs, f ∈ portFields → ∀ f ∈ portFields, W.Full f) :
    Twin W p q (c.rebases fs) (d.rebases fs) := by
  induction fs generalizing c d with
  | nil => exact h
  | cons f fs ih =>
    exact ih (h.rebase (hfs f List.mem_cons_self) (hports f List.mem_cons_self))
      (fun f' hf' => hfs f' (List.mem_cons_of_mem f hf'))
      (fun f' hf' => hports f' (List.mem_cons_of_mem f hf'))

theorem putOdp (h : Twin W p q c d) {act act' : OdpAction} (hact : act = act') :
    Twin W p q (c.putOdp act) (d.putOdp act') :=
  ⟨h.left, h.right, h.flow, h.base, h.known, by
    subst hact
    exact congrArg (fun b : XlateCtx => b.putOdp act) h.bare⟩

/-- Both packets or neither of them have changed since the last commit. -/
theorem unchanged_iff (h : Twin W p q c d) {f : FlowField} (hf : f.isHeader = true) :
    c.base f = c.flow f ↔ d.base f = d.flow f := by
  constructor
  · intro he
    refine AgreeOn.eq_of_outside (m := W f) ((h.base f).symm.trans ?_)
      ((h.right.baseOutside f hf).trans (h.right.flowOutside f hf).symm)
    rw [he]
    exact h.flow f
  · intro he
    refine AgreeOn.eq_of_outside (m := W f) ((h.base f).trans ?_)
      ((h.left.baseOutside f hf).trans (h.left.flowOutside f hf).symm)
    rw [he]
    exact (h.flow f).symm

theorem unwildcards (h : Twin W p q c d) {fs : List FlowField}
    (hfs : W.Full .nwProto ∨ ∀ f ∈ fs, f ∉ portFields) :
    Twin W p q (c.unwildcards fs) (d.unwildcards fs) := by
  induction fs generalizing c d with
  | nil => exact h
  | cons f fs ih =>
    exact ih (h.unwildcard (hfs.imp_right fun hp => hp f List.mem_cons_self))
      (hfs.imp_right fun hp f' hf' => hp f' (List.mem_cons_of_mem f hf'))

end Twin

/-! ## Updates that keep twins -/

/-- Masks only grow, and if they suffice for the first packet then the second one
fares alike. -/
structure Masked {α : Type} (W p q : Flow) (f f' : XlateCtx → α × XlateCtx) : Prop where
  grows : ∀ c : XlateCtx, c.wc.Within (f c).2.wc
  twin : ∀ c d, Twin W p q c d → (f c).2.wc.Within W →
    (f c).1 = (f' d).1 ∧ Twin W p q (f c).2 (f' d).2

structure MaskedUpdate (W p q : Flow) (f f' : XlateCtx → XlateCtx) : Prop where
  grows : ∀ c : XlateCtx, c.wc.Within (f c).wc
  twin : ∀ c d, Twin W p q c d → (f c).wc.Within W → Twin W p q (f c) (f' d)

namespace MaskedUpdate

variable {W p q : Flow} {f f' g g' : XlateCtx → XlateCtx}

theorem result {α : Type} (h : MaskedUpdate W p q f f') (a : α) :
    Masked W p q (fun c => (a, f c)) (fun d => (a, f' d)) :=
  ⟨h.grows, fun c d ht hw => ⟨rfl, h.twin c d ht hw⟩⟩

theorem comp (h : MaskedUpdate W p q f f') (h' : MaskedUpdate W p q g g') :
    MaskedUpdate W p q (fun c => g (f c)) (fun d => g' (f' d)) where
  grows := fun c => (h.grows c).trans (h'.grows (f c))
  twin := fun c d ht hw => h'.twin _ _ (h.twin c d ht ((h'.grows (f c)).trans hw)) hw

theorem refl : MaskedUpdate W p q (fun c => c) (fun d => d) :=
  ⟨fun c => .refl c.wc, fun _ _ ht _ => ht⟩

/-- An update that leaves the masks alone. -/
theorem of_twin (hwc : ∀ c, (f c).wc = c.wc)
    (h : ∀ c d, Twin W p q c d → Twin W p q (f c) (f' d)) : MaskedUpdate W p q f f' := by
  refine ⟨fun c => ?_, fun c d ht _ => h c d ht⟩
  rw [hwc c]
  exact .refl c.wc

theorem iterate (h : MaskedUpdate W p q f f') (n : Nat) : MaskedUpdate W p q f^[n] f'^[n] := by
  induction n with
  | zero => exact refl
  | succ n ih => exact h.comp ih

end MaskedUpdate

theorem Masked.update {α : Type} {W p q : Flow} {f f' : XlateCtx → α × XlateCtx}
    (h : Masked W p q f f') : MaskedUpdate W p q (fun c => (f c).2) (fun d => (f' d).2) :=
  ⟨h.grows, fun c d ht hw => (h.twin c d ht hw).2⟩

/-- A choice that both packets make alike. -/
theorem Masked.ite {α : Type} {W p q : Flow} {f f' g g' : XlateCtx → α × XlateCtx}
    {v v' : XlateCtx → Prop} [DecidablePred v] [DecidablePred v']
    (hv : ∀ c d, Twin W p q c d → (v c ↔ v' d)) (h : Masked W p q f f') (h' : Masked W p q g g') :
    Masked W p q (fun c => if v c then f c else g c) (fun d => if v' d then f' d else g' d) where
  grows := by
    intro c
    split
    · exact h.grows c
    · exact h'.grows c
  twin := by
    intro c d ht hw
    by_cases hc : v c
    · rw [if_pos hc] at hw ⊢
      rw [if_pos ((hv c d ht).mp hc)]
      exact h.twin c d ht hw
    · rw [if_neg hc] at hw ⊢
      rw [if_neg (fun hd => hc ((hv c d ht).mpr hd))]
      exact h'.twin c d ht hw

theorem MaskedUpdate.ite {W p q : Flow} {f f' g g' : XlateCtx → XlateCtx} {v v' : XlateCtx → Prop}
    [DecidablePred v] [DecidablePred v'] (hv : ∀ c d, Twin W p q c d → (v c ↔ v' d))
    (h : MaskedUpdate W p q f f') (h' : MaskedUpdate W p q g g') :
    MaskedUpdate W p q (fun c => if v c then f c else g c) fun d => if v' d then f' d else g' d := by
  have hmasked := ((h.result ()).ite hv (h'.result ())).update
  simpa only [apply_ite Prod.snd] using hmasked

end Sdpa.Switch
