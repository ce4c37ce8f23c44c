import Sdpa.Switch.XlateFp

/-!
# What a state machine looks at

The fields that `xlate_fp` reads or rewrites for an app: those of the two match
strings, those of the transitions, and the addresses that its actions set. Flows
with the same values there fare alike.
-/
namespace Sdpa.Switch

variable {hash : Key → BitVec 32}

/-- The fields of a match string. -/
def bitmapFields (bitmap : BitVec 64) : List FlowField := (selected bitmap).filterMap bitField

def ParamType.field : ParamType → Option FlowField
  | .inPort => some .inPort
  | .dlVlan => some .vlanTci
  | .dlType => some .dlType
  | .nwTos => some .nwTos
  | .nwProto => some .nwProto
  | .tpSrc => some .tpSrc
  | .tpDst => some .tpDst
  | .tpFlag => some .tcpFlags
  | .nwSrc => some .nwSrc
  | .nwDst => some .nwDst
  | .metadata => some .metadata
  | .non | .dlVlanPcp | .dlSrc | .dlDst | .const => none

/-- The field of a parameter of a transition. -/
def paramField (type : BitVec 32) : Option FlowField :=
  (ParamType.ofWord type).bind ParamType.field

def SttMatchEntry.fields (e : SttMatchEntry) : List FlowField :=
  [e.paramLeftType, e.paramRightType].filterMap paramField

/-- The address that an action sets. -/
def SfaAction.rewrites (act : SfaAction) : Option FlowField :=
  match SfaActionType.ofWord act.actype with
  | some .setsrcfield => some .nwSrc
  | some .setdstfield => some .nwDst
  | _ => none

def ControllApp.fields (app : ControllApp hash) : List FlowField :=
  bitmapFields app.pst.matchBitmap ++ (app.pstt.flatMap SttMatchEntry.fields ++
    bitmapFields app.pat.bitmap ++ app.pat.atEntrys.entries.filterMap fun e => e.act.rewrites)

/-- The fields that a `goto_fp` depends on or changes. -/
def GApps.fields (g : GApps hash) (bitmap : BitVec 8) : List FlowField :=
  match g.find (bitmap.setWidth 32) with
  | some app => app.fields
  | none => []

/-! ## Match strings -/

variable {fl fl' : Flow} {tcpFlags tcpFlags' : BitVec 16}

theorem matchField_congr {i : Nat} (h : ∀ f, bitField i = some f → fl f = fl' f) :
    matchField fl i = matchField fl' i := by
  unfold matchField
  split
  all_goals first
    | rfl
    | rw [h _ rfl]

theorem foldlM_congr {α β : Type} {f f' : β → α → Except Fault β} {l : List α}
    (h : ∀ a ∈ l, ∀ b, f b a = f' b a) (b : β) : l.foldlM f b = l.foldlM f' b := by
  induction l generalizing b with
  | nil => rfl
  | cons a l ih =>
    rw [List.foldlM_cons, List.foldlM_cons, h a List.mem_cons_self b]
    congr 1
    funext b'
    exact ih (fun a' ha' => h a' (List.mem_cons_of_mem a ha')) b'

theorem parseMatch_congr {bitmap : BitVec 64} (h : ∀ f ∈ bitmapFields bitmap, fl f = fl' f) :
    parseMatch fl bitmap = parseMatch fl' bitmap := by
  refine foldlM_congr (fun i hi m => ?_) none
  unfold matchRound
  split
  · rename_i hbit
    have hfield : matchField fl i = matchField fl' i := matchField_congr fun f hf =>
      h f (List.mem_filterMap.mpr ⟨i, List.mem_filter.mpr ⟨hi, hbit⟩, hf⟩)
    rw [hfield]
  · rfl

/-! ## Transitions -/

/-- Two packets alike for an app: the fields and, if they are looked at, the flags. -/
structure SameFields (fields : List FlowField) (fl fl' : Flow) (tcpFlags tcpFlags' : BitVec 16) :
    Prop where
  value : ∀ f ∈ fields, fl f = fl' f
  flags : .tcpFlags ∈ fields → tcpFlags = tcpFlags'

theorem SameFields.mono {fields fields' : List FlowField}
    (h : SameFields fields fl fl' tcpFlags tcpFlags') (hsub : fields' ⊆ fields) :
    SameFields fields' fl fl' tcpFlags tcpFlags' :=
  ⟨fun f hf => h.value f (hsub hf), fun hf => h.flags (hsub hf)⟩

theorem getEventParam_congr {param : BitVec 32}
    (h : SameFields (paramField param).toList fl fl' tcpFlags tcpFlags') :
    getEventParam fl tcpFlags param = getEventParam fl' tcpFlags' param := by
  unfold paramField at h
  unfold getEventParam
  split
  all_goals rename_i hparam
  all_goals rw [hparam] at h
  case h_8 => rw [h.flags (by decide)]
  all_goals first
    | rfl
    | rw [h.value _ List.mem_cons_self]

theorem eventOperand_congr {type : BitVec 32} {value : BitVec 64}
    (h : SameFields (paramField type).toList fl fl' tcpFlags tcpFlags') :
    eventOperand fl tcpFlags type value = eventOperand fl' tcpFlags' type value := by
  unfold eventOperand
  rw [getEventParam_congr h]

theorem event_congr {e : SttMatchEntry} (h : SameFields e.fields fl fl' tcpFlags tcpFlags') :
    e.event fl tcpFlags = e.event fl' tcpFlags' := by
  have hmem {type : BitVec 32} (ht : type ∈ [e.paramLeftType, e.paramRightType]) :
      (paramField type).toList ⊆ e.fields := fun f hf =>
    List.mem_filterMap.mpr ⟨type, ht, Option.mem_toList.mp hf⟩
  unfold SttMatchEntry.event
  rw [eventOperand_congr (h.mono (hmem List.mem_cons_self)),
    eventOperand_congr (h.mono (hmem (List.mem_cons_of_mem _ List.mem_cons_self)))]

theorem nextState_congr {current : BitVec 32} {stt : List SttMatchEntry}
    (h : SameFields (stt.flatMap SttMatchEntry.fields) fl fl' tcpFlags tcpFlags') (exist : Bool) :
    nextState fl tcpFlags current stt exist = nextState fl' tcpFlags' current stt exist := by
  induction stt generalizing exist with
  | nil => rfl
  | cons e stt ih =>
    rw [List.flatMap_cons] at h
    have hrest := ih (h.mono (List.subset_append_right _ _))
    unfold nextState
    rw [event_congr (h.mono (List.subset_append_left _ _)), hrest, hrest]

/-! ## The state machine -/

/-- The same change to two flows: none, or one address of those the app may set. -/
def SameRewrite (fields : List FlowField) (fl fl' out out' : Flow) : Prop :=
  (out = fl ∧ out' = fl') ∨ ∃ f ∈ fields, (f = .nwSrc ∨ f = .nwDst) ∧ ∃ v : BitVec f.width,
    out = fl.set f v ∧ out' = fl'.set f v

/-- Two outcomes are the same fault, or related results. -/
inductive Alike {α β : Type} (R : α → β → Prop) : Except Fault α → Except Fault β → Prop
  | fault (e : Fault) : Alike R (.error e) (.error e)
  | result {a b} (h : R a b) : Alike R (.ok a) (.ok b)

theorem Alike.bind {α β γ δ : Type} {R : α → β → Prop} {S : γ → δ → Prop} {x : Except Fault α}
    {y : Except Fault β} {f : α → Except Fault γ} {g : β → Except Fault δ} (h : Alike R x y)
    (hfg : ∀ a b, R a b → Alike S (f a) (g b)) : Alike S (x >>= f) (y >>= g) := by
  cases h with
  | fault e => exact .fault e
  | result hab => exact hfg _ _ hab

theorem Alike.of_ok {α β : Type} {R : α → β → Prop} {y : Except Fault β} {a : α}
    (h : Alike R (.ok a) y) : ∃ b, y = .ok b ∧ R a b := by
  cases h with
  | result hab => exact ⟨_, rfl, hab⟩

theorem executeFpActions_alike (fl fl' : Flow) (act : SfaAction) :
    (executeFpActions fl act).2 = (executeFpActions fl' act).2 ∧
      SameRewrite act.rewrites.toList fl fl' (executeFpActions fl act).1
        (executeFpActions fl' act).1 := by
  unfold executeFpActions SfaAction.rewrites
  cases SfaActionType.ofWord act.actype with
  | none => exact ⟨rfl, .inl ⟨rfl, rfl⟩⟩
  | some type =>
    cases type with
    | setsrcfield =>
      exact ⟨rfl, .inr ⟨.nwSrc, List.mem_cons_self, .inl rfl, act.acparam, rfl, rfl⟩⟩
    | setdstfield =>
      exact ⟨rfl, .inr ⟨.nwDst, List.mem_cons_self, .inr rfl, act.acparam, rfl, rfl⟩⟩
    | _ => exact ⟨rfl, .inl ⟨rfl, rfl⟩⟩

theorem SameRewrite.mono {fields fields' : List FlowField} {out out' : Flow}
    (h : SameRewrite fields' fl fl' out out') (hsub : fields' ⊆ fields) :
    SameRewrite fields fl fl' out out' := by
  rcases h with h | ⟨f, hf, h⟩
  · exact .inl h
  · exact .inr ⟨f, hsub hf, h⟩

/-- The fields of the second half of the function. -/
def FpFound.fields (found : FpFound hash) : List FlowField :=
  found.stt.flatMap SttMatchEntry.fields ++ bitmapFields found.pat.bitmap ++
    found.pat.atEntrys.entries.filterMap fun e => e.act.rewrites

def FpDecision.Alike (fields : List FlowField) (fl fl' : Flow) (d d' : FpDecision) : Prop :=
  d.next = d'.next ∧ d.drop = d'.drop ∧ SameRewrite fields fl fl' d.flow d'.flow

theorem fpDecide_alike {found : FpFound hash}
    (h : SameFields found.fields fl fl' tcpFlags tcpFlags') :
    Alike (FpDecision.Alike found.fields fl fl') (fpDecide fl tcpFlags found)
      (fpDecide fl' tcpFlags' found) := by
  have hstt := h.mono (List.subset_append_of_subset_left _ (List.subset_append_left _ _))
  have hpat := h.mono (List.subset_append_of_subset_left _ (List.subset_append_right _ _))
  have hnext : nextState fl tcpFlags found.status found.stt false =
      nextState fl' tcpFlags' found.status found.stt false := nextState_congr hstt false
  have hkey := parseMatch_congr hpat.value
  unfold fpDecide
  rw [hnext, hkey]
  cases parseMatch fl' found.pat.bitmap with
  | error e => exact .fault e
  | ok key =>
    cases key with
    | none => exact .fault .nullPointer
    | some key =>
      dsimp only [bind, Except.bind]
      cases hact : atLookup found.pat.atEntrys key
          (nextState fl' tcpFlags' found.status found.stt false) with
      | none => exact .result ⟨rfl, rfl, .inl ⟨rfl, rfl⟩⟩
      | some act =>
        have hsub : act.rewrites.toList ⊆ found.fields := by
          intro f hf
          obtain ⟨e, he, rfl⟩ := Option.map_eq_some_iff.mp hact
          have hmem := (Entries.mem_withHash.mp (List.mem_of_find?_eq_some he)).1
          exact List.mem_append_right _
            (List.mem_filterMap.mpr ⟨e, hmem, Option.mem_toList.mp hf⟩)
        obtain ⟨hdrop, hflow⟩ := executeFpActions_alike fl fl' act
        exact .result ⟨rfl, congrArg Except.ok hdrop, hflow.mono hsub⟩

theorem fpLookup_congr {g : GApps hash} {bitmap : BitVec 8}
    (h : ∀ f ∈ g.fields bitmap, fl f = fl' f) : fpLookup g bitmap fl = fpLookup g bitmap fl' := by
  unfold fpLookup
  cases hfind : g.find (bitmap.setWidth 32) with
  | none => rfl
  | some app =>
    unfold GApps.fields at h
    rw [hfind] at h
    have hkey : parseMatch fl app.pst.matchBitmap = parseMatch fl' app.pst.matchBitmap :=
      parseMatch_congr fun f hf => h f (List.mem_append_left _ hf)
    simp only [hkey]

theorem fpLookup_fields {g : GApps hash} {bitmap : BitVec 8} {found : FpFound hash}
    (h : fpLookup g bitmap fl = .ok (.ok found)) : found.fields ⊆ g.fields bitmap := by
  unfold fpLookup at h
  split at h
  · cases h
  cases hfind : g.find (bitmap.setWidth 32) with
  | none =>
    simp only [hfind] at h
    cases h
  | some app =>
    simp only [hfind] at h
    cases hkey : parseMatch fl app.pst.matchBitmap with
    | error e =>
      rw [hkey] at h
      cases h
    | ok key =>
      rw [hkey] at h
      cases key with
      | none => cases h
      | some key =>
        dsimp only [bind, Except.bind] at h
        cases he : app.pst.stEntrys.first key with
        | none =>
          rw [he] at h
          cases h
        | some e =>
          rw [he] at h
          obtain rfl := Except.ok.inj (Except.ok.inj h)
          unfold GApps.fields
          rw [hfind]
          exact List.subset_append_right _ _

def FpResult.Alike (fields : List FlowField) (fl fl' : Flow) (r r' : FpResult hash) : Prop :=
  r.apps = r'.apps ∧ r.drop = r'.drop ∧ SameRewrite fields fl fl' r.flow r'.flow

/-- Flows with the same values in the fields of an app fare alike. -/
theorem xlateFp_alike {g : GApps hash} {bitmap : BitVec 8}
    (h : SameFields (g.fields bitmap) fl fl' tcpFlags tcpFlags') :
    Alike (FpResult.Alike (g.fields bitmap) fl fl') (xlateFp g bitmap fl tcpFlags)
      (xlateFp g bitmap fl' tcpFlags') := by
  unfold xlateFp
  rw [← fpLookup_congr h.value]
  cases hl : fpLookup g bitmap fl with
  | error e => exact .fault e
  | ok found =>
    cases found with
    | error why => exact .result ⟨rfl, rfl, .inl ⟨rfl, rfl⟩⟩
    | ok found =>
      have hsub := fpLookup_fields hl
      refine (fpDecide_alike (h.mono hsub)).bind fun d d' hd => .result ⟨?_, hd.2.1, hd.2.2.mono hsub⟩
      rw [hd.1]

end Sdpa.Switch
