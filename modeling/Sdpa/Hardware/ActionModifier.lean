import Mathlib.Data.List.Pairwise

/-!
# The action modifier

`action_modifier` copies an action field by field, taking the fields that the
flag word names from the parameter of an action table entry instead. The action
flags are not replaced but joined. The fields cover the low 256 bits; the bits
above are never assigned after reset.
-/
namespace Sdpa.Hardware

/-- A field of the action word with the flag that has it modified. -/
structure ActionField where
  modify : BitVec 16
  pos : Nat
  width : Nat
deriving DecidableEq, Repr

namespace ActionField

def forwardBitmask : ActionField := ⟨0x0001, 0, 16⟩
def actionFlag : ActionField := ⟨0x0002, 16, 16⟩
def vlanVid : ActionField := ⟨0x0004, 32, 16⟩
def vlanPcp : ActionField := ⟨0x0008, 48, 8⟩
def dlSrc : ActionField := ⟨0x0010, 56, 48⟩
def dlDst : ActionField := ⟨0x0020, 104, 48⟩
def nwSrc : ActionField := ⟨0x0040, 152, 32⟩
def nwDst : ActionField := ⟨0x0080, 184, 32⟩
def nwTos : ActionField := ⟨0x0100, 216, 8⟩
def tpSrc : ActionField := ⟨0x0200, 224, 16⟩
def tpDst : ActionField := ⟨0x0400, 240, 16⟩

def all : List ActionField :=
  [forwardBitmask, actionFlag, vlanVid, vlanPcp, dlSrc, dlDst, nwSrc, nwDst, nwTos, tpSrc, tpDst]

def mask (f : ActionField) : BitVec 320 := (BitVec.allOnes f.width).setWidth 320 <<< f.pos

/-- `out[pos +: width] <= v[pos +: width]`. -/
def put (f : ActionField) (v out : BitVec 320) : BitVec 320 := out &&& ~~~f.mask ||| v &&& f.mask

/-- The field of the parameter if it is to be modified, that of the action otherwise. -/
def modified (f : ActionField) (flag : BitVec 16) (actionIn param : BitVec 320) : BitVec 320 :=
  if flag &&& f.modify ≠ 0 then param else actionIn

/-- The action flags are joined. -/
def joined (f : ActionField) (flag : BitVec 16) (actionIn param : BitVec 320) : BitVec 320 :=
  if flag &&& f.modify ≠ 0 then actionIn ||| param else actionIn

end ActionField

open ActionField

/-- The new value of `action_out`, whose old value is `out`. -/
def modifyAction (flag : BitVec 16) (actionIn param out : BitVec 320) : BitVec 320 :=
  let out := forwardBitmask.put (forwardBitmask.modified flag actionIn param) out
  let out := actionFlag.put (actionFlag.joined flag actionIn param) out
  let out := vlanVid.put (vlanVid.modified flag actionIn param) out
  let out := vlanPcp.put (vlanPcp.modified flag actionIn param) out
  let out := dlSrc.put (dlSrc.modified flag actionIn param) out
  let out := dlDst.put (dlDst.modified flag actionIn param) out
  let out := nwSrc.put (nwSrc.modified flag actionIn param) out
  let out := nwDst.put (nwDst.modified flag actionIn param) out
  let out := nwTos.put (nwTos.modified flag actionIn param) out
  let out := tpSrc.put (tpSrc.modified flag actionIn param) out
  tpDst.put (tpDst.modified flag actionIn param) out

/-- The registers of `action_modifier`. -/
structure ActionModifier where
  actionOut : BitVec 320
  modificationDone : Bool

def ActionModifier.step (reset enable : Bool) (actionIn param : BitVec 320) (flag : BitVec 16)
    (s : ActionModifier) : ActionModifier :=
  if reset then ⟨0, false⟩
  else if !enable then ⟨s.actionOut, false⟩
  else ⟨modifyAction flag actionIn param s.actionOut, true⟩

/-! ## Field by field -/

namespace ActionField

variable {f : ActionField} {flag : BitVec 16} {actionIn param v out : BitVec 320} {n : Nat}

/-- Bit `n` lies in the field. -/
def Covers (f : ActionField) (n : Nat) : Prop := f.pos ≤ n ∧ n < f.pos + f.width

instance : DecidableRel Covers := fun f n => inferInstanceAs (Decidable (f.pos ≤ n ∧ n < _))

theorem getLsbD_put (hn : n < 320) :
    (f.put v out).getLsbD n = if f.Covers n then v.getLsbD n else out.getLsbD n := by
  have hmask : f.mask.getLsbD n = decide (f.Covers n) := by
    rw [mask, BitVec.getLsbD_shiftLeft, BitVec.getLsbD_setWidth, BitVec.getLsbD_allOnes]
    rw [Bool.eq_iff_iff, decide_eq_true_eq, Covers]
    simp only [Bool.and_eq_true, decide_eq_true_eq, Bool.not_eq_true', decide_eq_false_iff_not]
    omega
  rw [put, BitVec.getLsbD_or, BitVec.getLsbD_and, BitVec.getLsbD_and, BitVec.getLsbD_not, hmask]
  by_cases hc : f.Covers n
  · simp [hc]
  · simp [hc, hn]

/-- What the modifier assigns to a field. -/
def assigned (flag : BitVec 16) (actionIn param : BitVec 320) (f : ActionField) : BitVec 320 :=
  if f = actionFlag then f.joined flag actionIn param else f.modified flag actionIn param

theorem modifyAction_eq_foldl :
    modifyAction flag actionIn param out =
      all.foldl (fun out f => f.put (assigned flag actionIn param f) out) out := rfl

/-- Two fields have no bit in common. -/
def Apart (f g : ActionField) : Prop := f.pos + f.width ≤ g.pos ∨ g.pos + g.width ≤ f.pos

instance : DecidableRel Apart := fun f g =>
  inferInstanceAs (Decidable (f.pos + f.width ≤ g.pos ∨ g.pos + g.width ≤ f.pos))

theorem getLsbD_foldl_put_of_not {w : ActionField → BitVec 320} {fs : List ActionField}
    (hn : n < 320) (h : ∀ f ∈ fs, ¬ f.Covers n) (out : BitVec 320) :
    (fs.foldl (fun out f => f.put (w f) out) out).getLsbD n = out.getLsbD n := by
  induction fs generalizing out with
  | nil => rfl
  | cons g fs ih =>
    rw [List.foldl_cons, ih fun f hf => h f (List.mem_cons_of_mem g hf), getLsbD_put hn,
      if_neg (h g List.mem_cons_self)]

theorem getLsbD_foldl_put {w : ActionField → BitVec 320} {fs : List ActionField} (hn : n < 320)
    (hfs : fs.Pairwise Apart) (hf : f ∈ fs) (hcov : f.Covers n) (out : BitVec 320) :
    (fs.foldl (fun out f => f.put (w f) out) out).getLsbD n = (w f).getLsbD n := by
  induction fs generalizing out with
  | nil => cases hf
  | cons g fs ih =>
    rw [List.pairwise_cons] at hfs
    rw [List.foldl_cons]
    rcases List.mem_cons.mp hf with rfl | hf
    · rw [getLsbD_foldl_put_of_not hn, getLsbD_put hn, if_pos hcov]
      intro g hg hcov'
      have hapart := hfs.1 g hg
      rw [Apart] at hapart
      rw [Covers] at hcov hcov'
      omega
    · exact ih hfs.2 hf _

theorem le_of_mem_all : ∀ f ∈ all, f.pos + f.width ≤ 256 := by decide

theorem covers_of_lt (hn : n < 256) : ∃ f ∈ all, f.Covers n := by
  by_contra hnone
  have hnot : ∀ f ∈ all, ¬ f.Covers n := fun f hf hc => hnone ⟨f, hf, hc⟩
  simp only [all, List.forall_mem_cons, Covers, forwardBitmask, actionFlag, vlanVid, vlanPcp, dlSrc,
    dlDst, nwSrc, nwDst, nwTos, tpSrc, tpDst] at hnot
  omega

end ActionField

/-- `actionOut` is `actionIn` with the fields named by the flag word taken from `param`, the
action flags joined. -/
def ModifiedBy (flag : BitVec 16) (param actionIn actionOut : BitVec 320) : Prop :=
  ∀ f ∈ ActionField.all, actionOut.extractLsb' f.pos f.width =
    (if flag &&& f.modify = 0 then actionIn
      else if f = actionFlag then actionIn ||| param
      else param).extractLsb' f.pos f.width

theorem modifiedBy_modifyAction (flag : BitVec 16) (param actionIn out : BitVec 320) :
    ModifiedBy flag param actionIn (modifyAction flag actionIn param out) := by
  intro f hf
  have hassigned : (if flag &&& f.modify = 0 then actionIn
      else if f = actionFlag then actionIn ||| param else param) =
        assigned flag actionIn param f := by
    by_cases hflag : flag &&& f.modify = 0 <;> by_cases hf : f = actionFlag <;>
      simp [assigned, joined, modified, hflag, hf]
  have hin := ActionField.le_of_mem_all f hf
  rw [hassigned]
  refine BitVec.eq_of_getLsbD_eq fun n hn => ?_
  rw [BitVec.getLsbD_extractLsb', BitVec.getLsbD_extractLsb', modifyAction_eq_foldl,
    getLsbD_foldl_put (by omega) (by decide) hf ⟨by omega, by omega⟩]

/-- The action `a` with the fields named by the flag word replaced. -/
def replaced (flag : BitVec 16) (param a : BitVec 320) : BitVec 320 :=
  ActionField.all.foldl (fun out f => f.put
    (if flag &&& f.modify = 0 then a else if f = actionFlag then a ||| param else param) out) a

/-- The modifier replaces the fields of an action that agrees with `a` on them. -/
theorem getLsbD_modifyAction_low {flag : BitVec 16} {param actionIn a : BitVec 320}
    (out : BitVec 320) (h : ∀ n, n < 256 → actionIn.getLsbD n = a.getLsbD n) {n : Nat}
    (hn : n < 256) :
    (modifyAction flag actionIn param out).getLsbD n = (replaced flag param a).getLsbD n := by
  obtain ⟨f, hf, hcov⟩ := covers_of_lt hn
  rw [modifyAction_eq_foldl, replaced, getLsbD_foldl_put (by omega) (by decide) hf hcov,
    getLsbD_foldl_put (by omega) (by decide) hf hcov]
  have hbit := h n hn
  by_cases hflag : flag &&& f.modify = 0
  · rw [assigned, joined, modified, if_neg (not_not.mpr hflag), if_neg (not_not.mpr hflag),
      if_pos hflag, ite_self, hbit]
  · rw [assigned, joined, modified, if_pos hflag, if_pos hflag, if_neg hflag]
    split
    · rw [BitVec.getLsbD_or, BitVec.getLsbD_or, hbit]
    · rfl

/-- The bits above the fields are never assigned. -/
theorem getLsbD_modifyAction_high (flag : BitVec 16) (param actionIn out : BitVec 320) {n : Nat}
    (h : 256 ≤ n) : (modifyAction flag actionIn param out).getLsbD n = out.getLsbD n := by
  by_cases hn : n < 320
  · rw [modifyAction_eq_foldl, getLsbD_foldl_put_of_not hn]
    intro f hf hcov
    have := ActionField.le_of_mem_all f hf
    rw [Covers] at hcov
    omega
  · rw [BitVec.getLsbD_of_ge _ _ (by omega), BitVec.getLsbD_of_ge _ _ (by omega)]

/-- Once the bits above the fields are zero, the old value does not matter. -/
theorem modifyAction_of_high_zero (flag : BitVec 16) (param actionIn : BitVec 320)
    {out : BitVec 320} (h : ∀ n, 256 ≤ n → out.getLsbD n = false) :
    modifyAction flag actionIn param out = modifyAction flag actionIn param 0 := by
  refine BitVec.eq_of_getLsbD_eq fun n hn => ?_
  rw [modifyAction_eq_foldl, modifyAction_eq_foldl]
  by_cases hcov : ∃ f ∈ ActionField.all, f.Covers n
  · obtain ⟨f, hf, hcov⟩ := hcov
    rw [getLsbD_foldl_put hn (by decide) hf hcov, getLsbD_foldl_put hn (by decide) hf hcov]
  · have hnone : ∀ f ∈ ActionField.all, ¬ f.Covers n := fun f hf hc => hcov ⟨f, hf, hc⟩
    have hhigh : 256 ≤ n := by
      by_contra hlt
      exact hcov (covers_of_lt (by omega))
    rw [getLsbD_foldl_put_of_not hn hnone, getLsbD_foldl_put_of_not hn hnone, h n hhigh]
    simp

end Sdpa.Hardware
