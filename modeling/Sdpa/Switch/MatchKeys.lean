import Sdpa.Switch.ParseMatch

/-!
# When a match string identifies the fields it was built from

Texts are written one after another without a separator, so two of them can
trade a digit. The fragment field is the one text whose length is known in
advance, and the flow label of IPv6 is a multiple of 256, which cannot take a
digit from a number below that. A bitmap therefore identifies what it selects if,
apart from the fragment field, it selects one field, or the label and a byte or an
address right behind it. It does not if it selects any other two fields.
-/
namespace Sdpa.Switch

open Sdpa.Lib.Endian
open Sdpa.Lib.Decimal

/-- The values that `flow_extract` gives to a field, where no action can write it. -/
def extractable : (f : FlowField) → BitVec f.width → Bool
  | .nwFrag, v => v.toNat < 4
  | .ipv6Label, v => v &&& htonl 0x000fffff == v
  | .tcpFlags, v => v &&& htons 0x0fff == v
  | _, _ => true

def Extractable (fl : Flow) : Prop := ∀ f, extractable f (fl f) = true

/-- Equal match strings mean equal selected fields. -/
def Identifies (bitmap : BitVec 64) : Prop :=
  ∀ p q : Flow, Extractable p → Extractable q → ∀ key,
    parseMatch p bitmap = .ok (some key) → parseMatch q bitmap = .ok (some key) →
      ∀ i f, bitmap.getLsbD i = true → bitField i = some f → p f = q f

theorem mem_selected {bitmap : BitVec 64} {i : Nat} :
    i ∈ selected bitmap ↔ i < 26 ∧ bitmap.getLsbD i = true := by
  rw [selected, List.mem_filter, List.mem_range]

theorem fieldText_eq {i : Nat} {f : FlowField} (h : bitField i = some f) (fl : Flow) :
    fieldText fl i = render f (fl f) := by
  rw [fieldText, h]

theorem parseMatch_eq_some {fl : Flow} {bitmap : BitVec 64} (hwd : WellDefined bitmap) {key : Key} :
    parseMatch fl bitmap = .ok (some key) ↔
      selected bitmap ≠ [] ∧ (selected bitmap).flatMap (fieldText fl) = key := by
  rw [parseMatch_eq fl hwd, Except.ok.injEq]
  split
  · rename_i hs
    exact ⟨fun h => (by cases h), fun h => absurd hs h.1⟩
  · rename_i hs
    rw [Option.some.injEq]
    exact ⟨fun h => ⟨hs, h⟩, fun h => h.2⟩

theorem Extractable.set {fl : Flow} (h : Extractable fl) {f : FlowField} {v : BitVec f.width}
    (hv : extractable f v = true) : Extractable (fl.set f v) := by
  intro f'
  by_cases hf : f' = f
  · subst hf
    rw [Flow.set_self]
    exact hv
  · rw [Flow.set_of_ne fl v hf]
    exact h f'

/-! ## One field besides the fragment bits -/

theorem fragText_length {fl : Flow} (h : Extractable fl) : (fieldText fl 17).length = 1 := by
  have hone : ∀ n : Fin 4, (decimal n.val).length = 1 := by decide
  exact hone ⟨(fl .nwFrag).toNat, of_decide_eq_true (h .nwFrag)⟩

private theorem text_inj {bitmap : BitVec 64} {p q : Flow} (hp : Extractable p)
    (hq : Extractable q) (hone : ((selected bitmap).filter (fun i => i != 17)).length ≤ 1)
    (h : (selected bitmap).flatMap (fieldText p) = (selected bitmap).flatMap (fieldText q)) :
    ∀ i ∈ selected bitmap, fieldText p i = fieldText q i := by
  have hfrag : ∀ l : List Nat, (∀ i ∈ l, ¬ (i != 17) = true) →
      ∀ i ∈ l, (fieldText p i).length = (fieldText q i).length := by
    intro l hl i hi
    obtain rfl : i = 17 := by simpa using hl i hi
    rw [fragText_length hp, fragText_length hq]
  cases hrest : (selected bitmap).filter (fun i => i != 17) with
  | nil =>
    exact flatMap_inj_of_length (hfrag _ (List.filter_eq_nil_iff.mp hrest)) h
  | cons i rest =>
    rw [hrest, List.length_cons] at hone
    obtain rfl : rest = [] := List.length_eq_zero_iff.mp (by omega)
    obtain ⟨l₁, l₂, hsel, h₁, -, h₂⟩ := List.filter_eq_cons_iff.mp hrest
    rw [hsel] at h ⊢
    exact flatMap_inj (hfrag l₁ h₁) (hfrag l₂ (List.filter_eq_nil_iff.mp h₂)) h

/-! ## The label before a byte or an address -/

theorem label_mod {v : BitVec 32} (h : extractable .ipv6Label v = true) : v.toNat % 256 = 0 := by
  have hmask : v &&& htonl 0x000fffff = v := eq_of_beq h
  have hlow : (htonl 0x000fffff).toNat % 2 ^ 8 = 0 := by decide
  change v.toNat % 2 ^ 8 = 0
  rw [← hmask, BitVec.toNat_and, Nat.and_mod_two_pow, hlow, Nat.and_zero]

/-- A multiple of 256 has no digit to give to a number below 256, or to take from it. -/
private theorem label_keeps_digits {a b m n : Nat} {y : List Byte} (ha : a % 256 = 0)
    (hb : b % 256 = 0) (hn : n < 256) (hlabel : decimal b = decimal a ++ y)
    (hbyte : decimal n = y ++ decimal m) : y = [] := by
  by_contra hy
  obtain ⟨hvalue, -⟩ := decimal_eq_append hlabel
  have hsum : n = value y * 10 ^ (decimal m).length + m := by
    rw [← value_decimal n, hbyte, value_append, value_decimal]
  have hpos : 0 < (decimal m).length := List.length_pos_iff.mpr (decimal_ne_nil m)
  have hle : value y * 10 ^ (decimal m).length ≤ n := by omega
  have hzero : value y = 0 := by
    have hsmall : value y ≤ n :=
      (Nat.le_mul_of_pos_right _ (Nat.pow_pos (by decide))).trans hle
    have hmod : (a * 10 ^ y.length + value y) % 256 = 0 := hvalue ▸ hb
    rw [Nat.add_mod, Nat.mul_mod, ha, Nat.zero_mul, Nat.zero_mod, Nat.zero_add, Nat.mod_mod] at hmod
    omega
  rw [hzero, Nat.zero_mul, Nat.zero_add] at hsum
  rw [hsum] at hbyte
  exact hy (List.append_left_eq_self.mp hbyte.symm)

theorem label_byte_inj {a b m n : Nat} (ha : a % 256 = 0) (hb : b % 256 = 0) (hm : m < 256)
    (hn : n < 256) (h : decimal a ++ decimal m = decimal b ++ decimal n) : a = b ∧ m = n := by
  rcases List.append_eq_append_iff.mp h with ⟨y, hlabel, hbyte⟩ | ⟨y, hlabel, hbyte⟩
  · obtain rfl := label_keeps_digits ha hb hm hlabel hbyte
    rw [List.append_nil] at hlabel
    exact ⟨(decimal_injective hlabel).symm, decimal_injective hbyte⟩
  · obtain rfl := label_keeps_digits hb ha hn hlabel hbyte
    rw [List.append_nil] at hlabel
    exact ⟨decimal_injective hlabel, (decimal_injective hbyte).symm⟩

theorem inetNtoa_split (v : BitVec 32) : ∃ n r, n < 256 ∧ inetNtoa v = decimal n ++ 46 :: r :=
  ⟨_, _, BitVec.isLt _, rfl⟩

theorem label_address_inj {a b : Nat} {v w : BitVec 32} (ha : a % 256 = 0) (hb : b % 256 = 0)
    (h : decimal a ++ inetNtoa v = decimal b ++ inetNtoa w) : a = b ∧ v = w := by
  obtain ⟨m, r, hm, hv⟩ := inetNtoa_split v
  obtain ⟨n, s, hn, hw⟩ := inetNtoa_split w
  have hdot (c k : Nat) : (46 : Byte) ∉ decimal c ++ decimal k := by
    intro hk
    rcases List.mem_append.mp hk with hk | hk
    all_goals exact not_mem_decimal not_isDigit_dot hk
  have hcut := h
  rw [hv, hw, ← List.append_assoc, ← List.append_assoc] at hcut
  obtain ⟨hl, -⟩ := append_sep_inj (hdot a m) (hdot b n) hcut
  obtain ⟨rfl, -⟩ := label_byte_inj ha hb hm hn hl
  exact ⟨rfl, inetNtoa_injective (List.append_cancel_left h)⟩

/-- The fields that may stand right behind the label. -/
def behindLabel : List Nat := [15, 16, 18, 19, 20]

theorem label_inj {p q : Flow} (hp : Extractable p) (hq : Extractable q) {j : Nat}
    (hj : j ∈ behindLabel)
    (h : fieldText p 14 ++ fieldText p j = fieldText q 14 ++ fieldText q j) :
    fieldText p 14 = fieldText q 14 ∧ fieldText p j = fieldText q j := by
  have hlp := label_mod (hp .ipv6Label)
  have hlq := label_mod (hq .ipv6Label)
  simp only [behindLabel, List.mem_cons, List.not_mem_nil, or_false] at hj
  rcases hj with rfl | rfl | rfl | rfl | rfl
  · obtain ⟨hl, hv⟩ := label_address_inj (v := p .nwSrc) (w := q .nwSrc) hlp hlq h
    exact ⟨congrArg decimal hl, congrArg inetNtoa hv⟩
  · obtain ⟨hl, hv⟩ := label_address_inj (v := p .nwDst) (w := q .nwDst) hlp hlq h
    exact ⟨congrArg decimal hl, congrArg inetNtoa hv⟩
  · obtain ⟨hl, hv⟩ := label_byte_inj hlp hlq (p .nwTos).isLt (q .nwTos).isLt h
    exact ⟨congrArg decimal hl, congrArg decimal hv⟩
  · obtain ⟨hl, hv⟩ := label_byte_inj hlp hlq (p .nwTtl).isLt (q .nwTtl).isLt h
    exact ⟨congrArg decimal hl, congrArg decimal hv⟩
  · obtain ⟨hl, hv⟩ := label_byte_inj hlp hlq (p .nwProto).isLt (q .nwProto).isLt h
    exact ⟨congrArg decimal hl, congrArg decimal hv⟩

/-! ## Two fields that trade digits -/

/-- Fields print as ones, but for the label. -/
def ones : Flow
  | .nwSrc => 0x01010101
  | .nwDst => 0x01010101
  | .ipv6Label => 0
  | _ => 1

/-- A value whose text has a one more at its end. -/
def oneAtEnd : (f : FlowField) → BitVec f.width
  | .nwSrc => 0x0b010101
  | .nwDst => 0x0b010101
  | _ => 11

/-- A value whose text has a one more at its front. -/
def oneAtFront : (f : FlowField) → BitVec f.width
  | .nwSrc => 0x0101010b
  | .nwDst => 0x0101010b
  | _ => 11

theorem render_oneAtEnd {f : FlowField} (h : f ≠ .ipv6Label) :
    render f (oneAtEnd f) = render f (ones f) ++ [49] := by
  cases f
  case ipv6Label => exact absurd rfl h
  all_goals rfl

theorem render_oneAtFront {f : FlowField} (h : f ≠ .ipv6Label) :
    render f (oneAtFront f) = 49 :: render f (ones f) := by
  cases f
  case ipv6Label => exact absurd rfl h
  all_goals rfl

theorem oneAtEnd_ne {f : FlowField} (h : f ≠ .ipv6Label) : oneAtEnd f ≠ ones f := by
  intro heq
  have htext := congrArg (render f) heq
  rw [render_oneAtEnd h] at htext
  simp at htext

theorem ones_extractable : Extractable ones := by
  intro f
  cases f
  case nwFrag | ipv6Label | tcpFlags => decide
  all_goals rfl

theorem oneMore_extractable {f : FlowField} (hlabel : f ≠ .ipv6Label) (hfrag : f ≠ .nwFrag) :
    extractable f (oneAtEnd f) = true ∧ extractable f (oneAtFront f) = true := by
  cases f
  case ipv6Label => exact absurd rfl hlabel
  case nwFrag => exact absurd rfl hfrag
  case tcpFlags => decide
  all_goals exact ⟨rfl, rfl⟩

/-- The bit of a field. -/
def fieldBit : FlowField → Nat
  | .metadata => 1 | .inPort => 5 | .dlType => 8 | .vlanTci => 9 | .mplsLse => 10
  | .ipv6Label => 14 | .nwSrc => 15 | .nwDst => 16 | .nwFrag => 17 | .nwTos => 18
  | .nwTtl => 19 | .nwProto => 20 | .tcpFlags => 23 | .tpSrc => 25 | .tpDst => 26
  | _ => 0

theorem fieldBit_of_bitField {i : Nat} {f : FlowField} (h : bitField i = some f) :
    fieldBit f = i := by
  unfold bitField at h
  split at h
  case h_16 => cases h
  all_goals
    obtain rfl := Option.some.inj h
    rfl

/-- A change of one field shows in its own text only. -/
theorem fieldText_set_of_ne {i j : Nat} {f : FlowField} (hf : bitField i = some f) (hij : j ≠ i)
    (fl : Flow) (v : BitVec f.width) : fieldText (fl.set f v) j = fieldText fl j := by
  cases hj : bitField j with
  | none => rw [fieldText, fieldText, hj]
  | some f' =>
    have hne : f' ≠ f := by
      rintro rfl
      exact hij ((fieldBit_of_bitField hj).symm.trans (fieldBit_of_bitField hf))
    rw [fieldText_eq hj, fieldText_eq hj, Flow.set_of_ne fl v hne]

theorem field_ne {i j : Nat} {fi fj : FlowField} (hfi : bitField i = some fi)
    (hfj : bitField j = some fj) (h : i ≠ j) : fi ≠ fj := by
  rintro rfl
  exact h ((fieldBit_of_bitField hfi).symm.trans (fieldBit_of_bitField hfj))

/-- Given values of two fields and of the fragment field, and ones elsewhere. -/
def tradeFlow (fi fj : FlowField) (d : BitVec 8) (v : BitVec fi.width) (w : BitVec fj.width) : Flow :=
  ((ones.set .nwFrag d).set fi v).set fj w

/-- Neighbours, up to the fragment field between them, whose texts are the same for different
values of the first. -/
inductive Trade (fi fj : FlowField) (frags : List Nat) : Prop
  | intro (d d' : BitVec 8) (v v' : BitVec fi.width) (w w' : BitVec fj.width)
      (between : d = d' ∨ 17 ∈ frags) (differ : v ≠ v')
      (extractable : Extractable (tradeFlow fi fj d v w))
      (extractable' : Extractable (tradeFlow fi fj d' v' w'))
      (text : render fi v ++ (frags.flatMap (fun _ => decimal d.toNat) ++ render fj w) =
        render fi v' ++ (frags.flatMap (fun _ => decimal d'.toNat) ++ render fj w'))

section

variable {i j : Nat} {fi fj : FlowField} (hfi : bitField i = some fi) (hfj : bitField j = some fj)
  {d : BitVec 8} {v : BitVec fi.width} {w : BitVec fj.width}
include hfj

theorem fieldText_trade_second : fieldText (tradeFlow fi fj d v w) j = render fj w := by
  rw [fieldText_eq hfj, tradeFlow, Flow.set_self]

include hfi

theorem fieldText_trade_first (hij : i ≠ j) :
    fieldText (tradeFlow fi fj d v w) i = render fi v := by
  rw [tradeFlow, fieldText_set_of_ne hfj hij, fieldText_eq hfi, Flow.set_self]

theorem fieldText_trade_frag (hi : i ≠ 17) (hj : j ≠ 17) :
    fieldText (tradeFlow fi fj d v w) 17 = decimal d.toNat := by
  rw [tradeFlow, fieldText_set_of_ne hfj hj.symm, fieldText_set_of_ne hfi hi.symm]
  rfl

theorem fieldText_trade_other {k : Nat} (hi : k ≠ i) (hj : k ≠ j) (hk : k ≠ 17) :
    fieldText (tradeFlow fi fj d v w) k = fieldText ones k := by
  rw [tradeFlow, fieldText_set_of_ne hfj hj, fieldText_set_of_ne hfi hi,
    fieldText_set_of_ne (i := 17) rfl hk]

end

/-- What two fields can trade, they can trade in every bitmap in which they are neighbours. -/
theorem Trade.not_identifies {fi fj : FlowField} {frags : List Nat} (trade : Trade fi fj frags)
    {bitmap : BitVec 64} (hwd : WellDefined bitmap) {i j : Nat} (hfi : bitField i = some fi)
    (hfj : bitField j = some fj) (hi : i ≠ 17) (hj : j ≠ 17) (hfrags : ∀ k ∈ frags, k = 17)
    {l₁ l₂ : List Nat} (hsel : selected bitmap = l₁ ++ i :: (frags ++ j :: l₂)) :
    ¬ Identifies bitmap := by
  intro hid
  obtain ⟨d, d', v, v', w, w', hbetween, hdiffer, hext, hext', htext⟩ := trade
  have hnd : (selected bitmap).Nodup := List.nodup_range.filter _
  rw [hsel] at hnd
  simp only [List.nodup_append, List.nodup_cons, List.mem_append, List.mem_cons] at hnd
  have hij : i ≠ j := fun h => hnd.2.1.1 (.inr (.inl h))
  have hi₁ : i ∉ l₁ := fun h => hnd.2.2 i h i (.inl rfl) rfl
  have hj₁ : j ∉ l₁ := fun h => hnd.2.2 j h j (.inr (.inr (.inl rfl))) rfl
  have hi₂ : i ∉ l₂ := fun h => hnd.2.1.1 (.inr (.inr h))
  have hj₂ : j ∉ l₂ := fun h => hnd.2.1.2.2.1.1 h
  -- elsewhere both flows print ones, and the same fragment bits if these are not between
  have hrest (k : Nat) (hki : k ≠ i) (hkj : k ≠ j) (hk : k ∉ frags) :
      fieldText (tradeFlow fi fj d v w) k = fieldText (tradeFlow fi fj d' v' w') k := by
    by_cases hk17 : k = 17
    · subst hk17
      rw [fieldText_trade_frag hfi hfj hi hj, fieldText_trade_frag hfi hfj hi hj,
        hbetween.resolve_right hk]
    · rw [fieldText_trade_other hfi hfj hki hkj hk17, fieldText_trade_other hfi hfj hki hkj hk17]
  have hl₁ : l₁.flatMap (fieldText (tradeFlow fi fj d v w)) =
      l₁.flatMap (fieldText (tradeFlow fi fj d' v' w')) :=
    List.flatMap_congr fun k hk => hrest k (fun h => hi₁ (h ▸ hk)) (fun h => hj₁ (h ▸ hk))
      fun hf => hnd.2.2 k hk k (.inr (.inl hf)) rfl
  have hl₂ : l₂.flatMap (fieldText (tradeFlow fi fj d v w)) =
      l₂.flatMap (fieldText (tradeFlow fi fj d' v' w')) :=
    List.flatMap_congr fun k hk => hrest k (fun h => hi₂ (h ▸ hk)) (fun h => hj₂ (h ▸ hk))
      fun hf => hnd.2.1.2.2.2 k hf k (.inr hk) rfl
  have hfragText (d : BitVec 8) (v : BitVec fi.width) (w : BitVec fj.width) :
      frags.flatMap (fieldText (tradeFlow fi fj d v w)) =
        frags.flatMap (fun _ => decimal d.toNat) :=
    List.flatMap_congr fun k hk => by rw [hfrags k hk, fieldText_trade_frag hfi hfj hi hj]
  have hsame : (selected bitmap).flatMap (fieldText (tradeFlow fi fj d' v' w')) =
      (selected bitmap).flatMap (fieldText (tradeFlow fi fj d v w)) := by
    rw [hsel]
    simp only [List.flatMap_append, List.flatMap_cons, hl₁, hl₂, hfragText,
      fieldText_trade_first hfi hfj hij, fieldText_trade_second hfj]
    simp only [← List.append_assoc] at htext ⊢
    rw [List.append_left_inj, List.append_assoc, List.append_assoc, List.append_assoc,
      List.append_assoc, List.append_right_inj, ← List.append_assoc, ← List.append_assoc]
    exact htext.symm
  have hbi : bitmap.getLsbD i = true := (mem_selected.mp (by simp [hsel])).2
  have hne : selected bitmap ≠ [] := by simp [hsel]
  have heq := hid _ _ hext hext' _ ((parseMatch_eq_some hwd).mpr ⟨hne, rfl⟩)
    ((parseMatch_eq_some hwd).mpr ⟨hne, hsame⟩) i fi hbi hfi
  have hfields := field_ne hfi hfj hij
  rw [tradeFlow, tradeFlow, Flow.set_of_ne _ _ hfields, Flow.set_self, Flow.set_of_ne _ _ hfields,
    Flow.set_self] at heq
  exact hdiffer heq

theorem tradeFlow_extractable {fi fj : FlowField} {d : BitVec 8} {v : BitVec fi.width}
    {w : BitVec fj.width} (hd : d.toNat < 4) (hv : extractable fi v = true)
    (hw : extractable fj w = true) : Extractable (tradeFlow fi fj d v w) :=
  ((ones_extractable.set (f := .nwFrag) (decide_eq_true hd)).set hv).set hw

/-- Any two fields but the label trade a one. -/
theorem trade_one {fi fj : FlowField} (hli : fi ≠ .ipv6Label) (hlj : fj ≠ .ipv6Label)
    (hfi : fi ≠ .nwFrag) (hfj : fj ≠ .nwFrag) (frags : List Nat) : Trade fi fj frags := by
  have hone : decimal (1 : BitVec 8).toNat = [49] := by decide
  have hpass (r : List Byte) : 49 :: (frags.flatMap (fun _ => [49]) ++ r) =
      frags.flatMap (fun _ => [49]) ++ 49 :: r := by
    induction frags with
    | nil => rfl
    | cons k frags ih =>
      rw [List.flatMap_cons, List.append_assoc, List.append_assoc, ← ih]
      rfl
  refine .intro 1 1 (oneAtEnd fi) (ones fi) (ones fj) (oneAtFront fj) (.inl rfl) (oneAtEnd_ne hli)
    (tradeFlow_extractable (by decide) (oneMore_extractable hli hfi).1 (ones_extractable fj))
    (tradeFlow_extractable (by decide) (ones_extractable fi) (oneMore_extractable hlj hfj).2) ?_
  rw [hone, render_oneAtEnd hli, render_oneAtFront hlj, List.append_assoc, ← hpass]
  rfl

/-- A number before the label takes the digits 128 from it. -/
theorem trade_before_label {fi : FlowField} (v v' : BitVec fi.width) (hv : extractable fi v = true)
    (hv' : extractable fi v' = true) (htext : render fi v = render fi v' ++ [49, 50, 56]) :
    Trade fi .ipv6Label [] := by
  have hne : v ≠ v' := by
    rintro rfl
    simp at htext
  refine .intro 1 1 v v' 0 1280 (.inl rfl) hne (tradeFlow_extractable (by decide) hv (by decide))
    (tradeFlow_extractable (by decide) hv' (by decide)) ?_
  rw [htext, List.append_assoc]
  rfl

/-- The label takes the digits 256 from a number of 16 bits behind it. -/
theorem trade_behind_label {fj : FlowField} (w w' : BitVec fj.width) (hw : extractable fj w = true)
    (hw' : extractable fj w' = true) (htext : render fj w' = [50, 53, 54] ++ render fj w) :
    Trade .ipv6Label fj [] := by
  refine .intro 1 1 65536256 65536 w w' (.inl rfl) (by decide)
    (tradeFlow_extractable (by decide) (by decide) hw)
    (tradeFlow_extractable (by decide) (by decide) hw') ?_
  rw [htext]
  rfl

/-- With fragment bits in between, the label takes a zero from them, and they take a one. -/
theorem trade_across_frag {fj : FlowField} (hlj : fj ≠ .ipv6Label) (hfj : fj ≠ .nwFrag) :
    Trade .ipv6Label fj [17] := by
  refine .intro 1 0 2560 256 (ones fj) (oneAtFront fj) (.inr List.mem_cons_self) (by decide)
    (tradeFlow_extractable (by decide) (by decide) (ones_extractable fj))
    (tradeFlow_extractable (by decide) (by decide) (oneMore_extractable hlj hfj).2) ?_
  rw [render_oneAtFront hlj]
  rfl

/-! ## Bitmaps -/

/-- The destination port can be selected but is never printed. -/
theorem not_identifies_of_port {bitmap : BitVec 64} (hwd : WellDefined bitmap)
    (hne : selected bitmap ≠ []) (h26 : bitmap.getLsbD 26 = true) : ¬ Identifies bitmap := by
  intro hid
  have hsame : (selected bitmap).flatMap (fieldText (ones.set .tpDst (oneAtEnd .tpDst))) =
      (selected bitmap).flatMap (fieldText ones) :=
    List.flatMap_congr fun k hk =>
      fieldText_set_of_ne (i := 26) rfl (Nat.ne_of_lt (mem_selected.mp hk).1) _ _
  have heq := hid ones _ ones_extractable
    (ones_extractable.set (v := oneAtEnd .tpDst) rfl) _
    ((parseMatch_eq_some hwd).mpr ⟨hne, rfl⟩) ((parseMatch_eq_some hwd).mpr ⟨hne, hsame⟩)
    26 .tpDst h26 rfl
  rw [Flow.set_self] at heq
  exact oneAtEnd_ne (by decide) heq.symm

/-- The label is followed by a byte or an address, and nothing else is selected but the
fragment field after them. -/
def LabelFirst (bits : List Nat) : Prop := ∃ j ∈ behindLabel, bits = [14, j] ∨ bits = [14, j, 17]

theorem selected_sorted (bitmap : BitVec 64) : (selected bitmap).Pairwise (· < ·) :=
  List.pairwise_lt_range.filter _

theorem eq_nil_or_singleton {l : List Nat} (h : ∀ k ∈ l, k = 17) (hl : l.Pairwise (· < ·)) :
    l = [] ∨ l = [17] := by
  have hle : l.length ≤ 1 := by
    have hrep := List.eq_replicate_of_mem h
    rw [hrep, List.pairwise_replicate] at hl
    exact hl.resolve_right (Nat.lt_irrefl 17)
  rcases Nat.le_one_iff_eq_zero_or_eq_one.mp hle with hnil | hone
  · exact .inl (List.length_eq_zero_iff.mp hnil)
  · exact .inr (List.eq_replicate_of_mem h |>.trans (by rw [hone]; rfl))

theorem before_label : ∀ i < 14, (bitField i).isSome = true →
    i = 1 ∨ i = 5 ∨ i = 8 ∨ i = 9 ∨ i = 10 := by decide

theorem port_behind_label : ∀ j < 26, 14 < j ∧ (bitField j).isSome = true ∧ j ≠ 17 ∧
    j ∉ behindLabel → j = 23 ∨ j = 25 := by decide

/-- Two fields do not identify, unless the first is the label. -/
theorem not_identifies_of_two {bitmap : BitVec 64} (hwd : WellDefined bitmap) {i j : Nat}
    {l₁ m l₂ : List Nat} (hsel : selected bitmap = l₁ ++ i :: (m ++ j :: l₂)) (hi : i ≠ 17)
    (hj : j ≠ 17) (hm : ∀ k ∈ m, k = 17) (hi14 : i ≠ 14) : ¬ Identifies bitmap := by
  have hsorted := selected_sorted bitmap
  rw [hsel] at hsorted
  have hmem {k : Nat} (hk : k = i ∨ k = j) : bitmap.getLsbD k = true ∧ k < 26 := by
    have hmem : k ∈ selected bitmap := by
      rcases hk with rfl | rfl <;> simp [hsel]
    exact ⟨(mem_selected.mp hmem).2, (mem_selected.mp hmem).1⟩
  obtain ⟨fi, hfi⟩ := Option.isSome_iff_exists.mp (hwd i (hmem (.inl rfl)).1)
  obtain ⟨fj, hfj⟩ := Option.isSome_iff_exists.mp (hwd j (hmem (.inr rfl)).1)
  have hli : fi ≠ .ipv6Label := field_ne (j := 14) hfi rfl hi14
  have hfragi : fi ≠ .nwFrag := field_ne (j := 17) hfi rfl hi
  have hfragj : fj ≠ .nwFrag := field_ne (j := 17) hfj rfl hj
  by_cases hj14 : j = 14
  · subst hj14
    have hbehind := (List.pairwise_append.mp hsorted).2.1
    have hlt : i < 14 := List.rel_of_pairwise_cons hbehind (by simp)
    -- the fragment field is behind the label
    obtain rfl : m = [] := by
      refine List.eq_nil_iff_forall_not_mem.mpr fun k hk => ?_
      have hafter := (List.pairwise_append.mp (List.pairwise_cons.mp hbehind).2).2.2 k hk 14
        List.mem_cons_self
      rw [hm k hk] at hafter
      omega
    obtain rfl : fj = .ipv6Label := (Option.some.inj hfj).symm
    have htrade : Trade fi .ipv6Label [] := by
      have hcase := before_label i hlt (Option.isSome_of_eq_some hfi)
      rcases hcase with rfl | rfl | rfl | rfl | rfl <;> obtain rfl := Option.some.inj hfi
      all_goals exact trade_before_label 1128 1 rfl rfl rfl
    exact htrade.not_identifies hwd hfi hfj hi hj hm hsel
  · have hlj : fj ≠ .ipv6Label := field_ne (j := 14) hfj rfl hj14
    exact (trade_one hli hlj hfragi hfragj m).not_identifies hwd hfi hfj hi hj hm hsel

theorem not_identifies_of_label {bitmap : BitVec 64} (hwd : WellDefined bitmap) {j : Nat}
    {l₁ m l₂ : List Nat} (hsel : selected bitmap = l₁ ++ 14 :: (m ++ j :: l₂)) (hj : j ≠ 17)
    (hm : ∀ k ∈ m, k = 17) (hl₁ : ∀ k ∈ l₁, k = 17) (hnot : ¬ LabelFirst (selected bitmap)) :
    ¬ Identifies bitmap := by
  have hsorted := selected_sorted bitmap
  rw [hsel] at hsorted
  obtain ⟨-, hbehind, hbefore⟩ := List.pairwise_append.mp hsorted
  obtain ⟨hafter, hrest⟩ := List.pairwise_cons.mp hbehind
  have hjmem : j ∈ selected bitmap := by simp [hsel]
  obtain ⟨hj26, hbj⟩ := mem_selected.mp hjmem
  obtain ⟨fj, hfj⟩ := Option.isSome_iff_exists.mp (hwd j hbj)
  have hj14 : 14 < j := hafter j (by simp)
  have hlj : fj ≠ .ipv6Label := field_ne (j := 14) hfj rfl (by omega)
  have hfragj : fj ≠ .nwFrag := field_ne (j := 17) hfj rfl hj
  rcases eq_nil_or_singleton hm (List.pairwise_append.mp hrest).1 with rfl | rfl
  · by_cases hshort : j ∈ behindLabel
    · -- a third field, which trades with the second
      obtain rfl : l₁ = [] := by
        refine List.eq_nil_iff_forall_not_mem.mpr fun k hk => ?_
        have hlt := hbefore k hk 14 List.mem_cons_self
        rw [hl₁ k hk] at hlt
        omega
      cases hthird : l₂.filter (fun k => k != 17) with
      | nil =>
        have honly : ∀ k ∈ l₂, k = 17 := fun k hk => by
          simpa using List.filter_eq_nil_iff.mp hthird k hk
        have hl₂ := (List.pairwise_cons.mp hrest).2
        rcases eq_nil_or_singleton honly hl₂ with rfl | rfl
        · exact absurd ⟨j, hshort, .inl hsel⟩ hnot
        · exact absurd ⟨j, hshort, .inr hsel⟩ hnot
      | cons k rest =>
        obtain ⟨m', l, rfl, hm', hk, -⟩ := List.filter_eq_cons_iff.mp hthird
        have hthree : selected bitmap = [14] ++ j :: (m' ++ k :: l) := hsel
        exact not_identifies_of_two hwd hthree hj (by simpa using hk)
          (fun x hx => by simpa using hm' x hx) (by omega)
    · have htrade : Trade .ipv6Label fj [] := by
        have hcase := port_behind_label j hj26 ⟨hj14, Option.isSome_of_eq_some hfj, hj, hshort⟩
        rcases hcase with rfl | rfl <;> obtain rfl := Option.some.inj hfj
        all_goals exact trade_behind_label 0 2560 (by decide) (by decide) rfl
      exact htrade.not_identifies hwd rfl hfj (by decide) hj hm hsel
  · exact (trade_across_frag hlj hfragj).not_identifies hwd rfl hfj (by decide) hj hm hsel

section

variable {bitmap : BitVec 64} (hwd : WellDefined bitmap)
include hwd

/-- It is enough that the string determines the texts. -/
theorem identifies_of_texts (h26 : bitmap.getLsbD 26 = false)
    (htexts : ∀ p q : Flow, Extractable p → Extractable q →
      (selected bitmap).flatMap (fieldText p) = (selected bitmap).flatMap (fieldText q) →
        ∀ i ∈ selected bitmap, fieldText p i = fieldText q i) : Identifies bitmap := by
  intro p q hp hq key hkp hkq i f hi hf
  obtain ⟨-, hp'⟩ := (parseMatch_eq_some hwd).mp hkp
  obtain ⟨-, hq'⟩ := (parseMatch_eq_some hwd).mp hkq
  have hle : i ≤ 26 := by
    unfold bitField at hf
    split at hf <;> first | omega | cases hf
  have hne : i ≠ 26 := by
    rintro rfl
    rw [h26] at hi
    cases hi
  have hmem : i ∈ selected bitmap := mem_selected.mpr ⟨by omega, hi⟩
  have htext := htexts p q hp hq (hp'.trans hq'.symm) i hmem
  rw [fieldText_eq hf, fieldText_eq hf] at htext
  exact render_injective htext

theorem identifies_of_label (h26 : bitmap.getLsbD 26 = false)
    (hlabel : LabelFirst (selected bitmap)) : Identifies bitmap := by
  refine identifies_of_texts hwd h26 fun p q hp hq h i hi => ?_
  obtain ⟨j, hj, hsel | hsel⟩ := hlabel
  · rw [hsel] at h hi
    simp only [List.flatMap_cons, List.flatMap_nil, List.append_nil] at h
    obtain ⟨hfirst, hsecond⟩ := label_inj hp hq hj h
    simp only [List.mem_cons, List.not_mem_nil, or_false] at hi
    rcases hi with rfl | rfl
    · exact hfirst
    · exact hsecond
  · rw [hsel] at h hi
    simp only [List.flatMap_cons, List.flatMap_nil, List.append_nil, ← List.append_assoc] at h
    have hlen : (fieldText p 17).length = (fieldText q 17).length := by
      rw [fragText_length hp, fragText_length hq]
    obtain ⟨hpair, hfrag⟩ := List.append_inj' h hlen
    obtain ⟨hfirst, hsecond⟩ := label_inj hp hq hj hpair
    simp only [List.mem_cons, List.not_mem_nil, or_false] at hi
    rcases hi with rfl | rfl | rfl
    · exact hfirst
    · exact hsecond
    · exact hfrag

/-- A match string identifies the selected fields exactly if none is printed, or the destination
port is not selected and there is one field apart from the fragment field, or the label and a
byte or an address right behind it. -/
theorem parseMatch_identifies_iff :
    Identifies bitmap ↔ selected bitmap = [] ∨ (bitmap.getLsbD 26 = false ∧
      (((selected bitmap).filter (fun i => i != 17)).length ≤ 1 ∨
        LabelFirst (selected bitmap))) := by
  constructor
  · intro hid
    by_cases hne : selected bitmap = []
    · exact .inl hne
    refine .inr ⟨?_, ?_⟩
    · cases h26 : bitmap.getLsbD 26 with
      | false => rfl
      | true => exact absurd hid (not_identifies_of_port hwd hne h26)
    · by_contra hnot
      obtain ⟨hlen, hlabel⟩ := not_or.mp hnot
      obtain ⟨i, j, rest, hrest⟩ : ∃ i j rest,
          (selected bitmap).filter (fun i => i != 17) = i :: j :: rest := by
        cases hfilter : (selected bitmap).filter (fun i => i != 17) with
        | nil => exact absurd (hfilter ▸ Nat.zero_le 1) hlen
        | cons i rest =>
          cases rest with
          | nil => exact absurd (hfilter ▸ Nat.le_refl 1) hlen
          | cons j rest => exact ⟨i, j, rest, rfl⟩
      obtain ⟨l₁, l, hsel, hl₁, hi17, hl⟩ := List.filter_eq_cons_iff.mp hrest
      obtain ⟨m, l₂, rfl, hm, hj17, -⟩ := List.filter_eq_cons_iff.mp hl
      have hm' : ∀ k ∈ m, k = 17 := fun k hk => by simpa using hm k hk
      have hj : j ≠ 17 := by simpa using hj17
      by_cases hi14 : i = 14
      · subst hi14
        exact not_identifies_of_label hwd hsel hj hm' (fun k hk => by simpa using hl₁ k hk) hlabel hid
      · exact not_identifies_of_two hwd hsel (by simpa using hi17) hj hm' hi14 hid
  · rintro (hnil | ⟨h26, hone | hlabel⟩)
    · intro p q _ _ key hkp
      exact absurd hnil ((parseMatch_eq_some hwd).mp hkp).1
    · exact identifies_of_texts hwd h26 fun p q hp hq h => text_inj hp hq hone h
    · exact identifies_of_label hwd h26 hlabel

end

/-- A table keyed by the source address alone, and one by the flow label and the traffic class. -/
theorem parseMatch_identifies_iff_source : Identifies 0x8000 ∧ Identifies 0x44000 :=
  ⟨(parseMatch_identifies_iff (wellDefined_of_forall (by decide))).mpr
      (.inr ⟨by decide, .inl (by decide)⟩),
    (parseMatch_identifies_iff (wellDefined_of_forall (by decide))).mpr
      (.inr ⟨by decide, .inr ⟨18, by decide, .inl (by decide)⟩⟩)⟩

/-- The bitmap of the stateful firewall: source and destination address. -/
def firewallBitMap : BitVec 64 := 0x18000

/-- An IPv4 flow between two addresses, with nothing else set. -/
def addressFlow (src dst : BitVec 32) : Flow
  | .dlType => htons 0x0800
  | .nwSrc => htonl src
  | .nwDst => htonl dst
  | _ => 0

theorem addressFlow_extractable (src dst : BitVec 32) : Extractable (addressFlow src dst) := by
  intro f
  cases f
  case nwFrag => exact decide_eq_true (by decide : (0 : BitVec 8).toNat < 4)
  case ipv6Label => exact (by decide : ((0 : BitVec 32) &&& htonl 0x000fffff == 0) = true)
  case tcpFlags => exact (by decide : ((0 : BitVec 16) &&& htons 0x0fff == 0) = true)
  all_goals rfl

/-- 10.0.0.1 to 12.0.0.1, and 10.0.0.11 to 2.0.0.1. -/
theorem firewall_keys_shared :
    ∃ key, parseMatch (addressFlow 0x0a000001 0x0c000001) firewallBitMap = .ok (some key) ∧
      parseMatch (addressFlow 0x0a00000b 0x02000001) firewallBitMap = .ok (some key) ∧
      addressFlow 0x0a000001 0x0c000001 .nwSrc ≠ addressFlow 0x0a00000b 0x02000001 .nwSrc ∧
      ¬ Identifies firewallBitMap := by
  have hp : parseMatch (addressFlow 0x0a000001 0x0c000001) firewallBitMap =
      parseMatch (addressFlow 0x0a00000b 0x02000001) firewallBitMap := by decide
  have hne : addressFlow 0x0a000001 0x0c000001 .nwSrc ≠
      addressFlow 0x0a00000b 0x02000001 .nwSrc := by decide
  obtain ⟨key, hkey⟩ : ∃ key,
      parseMatch (addressFlow 0x0a000001 0x0c000001) firewallBitMap = .ok (some key) := ⟨_, rfl⟩
  refine ⟨key, hkey, hp.symm.trans hkey, hne, ?_⟩
  intro hid
  exact hne (hid _ _ (addressFlow_extractable _ _) (addressFlow_extractable _ _) key hkey
    (hp.symm.trans hkey) 15 .nwSrc (by decide) rfl)

end Sdpa.Switch
