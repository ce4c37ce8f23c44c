import Sdpa.Lib.Decimal
import Sdpa.Switch.Flow
import Sdpa.Switch.Tables

/-!
# `parse_match` of `ofproto/ofproto-dpif-xlate.c`

The match string of a packet: the selected fields in the order of their bits, in
decimal or dotted notation, with nothing between them.
-/
namespace Sdpa.Switch

open Sdpa.Lib.Endian
open Sdpa.Lib.Decimal

/-- `inet_ntoa` prints the bytes of the address in memory order. -/
def inetNtoa (addr : BitVec 32) : List Byte := dotted (leBytes 4 addr.toNat)

/-- The `switch` of `parse_match`: what is written to `temp` for bit `i`. The MAC
and hardware addresses are printed through a pointer that was never set, and for
a bit without a case `temp` stays as `xmalloc` left it. -/
def matchField (fl : Flow) (i : Nat) : Except Fault (List Byte) :=
  match i with
  | 1 => .ok (decimal (fl .metadata).toNat)
  | 5 => .ok (decimal (fl .inPort).toNat)
  | 6 => .error .storeOutside
  | 7 => .error .storeOutside
  | 8 => .ok (decimal (fl .dlType).toNat)
  | 9 => .ok (decimal (fl .vlanTci).toNat)
  | 10 => .ok (decimal (fl .mplsLse).toNat)
  | 14 => .ok (decimal (fl .ipv6Label).toNat)
  | 15 => .ok (inetNtoa (fl .nwSrc))
  | 16 => .ok (inetNtoa (fl .nwDst))
  | 17 => .ok (decimal (fl .nwFrag).toNat)
  | 18 => .ok (decimal (fl .nwTos).toNat)
  | 19 => .ok (decimal (fl .nwTtl).toNat)
  | 20 => .ok (decimal (fl .nwProto).toNat)
  | 21 => .error .storeOutside
  | 22 => .error .storeOutside
  | 23 => .ok (decimal (fl .tcpFlags).toNat)
  | 25 => .ok (decimal (fl .tpSrc).toNat)
  | 26 => .ok (decimal (fl .tpDst).toNat)
  | _ => .error .indeterminate

/-- `match = temp` the first time, `strcat` after that. -/
def appendMatch (m : Option Key) (temp : Key) : Option Key := some (m.getD [] ++ temp)

/-- One round of the loop. -/
def matchRound (fl : Flow) (bitmap : BitVec 64) (m : Option Key) (i : Nat) :
    Except Fault (Option Key) :=
  if bitmap.getLsbD i then do
    let temp ← matchField fl i
    return appendMatch m temp
  else .ok m

/-- The loop ends before bit 26. -/
def parseMatch (fl : Flow) (bitmap : BitVec 64) : Except Fault (Option Key) :=
  (List.range 26).foldlM (matchRound fl bitmap) none

/-! ## The fields with well-defined code -/

/-- The field of a bit that has a well-defined case. -/
def bitField : Nat → Option FlowField
  | 1 => some .metadata | 5 => some .inPort | 8 => some .dlType | 9 => some .vlanTci
  | 10 => some .mplsLse | 14 => some .ipv6Label | 15 => some .nwSrc | 16 => some .nwDst
  | 17 => some .nwFrag | 18 => some .nwTos | 19 => some .nwTtl | 20 => some .nwProto
  | 23 => some .tcpFlags | 25 => some .tpSrc | 26 => some .tpDst
  | _ => none

/-- The bitmap selects fields with well-defined code only. -/
def WellDefined (bitmap : BitVec 64) : Prop :=
  ∀ i, bitmap.getLsbD i = true → (bitField i).isSome = true

theorem wellDefined_of_forall {bitmap : BitVec 64}
    (h : ∀ i : Fin 64, bitmap.getLsbD i = true → (bitField i).isSome = true) :
    WellDefined bitmap :=
  fun i hi => h ⟨i, BitVec.lt_of_getLsbD hi⟩ hi

/-- The bits that the loop finds set, in order. -/
def selected (bitmap : BitVec 64) : List Nat := (List.range 26).filter (fun i => bitmap.getLsbD i)

/-- The text of a field's value. -/
def render : (f : FlowField) → BitVec f.width → List Byte
  | .nwSrc, v => inetNtoa v
  | .nwDst, v => inetNtoa v
  | _, v => decimal v.toNat

def fieldText (fl : Flow) (i : Nat) : List Byte :=
  match bitField i with
  | some f => render f (fl f)
  | none => []

theorem inetNtoa_injective {v w : BitVec 32} (h : inetNtoa v = inetNtoa w) : v = w := by
  have hb := dotted_injective (by simp) h
  have hn := congrArg leNat hb
  rw [leNat_leBytes, leNat_leBytes, pow_256] at hn
  apply BitVec.eq_of_toNat_eq
  rwa [Nat.mod_eq_of_lt v.isLt, Nat.mod_eq_of_lt w.isLt] at hn

theorem render_injective {f : FlowField} {v w : BitVec f.width} (h : render f v = render f w) :
    v = w := by
  cases f with
  | nwSrc => exact inetNtoa_injective h
  | nwDst => exact inetNtoa_injective h
  | _ => exact BitVec.eq_of_toNat_eq (decimal_injective h)

theorem matchField_eq (fl : Flow) {i : Nat} (h : (bitField i).isSome = true) :
    matchField fl i = .ok (fieldText fl i) := by
  unfold bitField at h
  split at h
  case h_16 => cases h
  all_goals rfl

theorem matchField_undefined (fl : Flow) {i : Nat} (h : bitField i = none) :
    ∃ fault, matchField fl i = .error fault := by
  unfold matchField
  split
  case h_3 | h_4 | h_15 | h_16 | h_20 => exact ⟨_, rfl⟩
  all_goals cases h

theorem foldlM_matchRound (fl : Flow) {bitmap : BitVec 64} {l : List Nat}
    (hwd : ∀ i ∈ l, bitmap.getLsbD i = true → (bitField i).isSome = true) (m : Option Key) :
    l.foldlM (matchRound fl bitmap) m =
      .ok ((l.filter (fun i => bitmap.getLsbD i)).foldl
        (fun m i => appendMatch m (fieldText fl i)) m) := by
  induction l generalizing m with
  | nil => rfl
  | cons i l ih =>
    have hrest := ih fun j hj => hwd j (List.mem_cons_of_mem i hj)
    rw [List.foldlM_cons, matchRound]
    cases hi : bitmap.getLsbD i with
    | true =>
      rw [List.filter_cons_of_pos hi, List.foldl_cons, matchField_eq fl (hwd i List.mem_cons_self hi)]
      exact hrest _
    | false =>
      rw [List.filter_cons_of_neg (by rw [hi]; decide)]
      exact hrest m

theorem foldlM_matchRound_undefined (fl : Flow) {bitmap : BitVec 64} {l : List Nat} {i : Nat}
    (hmem : i ∈ l) (hi : bitmap.getLsbD i = true) (h : bitField i = none) (m : Option Key) :
    ∃ fault, l.foldlM (matchRound fl bitmap) m = .error fault := by
  induction l generalizing m with
  | nil => cases hmem
  | cons j l ih =>
    rw [List.foldlM_cons]
    cases hround : matchRound fl bitmap m j with
    | error fault => exact ⟨fault, rfl⟩
    | ok m' =>
      rcases List.mem_cons.mp hmem with rfl | hl
      · obtain ⟨fault, hfault⟩ := matchField_undefined fl h
        rw [matchRound, if_pos hi, hfault] at hround
        cases hround
      · exact ih hl m'

theorem foldl_appendMatch (f : Nat → Key) (l : List Nat) (m : Option Key) :
    l.foldl (fun m i => appendMatch m (f i)) m =
      if l = [] then m else some (m.getD [] ++ l.flatMap f) := by
  induction l generalizing m with
  | nil => rfl
  | cons i l ih =>
    rw [List.foldl_cons, ih, if_neg (List.cons_ne_nil i l), List.flatMap_cons]
    split
    · rename_i hl
      rw [hl]
      simp [appendMatch]
    · simp [appendMatch]

/-- The loop meets no bit without well-defined code. -/
def Readable (bitmap : BitVec 64) : Prop := ∀ i ∈ selected bitmap, (bitField i).isSome = true

theorem WellDefined.readable {bitmap : BitVec 64} (h : WellDefined bitmap) : Readable bitmap :=
  fun i hi => h i (List.mem_filter.mp hi).2

/-- The match string is the concatenation of the selected texts, or `NULL`. -/
theorem parseMatch_of_readable (fl : Flow) {bitmap : BitVec 64} (h : Readable bitmap) :
    parseMatch fl bitmap =
      .ok (if selected bitmap = [] then none
        else some ((selected bitmap).flatMap (fieldText fl))) := by
  have hbits : ∀ i ∈ List.range 26, bitmap.getLsbD i = true → (bitField i).isSome = true :=
    fun i hi hbit => h i (List.mem_filter.mpr ⟨hi, hbit⟩)
  rw [parseMatch, foldlM_matchRound fl hbits, foldl_appendMatch]
  rfl

theorem parseMatch_eq (fl : Flow) {bitmap : BitVec 64} (hwd : WellDefined bitmap) :
    parseMatch fl bitmap =
      .ok (if selected bitmap = [] then none
        else some ((selected bitmap).flatMap (fieldText fl))) :=
  parseMatch_of_readable fl hwd.readable

theorem readable_of_parseMatch {fl : Flow} {bitmap : BitVec 64} {m : Option Key}
    (h : parseMatch fl bitmap = .ok m) : Readable bitmap := by
  intro i hi
  obtain ⟨hrange, hbit⟩ := List.mem_filter.mp hi
  cases hf : bitField i with
  | some f => rfl
  | none =>
    obtain ⟨fault, hfault⟩ := foldlM_matchRound_undefined fl hrange hbit hf none
    rw [parseMatch, hfault] at h
    cases h

/-- There is a match string exactly if some bit is selected, and each of them has code. -/
theorem exists_parseMatch_iff (fl : Flow) (bitmap : BitVec 64) :
    (∃ key, parseMatch fl bitmap = .ok (some key)) ↔ Readable bitmap ∧ selected bitmap ≠ [] := by
  constructor
  · rintro ⟨key, hkey⟩
    have hr := readable_of_parseMatch hkey
    refine ⟨hr, fun hnil => ?_⟩
    rw [parseMatch_of_readable fl hr, if_pos hnil] at hkey
    cases hkey
  · rintro ⟨hr, hsel⟩
    rw [parseMatch_of_readable fl hr, if_neg hsel]
    exact ⟨_, rfl⟩

end Sdpa.Switch
