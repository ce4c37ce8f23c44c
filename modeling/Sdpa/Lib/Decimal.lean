import Mathlib.Data.Nat.Digits.Lemmas
import Sdpa.Lib.Endian

/-!
# Decimal text

Numbers as ASCII decimal text, without leading zeros, and texts of several
numbers one after another. One number is recovered from its text. Of a sequence
of texts each is recovered when all but one have a length known in advance.
-/
namespace Sdpa.Lib.Decimal

open Sdpa.Lib.Endian

def digitByte (d : Nat) : Byte := BitVec.ofNat 8 (48 + d)

/-- A natural number as `%u` prints it. -/
def decimal (n : Nat) : List Byte :=
  if n = 0 then [digitByte 0] else (Nat.digits 10 n).reverse.map digitByte

/-- An integer as `%d` prints it. -/
def intDecimal : Int → List Byte
  | .ofNat n => decimal n
  | .negSucc n => 45 :: decimal (n + 1)

def IsDigit (b : Byte) : Prop := 48 ≤ b.toNat ∧ b.toNat ≤ 57

/-- The number that a text of digits denotes. -/
def value (l : List Byte) : Nat := l.foldl (fun v b => 10 * v + (b.toNat - 48)) 0

theorem digitByte_toNat {d : Nat} (h : d < 10) : (digitByte d).toNat = 48 + d := by
  rw [digitByte, BitVec.toNat_ofNat]
  omega

private theorem foldl_value (l : List Byte) (v : Nat) :
    l.foldl (fun v b => 10 * v + (b.toNat - 48)) v = v * 10 ^ l.length + value l := by
  induction l generalizing v with
  | nil => simp [value]
  | cons b l ih =>
    simp only [value, List.foldl_cons, List.length_cons, pow_succ]
    rw [ih, ih (10 * 0 + (b.toNat - 48))]
    ring

theorem value_append (l l' : List Byte) :
    value (l ++ l') = value l * 10 ^ l'.length + value l' := by
  rw [value, List.foldl_append, foldl_value]
  rfl

theorem value_lt {l : List Byte} (h : ∀ b ∈ l, IsDigit b) : value l < 10 ^ l.length := by
  induction l with
  | nil => simp [value]
  | cons b l ih =>
    have hb : b.toNat - 48 ≤ 9 := by
      have := (h b List.mem_cons_self).2
      omega
    have hl := ih (fun x hx => h x (List.mem_cons_of_mem b hx))
    have hv : value (b :: l) = (b.toNat - 48) * 10 ^ l.length + value l := by
      rw [value, List.foldl_cons, foldl_value, Nat.mul_zero, Nat.zero_add]
    have hm := Nat.mul_le_mul_right (10 ^ l.length) hb
    rw [hv, List.length_cons, pow_succ]
    omega

private theorem value_reverse_digits {l : List Nat} (h : ∀ d ∈ l, d < 10) :
    value (l.reverse.map digitByte) = Nat.ofDigits 10 l := by
  induction l with
  | nil => rfl
  | cons d l ih =>
    have hd := digitByte_toNat (h d List.mem_cons_self)
    have hone : value [digitByte d] = d := by
      simp only [value, List.foldl_cons, List.foldl_nil, hd]
      omega
    rw [List.reverse_cons, List.map_append, value_append, List.map_singleton, hone,
      ih (fun x hx => h x (List.mem_cons_of_mem d hx)), Nat.ofDigits_cons]
    simp only [List.length_singleton, pow_one]
    omega

theorem value_decimal (n : Nat) : value (decimal n) = n := by
  rw [decimal]
  split
  · rename_i hn
    rw [hn]
    decide
  · rw [value_reverse_digits (fun d hd => Nat.digits_lt_base (by omega) hd), Nat.ofDigits_digits]

theorem decimal_injective {m n : Nat} (h : decimal m = decimal n) : m = n := by
  rw [← value_decimal m, h, value_decimal]

theorem isDigit_of_mem_decimal {n : Nat} {b : Byte} (h : b ∈ decimal n) : IsDigit b := by
  rw [decimal] at h
  split at h
  · rw [List.mem_singleton.mp h]
    exact ⟨by decide, by decide⟩
  · obtain ⟨d, hd, rfl⟩ := List.mem_map.mp h
    have hlt := Nat.digits_lt_base (by omega : 1 < 10) (List.mem_reverse.mp hd)
    rw [IsDigit, digitByte_toNat hlt]
    omega

theorem decimal_ne_nil (n : Nat) : decimal n ≠ [] := by
  rw [decimal]
  split
  · exact List.cons_ne_nil _ _
  · rename_i hn
    rw [ne_eq, List.map_eq_nil_iff, List.reverse_eq_nil_iff, Nat.digits_eq_nil_iff_eq_zero]
    exact hn

theorem not_mem_decimal {n : Nat} {b : Byte} (h : ¬ IsDigit b) : b ∉ decimal n :=
  fun hb => h (isDigit_of_mem_decimal hb)

instance (b : Byte) : Decidable (IsDigit b) := inferInstanceAs (Decidable (_ ∧ _))

/-- Reads a text of digits. -/
def readNat (l : List Byte) : Option Nat :=
  if l ≠ [] ∧ ∀ b ∈ l, IsDigit b then some (value l) else none

/-- Reads digits with a sign in front of them, or without. -/
def readInt : List Byte → Option Int
  | [] => none
  | b :: l =>
    if b = 45 then (readNat l).map fun n => -(n : Int)
    else if b = 43 then (readNat l).map fun n => (n : Int)
    else (readNat (b :: l)).map fun n => (n : Int)

theorem readNat_decimal (n : Nat) : readNat (decimal n) = some n := by
  rw [readNat, if_pos ⟨decimal_ne_nil n, fun b hb => isDigit_of_mem_decimal hb⟩, value_decimal]

theorem readInt_intDecimal (i : Int) : readInt (intDecimal i) = some i := by
  cases i with
  | ofNat n =>
    rw [intDecimal]
    cases hl : decimal n with
    | nil => exact absurd hl (decimal_ne_nil n)
    | cons b l =>
      have hb : IsDigit b := isDigit_of_mem_decimal (hl ▸ List.mem_cons_self)
      have hminus : b ≠ 45 := fun h => absurd (h ▸ hb) (by decide)
      have hplus : b ≠ 43 := fun h => absurd (h ▸ hb) (by decide)
      rw [readInt, if_neg hminus, if_neg hplus, ← hl, readNat_decimal]
      rfl
  | negSucc n =>
    rw [intDecimal, readInt, if_pos rfl, readNat_decimal]
    rfl

/-- A text that continues a number is that number shifted, plus what follows. -/
theorem decimal_eq_append {m n : Nat} {l : List Byte} (h : decimal n = decimal m ++ l) :
    n = m * 10 ^ l.length + value l ∧ value l < 10 ^ l.length := by
  have hv := congrArg value h
  rw [value_decimal, value_append, value_decimal] at hv
  refine ⟨hv, value_lt ?_⟩
  intro b hb
  exact isDigit_of_mem_decimal (h ▸ List.mem_append_right (decimal m) hb)

/-- What stands before the first separator, and after it. -/
theorem append_sep_inj {α : Type} {sep : α} {l l' r r' : List α} (hl : sep ∉ l) (hl' : sep ∉ l')
    (h : l ++ sep :: r = l' ++ sep :: r') : l = l' ∧ r = r' := by
  induction l generalizing l' with
  | nil =>
    obtain _ | ⟨x, l'⟩ := l'
    · exact ⟨rfl, List.tail_eq_of_cons_eq h⟩
    · rw [List.nil_append, List.cons_append] at h
      exact absurd (List.head_eq_of_cons_eq h ▸ List.mem_cons_self) hl'
  | cons x l ih =>
    obtain _ | ⟨x', l'⟩ := l'
    · rw [List.nil_append, List.cons_append] at h
      exact absurd (List.head_eq_of_cons_eq h ▸ List.mem_cons_self) hl
    · rw [List.cons_append, List.cons_append] at h
      obtain ⟨rfl, htail⟩ := List.cons_eq_cons.mp h
      obtain ⟨rfl, hr⟩ := ih (fun hm => hl (List.mem_cons_of_mem x hm))
        (fun hm => hl' (List.mem_cons_of_mem x hm)) htail
      exact ⟨rfl, hr⟩

/-! ## Dotted notation -/

/-- The bytes of an address in decimal, with a dot between them. -/
def dotted : List Byte → List Byte
  | [] => []
  | [b] => decimal b.toNat
  | b :: c :: bs => decimal b.toNat ++ 46 :: dotted (c :: bs)

theorem not_isDigit_dot : ¬ IsDigit 46 := by
  intro h
  exact absurd h.1 (by decide)

/-- The dots separate what the digits alone would not. -/
theorem dotted_injective {l l' : List Byte} (hlen : l.length = l'.length)
    (h : dotted l = dotted l') : l = l' := by
  induction l generalizing l' with
  | nil => exact (List.length_eq_zero_iff.mp hlen.symm).symm
  | cons b l ih =>
    obtain _ | ⟨b', l'⟩ := l'
    · cases hlen
    have hl : l.length = l'.length := Nat.succ.inj hlen
    cases l with
    | nil =>
      obtain rfl := List.length_eq_zero_iff.mp hl.symm
      rw [BitVec.eq_of_toNat_eq (decimal_injective h)]
    | cons c l =>
      obtain _ | ⟨c', l'⟩ := l'
      · cases hl
      obtain ⟨hb, hrest⟩ : decimal b.toNat = decimal b'.toNat ∧
          dotted (c :: l) = dotted (c' :: l') :=
        append_sep_inj (not_mem_decimal not_isDigit_dot) (not_mem_decimal not_isDigit_dot) h
      rw [BitVec.eq_of_toNat_eq (decimal_injective hb), ih hl hrest]

/-! ## Texts one after another -/

/-- Empty texts need not be listed. -/
theorem flatMap_filter_of_nil {ι α : Type} {f : ι → List α} (p : ι → Bool) {l : List ι}
    (h : ∀ i ∈ l, p i = false → f i = []) : (l.filter p).flatMap f = l.flatMap f := by
  induction l with
  | nil => rfl
  | cons i l ih =>
    have hl := ih (fun j hj => h j (List.mem_cons_of_mem i hj))
    cases hp : p i with
    | true => rw [List.filter_cons_of_pos hp, List.flatMap_cons, List.flatMap_cons, hl]
    | false =>
      rw [List.filter_cons_of_neg (by rw [hp]; decide), List.flatMap_cons, hl,
        h i List.mem_cons_self hp, List.nil_append]

/-- Lengths decide where the texts are cut. -/
theorem flatMap_inj_of_length {ι α : Type} {f g : ι → List α} {l : List ι}
    (hlen : ∀ i ∈ l, (f i).length = (g i).length) (h : l.flatMap f = l.flatMap g) :
    ∀ i ∈ l, f i = g i := by
  induction l with
  | nil => simp
  | cons i l ih =>
    rw [List.flatMap_cons, List.flatMap_cons] at h
    obtain ⟨hi, hl⟩ := List.append_inj h (hlen i List.mem_cons_self)
    intro j hj
    rcases List.mem_cons.mp hj with rfl | hj
    · exact hi
    · exact ih (fun k hk => hlen k (List.mem_cons_of_mem i hk)) hl j hj

/-- One text of unknown length among texts of known length is cut by what is left. -/
theorem flatMap_inj {ι α : Type} {f g : ι → List α} {l₁ l₂ : List ι} {i : ι}
    (h₁ : ∀ j ∈ l₁, (f j).length = (g j).length) (h₂ : ∀ j ∈ l₂, (f j).length = (g j).length)
    (h : (l₁ ++ i :: l₂).flatMap f = (l₁ ++ i :: l₂).flatMap g) :
    ∀ j ∈ l₁ ++ i :: l₂, f j = g j := by
  have hmap : ∀ l : List ι, (∀ j ∈ l, (f j).length = (g j).length) →
      (l.flatMap f).length = (l.flatMap g).length := by
    intro l hl
    rw [List.length_flatMap, List.length_flatMap]
    exact congrArg List.sum (List.map_congr_left hl)
  apply flatMap_inj_of_length _ h
  intro j hj
  rcases List.mem_append.mp hj with hj | hj
  · exact h₁ j hj
  rcases List.mem_cons.mp hj with rfl | hj
  · have htotal := congrArg List.length h
    simp only [List.flatMap_append, List.flatMap_cons, List.length_append, hmap l₁ h₁,
      hmap l₂ h₂] at htotal
    omega
  · exact h₂ j hj

end Sdpa.Lib.Decimal
