import Sdpa.Lib.Fallible
import Sdpa.Switch.HandlePkt
import Sdpa.Switch.Hash

/-!
# Messages that the handlers read inside their bounds

The handlers of `ofproto/sfa.c` take counts and lengths from the message and compare
none of them with its length. Whether they stay inside is a matter of where the
items end that they are led to.
-/
namespace Sdpa.Switch

open Sdpa.Lib.Endian
open Sdpa.Lib.Fallible

variable {hash : Key → BitVec 32}

/-! ## Loads -/

/-- The four bytes at an offset, as far as they are there. -/
def wordAt (msg : List Byte) (off : Nat) : BitVec 32 := leWord 4 ((msg.drop off).take 4)

def netWordAt (msg : List Byte) (off : Nat) : BitVec 32 := ntohl (wordAt msg off)

def netLongAt (msg : List Byte) (off : Nat) : BitVec 64 :=
  ntohll (leWord 8 ((msg.drop off).take 8))

def keyAt (msg : List Byte) (off : Nat) (len : BitVec 32) : Key :=
  cString ((msg.drop off).take len.toNat)

theorem slice_gives {n : Nat} (msg : List Byte) (off : Nat) (read : List Byte → BitVec n) (len : Nat) :
    Gives (match slice msg off len with
      | some bs => .ok (read bs)
      | none => .error Fault.readOutside) (off + len ≤ msg.length)
        (read ((msg.drop off).take len)) := by
  by_cases h : off + len ≤ msg.length
  · rw [slice, if_pos h]
    exact ⟨fun _ => rfl, fun _ => h⟩
  · rw [slice, if_neg h]
    refine ⟨fun h' => absurd h' h, ?_⟩
    rintro ⟨_, hr⟩
    cases hr

theorem load32_gives (msg : List Byte) (off : Nat) :
    Gives (load32 msg off) (off + 4 ≤ msg.length) (wordAt msg off) :=
  slice_gives msg off (leWord 4) 4

theorem net32_gives (msg : List Byte) (off : Nat) :
    Gives (net32 msg off) (off + 4 ≤ msg.length) (netWordAt msg off) := by
  have h := (load32_gives msg off).bind (f := fun w => pure (ntohl w)) (.pure _)
  exact h.congr (and_iff_left trivial)

theorem net64_gives (msg : List Byte) (off : Nat) :
    Gives (net64 msg off) (off + 8 ≤ msg.length) (netLongAt msg off) := by
  have hload : Gives (load64 msg off) (off + 8 ≤ msg.length) (leWord 8 ((msg.drop off).take 8)) :=
    slice_gives msg off (leWord 8) 8
  have h := hload.bind (f := fun w => pure (ntohll w)) (.pure _)
  exact h.congr (and_iff_left trivial)

/-! ## Keys -/

theorem copyKey_gives' (msg : List Byte) (off : Nat) (len nul : BitVec 32) :
    Gives (copyKey msg off len nul) ((nul.toNat < (len + 2).toNat ∧ len.toNat < (len + 2).toNat) ∧
      off + len.toNat ≤ msg.length) (keyAt msg off len) := by
  rw [copyKey, slice]
  split
  case isTrue hstores =>
    split
    case h_1 bytes hbytes =>
      split at hbytes
      case isTrue h =>
        obtain rfl := Option.some.inj hbytes
        exact ⟨fun _ => rfl, fun _ => ⟨hstores, h⟩⟩
      case isFalse => cases hbytes
    case h_2 hbytes =>
      split at hbytes
      case isTrue => cases hbytes
      case isFalse h =>
        refine ⟨fun h' => absurd h'.2 h, ?_⟩
        rintro ⟨_, hr⟩
        cases hr
  case isFalse hstores =>
    refine ⟨fun h' => absurd h'.1 hstores, ?_⟩
    rintro ⟨_, hr⟩
    cases hr

/-- The buffer of a key that lies inside the message holds both terminators. -/
theorem copyKey_gives {msg : List Byte} (hmsg : msg.length < 65536) (off : Nat) (len : BitVec 32) :
    Gives (copyKey msg off len (len + 1)) (off + len.toNat ≤ msg.length) (keyAt msg off len) := by
  refine (copyKey_gives' msg off len (len + 1)).congr ⟨fun h => h.2, fun h => ⟨?_, h⟩⟩
  have h1 : (1 : BitVec 32).toNat = 1 := rfl
  have h2 : (2 : BitVec 32).toNat = 2 := rfl
  rw [BitVec.toNat_add, BitVec.toNat_add]
  omega

/-- In the action table of a create message the first terminator goes before the end. -/
theorem copyKey_init_gives {msg : List Byte} (hmsg : msg.length < 65536) (off : Nat)
    (len : BitVec 32) :
    Gives (copyKey msg off len (len - 1)) (off + len.toNat ≤ msg.length ∧ len ≠ 0)
      (keyAt msg off len) := by
  refine (copyKey_gives' msg off len (len - 1)).congr ⟨?_, ?_⟩
  · rintro ⟨hstores, h⟩
    refine ⟨h, ?_⟩
    rintro rfl
    exact absurd hstores (by decide)
  · rintro ⟨h, hne⟩
    have hpos : len.toNat ≠ 0 := fun h0 => hne (BitVec.eq_of_toNat_eq h0)
    have h1 : (1 : BitVec 32).toNat = 1 := rfl
    have h2 : (2 : BitVec 32).toNat = 2 := rfl
    refine ⟨?_, h⟩
    rw [BitVec.toNat_add, BitVec.toNat_sub]
    omega

/-! ## Create messages -/

/-- Items with a header that ends in the length of a key, one after the other. -/
def itemsEnd (msg : List Byte) (header : Nat) : Nat → Nat → Nat
  | 0, off => off
  | n + 1, off => itemsEnd msg header n (off + (header + 4) + (netWordAt msg (off + header)).toNat)

def ItemsInside (msg : List Byte) (header : Nat) : Nat → Nat → Prop
  | 0, _ => True
  | n + 1, off => off + (header + 4) + (netWordAt msg (off + header)).toNat ≤ msg.length ∧
    ItemsInside msg header n (off + (header + 4) + (netWordAt msg (off + header)).toNat)

/-- No item has an empty key. -/
def KeysNonempty (msg : List Byte) (header : Nat) : Nat → Nat → Prop
  | 0, _ => True
  | n + 1, off => netWordAt msg (off + header) ≠ 0 ∧
    KeysNonempty msg header n (off + (header + 4) + (netWordAt msg (off + header)).toNat)

/-- Where the transition table of a create message ends. -/
def sttEnd (msg : List Byte) : Nat :=
  itemsEnd msg 4 (intRounds (netWordAt msg 20)) 24 + 4 +
    36 * (netWordAt msg (itemsEnd msg 4 (intRounds (netWordAt msg 20)) 24)).toNat

/-- The transition at an offset of a create message. -/
def sttEntryAt (msg : List Byte) (off : Nat) : SttMatchEntry where
  paramLeftType := netWordAt msg off
  paramLeft := netLongAt msg (off + 4)
  oprator := netWordAt msg (off + 24)
  paramRightType := netWordAt msg (off + 12)
  paramRight := netLongAt msg (off + 16)
  lastStatus := netWordAt msg (off + 28)
  curStatus := netWordAt msg (off + 32)

/-- The transitions from an offset on, in the order of the message. -/
def sttEntries (msg : List Byte) (n off : Nat) : List SttMatchEntry :=
  (List.range n).map fun i => sttEntryAt msg (off + 36 * i)

theorem sttEntries_succ (msg : List Byte) (n off : Nat) :
    sttEntries msg (n + 1) off = sttEntryAt msg off :: sttEntries msg n (off + 36) := by
  rw [sttEntries, sttEntries, List.range_succ_eq_map, List.map_cons, List.map_map]
  refine congrArg (sttEntryAt msg off :: ·) (List.map_congr_left fun i _ => ?_)
  have hoff : off + 36 * (i + 1) = off + 36 + 36 * i := by omega
  exact congrArg (sttEntryAt msg) hoff

theorem initSttEntrys_gives (msg : List Byte) (n off : Nat) (stt : List SttMatchEntry) :
    Gives (initSttEntrys msg n off stt) (n = 0 ∨ off + 36 * n ≤ msg.length)
      (stt ++ sttEntries msg n off, off + 36 * n) := by
  induction n generalizing off stt with
  | zero =>
    have hnil : stt ++ sttEntries msg 0 off = stt := List.append_nil stt
    rw [hnil]
    exact (Gives.pure (stt, off)).congr ⟨fun _ => .inl rfl, fun _ => trivial⟩
  | succ n ih =>
    have hrest := ih (off + 36) (stt ++ [sttEntryAt msg off])
    have hpos : off + 36 + 36 * n = off + 36 * (n + 1) := by omega
    rw [hpos, List.append_assoc, List.singleton_append, ← sttEntries_succ] at hrest
    rw [initSttEntrys]
    refine Gives.congr (.bind (net32_gives msg (off + 32)) (.bind (net32_gives msg (off + 24))
      (.bind (net64_gives msg (off + 4)) (.bind (net32_gives msg off)
        (.bind (net64_gives msg (off + 16)) (.bind (net32_gives msg (off + 12))
          (.bind (net32_gives msg (off + 28)) hrest))))))) ?_
    omega

section

variable {msg : List Byte} (hmsg : msg.length < 65536)
include hmsg

theorem initStEntrys_gives (n off : Nat) (st : Entries hash StMatchEntry.data) :
    ∃ st', Gives (initStEntrys msg n off st) (ItemsInside msg 4 n off)
      (st', itemsEnd msg 4 n off) := by
  induction n generalizing off st with
  | zero => exact ⟨st, .pure _⟩
  | succ n ih =>
    obtain ⟨st', hrest⟩ := ih (off + 8 + (netWordAt msg (off + 4)).toNat)
      (st.insert ⟨keyAt msg (off + 8) (netWordAt msg (off + 4)), netWordAt msg off⟩)
    refine ⟨st', ?_⟩
    rw [initStEntrys]
    refine Gives.congr (.bind (net32_gives msg off) (.bind (net32_gives msg (off + 4))
      (.bind (copyKey_gives hmsg (off + 8) _) hrest))) ?_
    rw [ItemsInside]
    constructor
    · rintro ⟨-, -, hkeyIn, hitems⟩
      exact ⟨hkeyIn, hitems⟩
    · rintro ⟨hkeyIn, hitems⟩
      exact ⟨by omega, by omega, hkeyIn, hitems⟩

theorem initAtEntrys_gives (n off : Nat) (tbl : Entries hash AtMatchEntry.data) :
    ∃ tbl', Gives (initAtEntrys msg n off tbl)
      (ItemsInside msg 12 n off ∧ KeysNonempty msg 12 n off) (tbl', itemsEnd msg 12 n off) := by
  induction n generalizing off tbl with
  | zero => exact ⟨tbl, (Gives.pure _).congr (by simp [ItemsInside, KeysNonempty])⟩
  | succ n ih =>
    obtain ⟨tbl', hrest⟩ := ih (off + 16 + (netWordAt msg (off + 12)).toNat)
      (tbl.insert ⟨keyAt msg (off + 16) (netWordAt msg (off + 12)), netWordAt msg (off + 8),
        ⟨netWordAt msg off, netWordAt msg (off + 4)⟩⟩)
    refine ⟨tbl', ?_⟩
    rw [initAtEntrys]
    refine Gives.congr (.bind (net32_gives msg off) (.bind (net32_gives msg (off + 4))
      (.bind (net32_gives msg (off + 8)) (.bind (net32_gives msg (off + 12))
        (.bind (copyKey_init_gives hmsg (off + 16) _) hrest))))) ?_
    rw [ItemsInside, KeysNonempty]
    constructor
    · rintro ⟨-, -, -, -, ⟨hkeyIn, hne⟩, hitems, hkeys⟩
      exact ⟨⟨hkeyIn, hitems⟩, hne, hkeys⟩
    · rintro ⟨⟨hkeyIn, hitems⟩, hne, hkeys⟩
      exact ⟨by omega, by omega, by omega, by omega, ⟨hkeyIn, hne⟩, hitems, hkeys⟩

end

/-- The three tables of a create message lie inside it, and the action table has no empty key. -/
structure InitInside (msg : List Byte) : Prop where
  header : 24 ≤ msg.length
  st : ItemsInside msg 4 (intRounds (netWordAt msg 20)) 24
  stt : sttEnd msg + 12 ≤ msg.length
  tbl : ItemsInside msg 12 (intRounds (netWordAt msg (sttEnd msg + 8))) (sttEnd msg + 12)
  keys : KeysNonempty msg 12 (intRounds (netWordAt msg (sttEnd msg + 8))) (sttEnd msg + 12)

theorem returns_sfaMsgInit {msg : List Byte} (hmsg : msg.length < 65536) (g : GApps hash) :
    Returns (sfaMsgInit msg g) ↔
      12 ≤ msg.length ∧ (g.find (netWordAt msg 8) = none → InitInside msg) := by
  rw [sfaMsgInit, (net32_gives msg 8).returns_bind]
  refine and_congr_right fun _ => ?_
  split
  case h_1 app hfind =>
    rw [hfind]
    exact ⟨fun _ => nofun, fun _ => ⟨_, rfl⟩⟩
  case h_2 hfind =>
    obtain ⟨st, hst⟩ := initStEntrys_gives hmsg (intRounds (netWordAt msg 20)) 24
      (.init : Entries hash StMatchEntry.data)
    have hstt := initSttEntrys_gives msg
      (netWordAt msg (itemsEnd msg 4 (intRounds (netWordAt msg 20)) 24)).toNat
      (itemsEnd msg 4 (intRounds (netWordAt msg 20)) 24 + 4) []
    obtain ⟨tbl, htbl⟩ := initAtEntrys_gives hmsg (intRounds (netWordAt msg (sttEnd msg + 8)))
      (sttEnd msg + 12) (.init : Entries hash AtMatchEntry.data)
    have hend : itemsEnd msg 4 (intRounds (netWordAt msg 20)) 24 + 4 +
        36 * (netWordAt msg (itemsEnd msg 4 (intRounds (netWordAt msg 20)) 24)).toNat =
          sttEnd msg := rfl
    rw [hend] at hstt
    rw [(net32_gives msg 20).returns_bind, (net64_gives msg 12).returns_bind, hst.returns_bind,
      (net32_gives msg _).returns_bind, hstt.returns_bind, (net32_gives msg _).returns_bind,
      (net64_gives msg _).returns_bind, htbl.returns_bind]
    constructor
    · rintro ⟨h24, -, hitems, -, -, htable, -, ⟨htblItems, hkeys⟩, -⟩ -
      exact ⟨h24, hitems, by omega, htblItems, hkeys⟩
    · intro h
      obtain ⟨h24, hitems, htable, htblItems, hkeys⟩ := h hfind
      exact ⟨h24, by omega, hitems, by omega, .inr (by omega), by omega, by omega,
        ⟨htblItems, hkeys⟩, ⟨_, rfl⟩⟩

/-! ## Modifications -/

def knownType (type : BitVec 32) : Bool :=
  type = entryAdd ∨ type = entryUpdate ∨ type = entryDel

theorem cases_of_known {type : BitVec 32} (h : knownType type = true) :
    type = entryAdd ∨ type = entryUpdate ∨ type = entryDel :=
  of_decide_eq_true h

theorem ne_of_unknown {type : BitVec 32} (h : knownType type = false) :
    type ≠ entryAdd ∧ type ≠ entryUpdate ∧ type ≠ entryDel := by
  simpa only [knownType, decide_eq_false_iff_not, not_or] using h

section

variable {T : Type} {item : Nat → T → Except Fault (SfaErr × T × Nat)} {n off off' : Nat}
  {tbl tbl' : T} {P : Prop}

theorem returns_modItems_ok (h : Gives (item off tbl) P (.ok, tbl', off')) :
    Returns (modItems item (n + 1) off tbl) ↔ P ∧ Returns (modItems item n off' tbl') := by
  rw [modItems]
  exact h.returns_bind

theorem returns_modItems_error (h : Gives (item off tbl) P (.error, tbl', off')) :
    Returns (modItems item (n + 1) off tbl) ↔ P := by
  rw [modItems]
  exact h.returns_bind.trans (and_iff_left ⟨_, rfl⟩)

end

/-! ### `sfa_msg_st_mod` -/

/-- What an item of a known type does to the table. -/
def stEffect (type status : BitVec 32) (key : Key) (st : Entries hash StMatchEntry.data) :
    Entries hash StMatchEntry.data :=
  if type = entryAdd then
    match st.first key with
    | some _ => st
    | none => st.insert ⟨key, status⟩
  else
    match st.first key with
    | none => st
    | some _ =>
      if type = entryUpdate then
        st.write key (StMatchEntry.setStatus status) (StMatchEntry.setStatus_data status)
      else st.remove key

section

variable {status : BitVec 32} {key : Key} {st : Entries hash StMatchEntry.data}

theorem stEffect_add : stEffect entryAdd status key st =
    match st.first key with
    | some _ => st
    | none => st.insert ⟨key, status⟩ := by
  rw [stEffect, if_pos rfl]

theorem stEffect_update : stEffect entryUpdate status key st =
    match st.first key with
    | none => st
    | some _ =>
      st.write key (StMatchEntry.setStatus status) (StMatchEntry.setStatus_data status) := by
  rw [stEffect, if_neg entryUpdate_ne_entryAdd, if_pos rfl]

theorem stEffect_del : stEffect entryDel status key st =
    match st.first key with
    | none => st
    | some _ => st.remove key := by
  rw [stEffect, if_neg entryDel_ne_entryAdd, if_neg entryDel_ne_entryUpdate]

end

/-- The key of the item at an offset. -/
def stItemKey (msg : List Byte) (off : Nat) : Key :=
  keyAt msg (off + 12) (netWordAt msg (off + 8))

def stItemEnd (msg : List Byte) (off : Nat) : Nat := off + 12 + (netWordAt msg (off + 8)).toNat

section

variable {msg : List Byte}

/-- The key of an item is read behind its type, its status and its length. -/
theorem stKey_gives {α : Type} (hmsg : msg.length < 65536) {off : Nat}
    {f : BitVec 32 → Key → Except Fault α} {v : α}
    (hf : f (netWordAt msg (off + 8)) (stItemKey msg off) = .ok v) :
    Gives (do
      let len ← net32 msg (off + 8)
      let data ← copyKey msg (off + 12) len (len + 1)
      f len data) (stItemEnd msg off ≤ msg.length) v := by
  refine Gives.congr (.bind (net32_gives msg (off + 8)) (.bind (copyKey_gives hmsg (off + 12) _)
    (Q := True) ?_)) ?_
  · rw [stItemKey] at hf
    rw [hf]
    exact .pure v
  · rw [and_true, stItemEnd]
    omega

theorem stModItem_gives (hmsg : msg.length < 65536) (off : Nat)
    (st : Entries hash StMatchEntry.data) (h : knownType (netWordAt msg off) = true) :
    Gives (stModItem msg off st) (stItemEnd msg off ≤ msg.length)
      (.ok, stEffect (netWordAt msg off) (netWordAt msg (off + 4)) (stItemKey msg off) st,
        stItemEnd msg off) := by
  have htype : off + 4 ≤ msg.length ∧ stItemEnd msg off ≤ msg.length ↔
      stItemEnd msg off ≤ msg.length := by
    rw [stItemEnd]
    omega
  have hstatus : off + 4 + 4 ≤ msg.length ∧ stItemEnd msg off ≤ msg.length ↔
      stItemEnd msg off ≤ msg.length := by
    rw [stItemEnd]
    omega
  rw [stModItem]
  refine Gives.congr (.bind (net32_gives msg off) (Q := stItemEnd msg off ≤ msg.length) ?_) htype
  rcases cases_of_known h with h | h | h
  · rw [h, if_pos rfl, stEffect_add]
    refine Gives.congr (.bind (net32_gives msg (off + 4)) (stKey_gives hmsg ?_)) hstatus
    cases st.first (stItemKey msg off) <;> rfl
  · rw [h, if_neg entryUpdate_ne_entryAdd, if_pos rfl, stEffect_update]
    refine Gives.congr (.bind (net32_gives msg (off + 4)) (stKey_gives hmsg ?_)) hstatus
    cases st.first (stItemKey msg off) <;> rfl
  · rw [h, if_neg entryDel_ne_entryAdd, if_neg entryDel_ne_entryUpdate, if_pos rfl, stEffect_del]
    refine stKey_gives hmsg ?_
    cases st.first (stItemKey msg off) <;> rfl

theorem stModItem_gives_error (off : Nat) (st : Entries hash StMatchEntry.data)
    (h : knownType (netWordAt msg off) = false) :
    Gives (stModItem msg off st) (off + 4 ≤ msg.length) (.error, st, off) := by
  obtain ⟨hadd, hupdate, hdel⟩ := ne_of_unknown h
  rw [stModItem]
  refine Gives.congr (.bind (net32_gives msg off) (Q := True) ?_) (and_iff_left trivial)
  rw [if_neg hadd, if_neg hupdate, if_neg hdel]
  exact .pure _

end

/-- The items up to the first of another type lie inside the message. -/
def StModInside (msg : List Byte) : Nat → Nat → Prop
  | 0, _ => True
  | n + 1, off => off + 4 ≤ msg.length ∧ (knownType (netWordAt msg off) = true →
    stItemEnd msg off ≤ msg.length ∧ StModInside msg n (stItemEnd msg off))

theorem returns_stModItems {msg : List Byte} (hmsg : msg.length < 65536) (n off : Nat)
    (st : Entries hash StMatchEntry.data) :
    Returns (modItems (stModItem msg) n off st) ↔ StModInside msg n off := by
  induction n generalizing off st with
  | zero => exact ⟨fun _ => trivial, fun _ => ⟨_, rfl⟩⟩
  | succ n ih =>
    rw [StModInside]
    cases hknown : knownType (netWordAt msg off) with
    | false =>
      rw [returns_modItems_error (stModItem_gives_error off st hknown)]
      simp
    | true =>
      rw [returns_modItems_ok (stModItem_gives hmsg off st hknown), ih]
      constructor
      · rintro ⟨hitem, hrest⟩
        refine ⟨?_, fun _ => ⟨hitem, hrest⟩⟩
        rw [stItemEnd] at hitem
        omega
      · rintro ⟨-, hrest⟩
        exact hrest rfl

/-! ### `sfa_msg_at_mod` -/

/-- The number of entries with each hash. -/
def Entries.held {α : Type} {data : α → Key} (t : Entries hash data) (h : BitVec 32) : Nat :=
  (chain t.map h).length

section

variable {α : Type} {data : α → Key}

theorem Entries.held_insert (t : Entries hash data) (e : α) :
    (t.insert e).held = Function.update t.held (hash (data e)) (t.held (hash (data e)) + 1) := by
  funext h
  have hchain := chain_insert t.map (hash (data e)) e h
  rw [Entries.held, Entries.insert, hchain, apply_ite List.length, List.length_reverse, ite_self]
  by_cases hh : h = hash (data e)
  · subst hh
    simp [Entries.held]
  · simp [Entries.held, hh]

theorem Entries.held_write (t : Entries hash data) (key : Key) (f : α → α)
    (hf : ∀ e, data (f e) = data e) : (t.write key f hf).held = t.held := by
  funext h
  have hchain := chain_writeFirst t.map (hash key) f h
  rw [Entries.held, Entries.write, hchain, Entries.held]
  split
  · exact List.length_modifyHead
  · rfl

theorem Entries.held_remove (t : Entries hash data) (key : Key) :
    (t.remove key).held = Function.update t.held (hash key) (t.held (hash key) - 1) := by
  funext h
  have hchain := chain_remove t.map (hash key) h
  rw [Entries.held, Entries.remove, hchain]
  by_cases hh : h = hash key
  · subst hh
    simp [Entries.held]
  · simp [Entries.held, hh]

theorem Entries.first_eq_none_iff {t : Entries hash data} {key : Key} :
    t.first key = none ↔ t.held (hash key) = 0 := by
  rw [Entries.first_eq_head, List.head?_eq_none_iff]
  exact List.length_eq_zero_iff.symm

theorem Entries.isSome_first (t : Entries hash data) (key : Key) :
    (t.first key).isSome = decide (t.held (hash key) ≠ 0) := by
  cases hfirst : t.first key with
  | none => simp [Entries.first_eq_none_iff.mp hfirst]
  | some e =>
    have hne : ¬ t.held (hash key) = 0 := fun hzero => by
      rw [Entries.first_eq_none_iff.mpr hzero] at hfirst
      cases hfirst
    simp [hne]

end

/-- What an item of a known type does to the table. -/
def atEffect (type status : BitVec 32) (act : SfaAction) (key : Key)
    (tbl : Entries hash AtMatchEntry.data) : Entries hash AtMatchEntry.data :=
  if type = entryAdd then tbl.insert ⟨key, status, act⟩
  else
    match tbl.first key with
    | none => tbl
    | some _ =>
      if type = entryUpdate then
        tbl.write key (AtMatchEntry.setAction status act) (AtMatchEntry.setAction_data status act)
      else tbl.remove key

section

variable {status : BitVec 32} {act : SfaAction} {key : Key}
  {tbl : Entries hash AtMatchEntry.data}

theorem atEffect_add : atEffect entryAdd status act key tbl = tbl.insert ⟨key, status, act⟩ := by
  rw [atEffect, if_pos rfl]

theorem atEffect_update : atEffect entryUpdate status act key tbl =
    match tbl.first key with
    | none => tbl
    | some _ =>
      tbl.write key (AtMatchEntry.setAction status act) (AtMatchEntry.setAction_data status act) := by
  rw [atEffect, if_neg entryUpdate_ne_entryAdd, if_pos rfl]

theorem atEffect_del : atEffect entryDel status act key tbl =
    match tbl.first key with
    | none => tbl
    | some _ => tbl.remove key := by
  rw [atEffect, if_neg entryDel_ne_entryAdd, if_neg entryDel_ne_entryUpdate]

end

def atItemKey (msg : List Byte) (off : Nat) : Key :=
  keyAt msg (off + 20) (netWordAt msg (off + 16))

def atItemEnd (msg : List Byte) (off : Nat) : Nat := off + 20 + (netWordAt msg (off + 16)).toNat

def atItemAct (msg : List Byte) (off : Nat) : SfaAction :=
  ⟨netWordAt msg (off + 4), netWordAt msg (off + 8)⟩

/-- Where the next round starts. A deletion that finds an entry is made again. -/
def atItemNext (msg : List Byte) (off : Nat) (found : Bool) : Nat :=
  if wordAt msg off = entryDel ∧ found then off else atItemEnd msg off

section

variable {msg : List Byte}

theorem atKey_gives {α : Type} (hmsg : msg.length < 65536) {off : Nat}
    {f : BitVec 32 → Key → Except Fault α} {P : Prop} {v : α}
    (hf : Gives (f (netWordAt msg (off + 16)) (atItemKey msg off)) P v)
    (hp : atItemEnd msg off ≤ msg.length → P) :
    Gives (do
      let len ← net32 msg (off + 16)
      let data ← copyKey msg (off + 20) len (len + 1)
      f len data) (atItemEnd msg off ≤ msg.length) v := by
  refine Gives.congr (.bind (net32_gives msg (off + 16))
    (.bind (copyKey_gives hmsg (off + 20) _) hf)) ?_
  rw [atItemEnd] at hp ⊢
  constructor
  · rintro ⟨-, hend, -⟩
    exact hend
  · intro hend
    exact ⟨by omega, hend, hp hend⟩

theorem atModItem_gives (hmsg : msg.length < 65536) (off : Nat)
    (tbl : Entries hash AtMatchEntry.data) (h : knownType (wordAt msg off) = true) :
    Gives (atModItem msg off tbl) (atItemEnd msg off ≤ msg.length)
      (.ok, atEffect (wordAt msg off) (netWordAt msg (off + 12)) (atItemAct msg off)
        (atItemKey msg off) tbl, atItemNext msg off (tbl.first (atItemKey msg off)).isSome) := by
  have htype : off + 4 ≤ msg.length ∧ atItemEnd msg off ≤ msg.length ↔
      atItemEnd msg off ≤ msg.length := by
    rw [atItemEnd]
    omega
  have hstatus : off + 12 + 4 ≤ msg.length ∧ atItemEnd msg off ≤ msg.length ↔
      atItemEnd msg off ≤ msg.length := by
    rw [atItemEnd]
    omega
  have hact : atItemEnd msg off ≤ msg.length →
      off + 4 + 4 ≤ msg.length ∧ off + 8 + 4 ≤ msg.length := by
    rw [atItemEnd]
    omega
  rw [atModItem]
  refine Gives.congr (.bind (load32_gives msg off) (Q := atItemEnd msg off ≤ msg.length) ?_) htype
  rcases cases_of_known h with h | h | h
  · rw [atItemNext, h, if_pos rfl, if_neg (fun hc => entryDel_ne_entryAdd hc.1.symm), atEffect_add]
    refine Gives.congr (.bind (net32_gives msg (off + 12)) (atKey_gives hmsg
      (.bind (net32_gives msg (off + 4)) (.bind (net32_gives msg (off + 8)) (.pure _))) ?_)) hstatus
    intro hend
    exact ⟨(hact hend).1, (hact hend).2, trivial⟩
  · rw [atItemNext, h, if_neg entryUpdate_ne_entryAdd, if_pos rfl,
      if_neg (fun hc => entryDel_ne_entryUpdate hc.1.symm), atEffect_update]
    cases hfirst : tbl.first (atItemKey msg off) with
    | none =>
      refine Gives.congr (.bind (net32_gives msg (off + 12)) (atKey_gives hmsg ?_ fun _ => trivial))
        hstatus
      rw [hfirst]
      exact .pure _
    | some e =>
      refine Gives.congr (.bind (net32_gives msg (off + 12)) (atKey_gives hmsg
        (P := off + 8 + 4 ≤ msg.length ∧ off + 4 + 4 ≤ msg.length ∧ True) ?_ ?_)) hstatus
      · rw [hfirst]
        exact .bind (net32_gives msg (off + 8)) (.bind (net32_gives msg (off + 4)) (.pure _))
      · intro hend
        exact ⟨(hact hend).2, (hact hend).1, trivial⟩
  · rw [atItemNext, h, if_neg entryDel_ne_entryAdd, if_neg entryDel_ne_entryUpdate, if_pos rfl,
      atEffect_del]
    refine atKey_gives hmsg (P := True) ?_ fun _ => trivial
    cases hfirst : tbl.first (atItemKey msg off) with
    | none => exact .pure _
    | some e => exact .pure _

theorem atModItem_gives_error (off : Nat) (tbl : Entries hash AtMatchEntry.data)
    (h : knownType (wordAt msg off) = false) :
    Gives (atModItem msg off tbl) (off + 4 ≤ msg.length) (.error, tbl, off) := by
  obtain ⟨hadd, hupdate, hdel⟩ := ne_of_unknown h
  rw [atModItem]
  refine Gives.congr (.bind (load32_gives msg off) (Q := True) ?_) (and_iff_left trivial)
  rw [if_neg hadd, if_neg hupdate, if_neg hdel]
  exact .pure _

end

/-- What an item does to the number of entries with each hash. -/
def heldAfter (type : BitVec 32) (h : BitVec 32) (held : BitVec 32 → Nat) : BitVec 32 → Nat :=
  if type = entryAdd then Function.update held h (held h + 1)
  else if type = entryDel then Function.update held h (held h - 1)
  else held

section

variable {h : BitVec 32} {held : BitVec 32 → Nat}

theorem heldAfter_add : heldAfter entryAdd h held = Function.update held h (held h + 1) := by
  rw [heldAfter, if_pos rfl]

theorem heldAfter_update : heldAfter entryUpdate h held = held := by
  rw [heldAfter, if_neg entryUpdate_ne_entryAdd, if_neg entryDel_ne_entryUpdate.symm]

theorem heldAfter_del : heldAfter entryDel h held = Function.update held h (held h - 1) := by
  rw [heldAfter, if_neg entryDel_ne_entryAdd, if_pos rfl]

end

theorem held_atEffect {type : BitVec 32} (hknown : knownType type = true) (status : BitVec 32)
    (act : SfaAction) (key : Key) (tbl : Entries hash AtMatchEntry.data) :
    (atEffect type status act key tbl).held = heldAfter type (hash key) tbl.held := by
  rcases cases_of_known hknown with rfl | rfl | rfl
  · rw [atEffect_add, heldAfter_add]
    exact Entries.held_insert tbl _
  · rw [atEffect_update, heldAfter_update]
    split
    · rfl
    · exact Entries.held_write ..
  · rw [atEffect_del, heldAfter_del]
    split
    case h_1 hfirst =>
      have hzero := Entries.first_eq_none_iff.mp hfirst
      rw [hzero, Nat.zero_sub, ← hzero, Function.update_eq_self]
    case h_2 => exact Entries.held_remove ..

/-- The items that the rounds get to lie inside the message. A deletion is made again
as long as there are entries with the hash of its key. -/
def AtModInside (hash : Key → BitVec 32) (msg : List Byte) :
    Nat → Nat → (BitVec 32 → Nat) → Prop
  | 0, _, _ => True
  | n + 1, off, held => off + 4 ≤ msg.length ∧ (knownType (wordAt msg off) = true →
    atItemEnd msg off ≤ msg.length ∧
      AtModInside hash msg n (atItemNext msg off (held (hash (atItemKey msg off)) ≠ 0))
        (heldAfter (wordAt msg off) (hash (atItemKey msg off)) held))

theorem returns_atModItems {msg : List Byte} (hmsg : msg.length < 65536) (n off : Nat)
    (tbl : Entries hash AtMatchEntry.data) :
    Returns (modItems (atModItem msg) n off tbl) ↔ AtModInside hash msg n off tbl.held := by
  induction n generalizing off tbl with
  | zero => exact ⟨fun _ => trivial, fun _ => ⟨_, rfl⟩⟩
  | succ n ih =>
    rw [AtModInside]
    cases hknown : knownType (wordAt msg off) with
    | false =>
      rw [returns_modItems_error (atModItem_gives_error off tbl hknown)]
      simp
    | true =>
      rw [returns_modItems_ok (atModItem_gives hmsg off tbl hknown), ih, held_atEffect hknown,
        Entries.isSome_first]
      constructor
      · rintro ⟨hitem, hrest⟩
        refine ⟨?_, fun _ => ⟨hitem, hrest⟩⟩
        rw [atItemEnd] at hitem
        omega
      · rintro ⟨-, hrest⟩
        exact hrest rfl

/-! ## The handlers -/

/-- A modification is refused at once, or its items are gone through. -/
theorem sfaMsgStMod_cases {msg : List Byte} {g : GApps hash} {r : SfaErr × GApps hash × Nat}
    (h : sfaMsgStMod msg g = .ok r) : r = (.error, g, 8) ∨
      ∃ app err st cursor, g.find (netWordAt msg 8) = some app ∧
        modItems (stModItem msg) (intRounds (netWordAt msg 12)) 16 app.pst.stEntrys =
          .ok (err, st, cursor) ∧
        r = (err, g.modify (netWordAt msg 8) (ControllApp.setSt st) (ControllApp.setSt_appid st),
          cursor) := by
  rw [sfaMsgStMod] at h
  obtain ⟨-, h⟩ := (net32_gives msg 8).bind_eq_ok.mp h
  split at h
  · exact .inl (Except.ok.inj h).symm
  cases hfind : g.find (netWordAt msg 8) with
  | none =>
    rw [hfind] at h
    exact .inl (Except.ok.inj h).symm
  | some app =>
    rw [hfind] at h
    obtain ⟨-, h⟩ := (net32_gives msg 12).bind_eq_ok.mp h
    obtain ⟨⟨err, st, cursor⟩, hrun, h⟩ := bind_eq_ok.mp h
    exact .inr ⟨app, err, st, cursor, rfl, hrun, (Except.ok.inj h).symm⟩

theorem sfaMsgAtMod_cases {msg : List Byte} {g : GApps hash} {r : SfaErr × GApps hash × Nat}
    (h : sfaMsgAtMod msg g = .ok r) : r = (.error, g, 8) ∨
      ∃ app err tbl cursor, g.find (netWordAt msg 8) = some app ∧
        modItems (atModItem msg) (netWordAt msg 12).toNat 16 app.pat.atEntrys =
          .ok (err, tbl, cursor) ∧
        r = (err, g.modify (netWordAt msg 8) (ControllApp.setAt tbl) (ControllApp.setAt_appid tbl),
          cursor) := by
  rw [sfaMsgAtMod] at h
  obtain ⟨-, h⟩ := (net32_gives msg 8).bind_eq_ok.mp h
  split at h
  · exact .inl (Except.ok.inj h).symm
  cases hfind : g.find (netWordAt msg 8) with
  | none =>
    rw [hfind] at h
    exact .inl (Except.ok.inj h).symm
  | some app =>
    rw [hfind] at h
    obtain ⟨-, h⟩ := (net32_gives msg 12).bind_eq_ok.mp h
    obtain ⟨⟨err, tbl, cursor⟩, hrun, h⟩ := bind_eq_ok.mp h
    exact .inr ⟨app, err, tbl, cursor, rfl, hrun, (Except.ok.inj h).symm⟩

theorem returns_sfaMsgStMod {msg : List Byte} (hmsg : msg.length < 65536) (g : GApps hash) :
    Returns (sfaMsgStMod msg g) ↔ 12 ≤ msg.length ∧ ((g.find (netWordAt msg 8)).isSome = true →
      16 ≤ msg.length ∧ StModInside msg (intRounds (netWordAt msg 12)) 16) := by
  rw [sfaMsgStMod, (net32_gives msg 8).returns_bind]
  refine and_congr_right fun _ => ?_
  cases hfind : g.find (netWordAt msg 8) with
  | none =>
    refine ⟨fun _ => nofun, fun _ => ?_⟩
    split <;> exact ⟨_, rfl⟩
  | some app =>
    rw [if_neg (by rw [GApps.find_isSome_islistinit hfind]; decide)]
    show Returns (net32 msg 12 >>= fun count =>
      modItems (stModItem msg) (intRounds count) 16 app.pst.stEntrys >>= _) ↔ _
    rw [(net32_gives msg 12).returns_bind, returns_bind_of_forall ?_, returns_stModItems hmsg]
    · exact ⟨fun h _ => h, fun h => h rfl⟩
    · exact fun _ => ⟨_, rfl⟩

theorem returns_sfaMsgAtMod {msg : List Byte} (hmsg : msg.length < 65536) (g : GApps hash) :
    Returns (sfaMsgAtMod msg g) ↔ 12 ≤ msg.length ∧ ∀ app, g.find (netWordAt msg 8) = some app →
      16 ≤ msg.length ∧
        AtModInside hash msg (netWordAt msg 12).toNat 16 app.pat.atEntrys.held := by
  rw [sfaMsgAtMod, (net32_gives msg 8).returns_bind]
  refine and_congr_right fun _ => ?_
  cases hfind : g.find (netWordAt msg 8) with
  | none =>
    refine ⟨fun _ => nofun, fun _ => ?_⟩
    split <;> exact ⟨_, rfl⟩
  | some app =>
    rw [if_neg (by rw [GApps.find_isSome_islistinit hfind]; decide)]
    show Returns (net32 msg 12 >>= fun count =>
      modItems (atModItem msg) count.toNat 16 app.pat.atEntrys >>= _) ↔ _
    rw [(net32_gives msg 12).returns_bind, returns_bind_of_forall ?_, returns_atModItems hmsg]
    · constructor
      · rintro h _ ⟨⟩
        exact h
      · intro h
        exact h app rfl
    · exact fun _ => ⟨_, rfl⟩

/-- `oh->length`. -/
def ohLength (msg : List Byte) : BitVec 16 := bswap 2 (leWord 2 ((msg.drop 2).take 2))

/-- A message for the handlers, as it comes from the connection. -/
structure SfaMessage where
  bytes : List Byte
  length_eq : (ohLength bytes).toNat = bytes.length
  header : 8 ≤ bytes.length
  sfaType : bytes[1]? = some ofptypeSfaTableCreate ∨ bytes[1]? = some ofptypeSfaStEntryMod ∨
    bytes[1]? = some ofptypeSfaAtEntryMod

/-- All that the handler is led to lies inside the message: the fixed fields, and for an
app that is new, or in a modification one that is known, the items. -/
def SfaMessage.Inside (m : SfaMessage) (g : GApps hash) : Prop :=
  12 ≤ m.bytes.length ∧
    (m.bytes[1]? = some ofptypeSfaTableCreate → g.find (netWordAt m.bytes 8) = none →
      InitInside m.bytes) ∧
    (m.bytes[1]? = some ofptypeSfaStEntryMod → (g.find (netWordAt m.bytes 8)).isSome = true →
      16 ≤ m.bytes.length ∧ StModInside m.bytes (intRounds (netWordAt m.bytes 12)) 16) ∧
    (m.bytes[1]? = some ofptypeSfaAtEntryMod → ∀ app, g.find (netWordAt m.bytes 8) = some app →
      16 ≤ m.bytes.length ∧
        AtModInside hash m.bytes (netWordAt m.bytes 12).toNat 16 app.pat.atEntrys.held)

/-- A handler reads and stores inside exactly if the message is laid out so. -/
theorem handled_iff_inside (m : SfaMessage) (g : GApps hash) :
    Returns (sfaHandlePkt m.bytes g) ↔ m.Inside g := by
  have hmsg : m.bytes.length < 65536 := by
    rw [← m.length_eq]
    exact (ohLength m.bytes).isLt
  have hst : ofptypeSfaStEntryMod ≠ ofptypeSfaTableCreate := by decide
  have htbl : ofptypeSfaAtEntryMod ≠ ofptypeSfaTableCreate := by decide
  have htbl' : ofptypeSfaAtEntryMod ≠ ofptypeSfaStEntryMod := by decide
  rw [sfaHandlePkt, SfaMessage.Inside]
  rcases m.sfaType with htype | htype | htype
  · rw [htype]
    simp only [if_true, Option.some.injEq, hst.symm, htbl.symm, false_implies, and_true,
      forall_const, returns_map]
    exact returns_sfaMsgInit hmsg g
  · rw [htype]
    simp only [if_true, if_false, Option.some.injEq, hst, htbl'.symm, false_implies, and_true,
      true_and, forall_const, returns_map]
    exact returns_sfaMsgStMod hmsg g
  · rw [htype]
    simp only [if_true, if_false, Option.some.injEq, htbl, htbl', false_implies, true_and,
      forall_const, returns_map]
    exact returns_sfaMsgAtMod hmsg g

/-! ## Messages that are not laid out so -/

/-- A modification that ends with its header. -/
def bareHeader : SfaMessage where
  bytes := [4, 91, 0, 8, 0, 0, 0, 0]
  length_eq := by decide
  header := by decide
  sfaType := .inr (.inl rfl)

/-- A create message for app 1 with a single entry in the action table, whose key is empty. -/
def emptyKey : SfaMessage where
  bytes := [4, 90, 0, 56, 0, 0, 0, 0] ++ ([0, 0, 0, 1] ++ List.replicate 8 0 ++ [0, 0, 0, 0]) ++
    [0, 0, 0, 0] ++ (List.replicate 8 0 ++ [0, 0, 0, 1]) ++ List.replicate 16 0
  length_eq := by decide
  header := by decide
  sfaType := .inl rfl

theorem handlers_go_outside :
    sfaHandlePkt bareHeader.bytes (GApps.start : GApps hashString) = .error .readOutside ∧
      sfaHandlePkt emptyKey.bytes (GApps.start : GApps hashString) = .error .storeOutside := by
  constructor
  · rfl
  · rfl

end Sdpa.Switch
