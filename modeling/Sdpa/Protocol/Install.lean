import Sdpa.Controller.Apps
import Sdpa.Protocol.AtMod
import Sdpa.Protocol.FlowKey
import Sdpa.Switch.HandlePkt
import Sdpa.Switch.Isolation

/-!
# Apps that the controller sets up

An application of the controller creates its app with empty tables and then adds
entries for one connection after another. What the switch makes of these messages
does not depend on the hash: additions to the state table skip a key whose hash is
taken, additions to the action table are never skipped.
-/
namespace Sdpa.Protocol

open Sdpa.Lib.Endian
open Sdpa.Lib.Decimal
open Sdpa.Controller
open Sdpa.Switch

variable {hash : Key → BitVec 32}

/-! ## Delivery -/

/-- The apps after a message has reached the switch. -/
def deliver (bytes : List Byte) (g : GApps hash) : Except Fault (GApps hash) :=
  (sfaHandlePkt bytes g).map Prod.snd

/-- A message that cannot be written is not sent. -/
def deliverCreate (m : SFACreate) (g : GApps hash) : Except Fault (GApps hash) :=
  match m.writeTo with
  | .error _ => .ok g
  | .ok bytes => deliver bytes g

def deliverMods (m : SFAStMod × SFAAtMod) (g : GApps hash) : Except Fault (GApps hash) := do
  let g ← deliver (SFAStMod.writeTo m.1) g
  deliver (SFAAtMod.writeTo m.2) g

theorem deliver_of_stMod {bytes : List Byte} {g g' : GApps hash} {err : SfaErr} {c : Nat}
    (htype : bytes[1]? = some 91) (h : sfaMsgStMod bytes g = .ok (err, g', c)) :
    deliver bytes g = .ok g' := by
  have hne : ¬ (91 : Byte) = ofptypeSfaTableCreate := by decide
  simp only [deliver, sfaHandlePkt, htype, if_neg hne, ofptypeSfaStEntryMod, if_true, h]
  rfl

theorem deliver_of_atMod {bytes : List Byte} {g g' : GApps hash} {err : SfaErr} {c : Nat}
    (htype : bytes[1]? = some 92) (h : sfaMsgAtMod bytes g = .ok (err, g', c)) :
    deliver bytes g = .ok g' := by
  have hne : ¬ (92 : Byte) = ofptypeSfaTableCreate := by decide
  have hne' : ¬ (92 : Byte) = ofptypeSfaStEntryMod := by decide
  simp only [deliver, sfaHandlePkt, htype, if_neg hne, if_neg hne', ofptypeSfaAtEntryMod, if_true, h]
  rfl

/-- The tables of an app after additions. -/
def withAdded (st : List (SFAModType × STDATA)) (tbl : List (SFAModType × ATDATA))
    (app : ControllApp hash) : ControllApp hash :=
  (app.setSt (st.foldl applyStItem app.pst.stEntrys)).setAt
    (tbl.foldl (fun t call => t.insert (atEntryOf call.2)) app.pat.atEntrys)

theorem deliverMods_eq {g : GApps hash} {app : ControllApp hash} {aid : BitVec 32}
    (hfind : g.find aid = some app) (st : List (SFAModType × STDATA))
    (tbl : List (SFAModType × ATDATA)) (hst : st ≠ []) (htbl : tbl ≠ [])
    (hadd : ∀ call ∈ tbl, call.1 = .add)
    (hstKeys : ∀ call ∈ st, 0 ∉ call.2.buffer) (htblKeys : ∀ call ∈ tbl, 0 ∉ call.2.buffer)
    (hstLen : (SFAStMod.writeTo (.ofCalls {} aid st)).length < 65536)
    (htblLen : (SFAAtMod.writeTo (.ofCalls {} aid tbl)).length < 65536) :
    ∃ g', deliverMods (.ofCalls {} aid st, .ofCalls {} aid tbl) g = .ok g' ∧
      g'.find aid = some (withAdded st tbl app) ∧
      ∀ id, id ≠ aid → g'.find id = g.find id := by
  have hrun := sfaMsgStMod_written hfind {} st (.inl hst) hstKeys hstLen
  have hfind' : (g.modify aid (ControllApp.setSt (st.foldl applyStItem app.pst.stEntrys))
      (ControllApp.setSt_appid _)).find aid =
        some (app.setSt (st.foldl applyStItem app.pst.stEntrys)) := by
    rw [GApps.find_modify, if_pos rfl, hfind]
    rfl
  have hrun' := sfaMsgAtMod_adds hfind' {} htbl hadd htblKeys htblLen
  rw [deliverMods, deliver_of_stMod rfl hrun]
  refine ⟨_, deliver_of_atMod rfl hrun', ?_, ?_⟩
  · rw [GApps.find_modify, if_pos rfl, hfind']
    rfl
  · intro id hid
    rw [GApps.find_modify, if_neg hid, GApps.find_modify, if_neg hid]

/-! ## State tables with one entry a hash -/

section

variable {t : Entries hash StMatchEntry.data}

theorem withHash_of_mem (hd : DistinctHashes t) {e : StMatchEntry} (he : e ∈ t.entries) :
    t.withHash e.data = [e] := by
  have hlen := (distinctHashes_iff t).mp hd e he
  have hmem : e ∈ t.withHash e.data := Entries.mem_withHash.mpr ⟨he, rfl⟩
  cases hl : t.withHash e.data with
  | nil =>
    rw [hl] at hmem
    exact (List.not_mem_nil hmem).elim
  | cons x l =>
    rw [hl, List.length_cons] at hlen
    obtain rfl : l = [] := List.length_eq_zero_iff.mp (by omega)
    rw [hl] at hmem
    rw [List.mem_singleton.mp hmem]

theorem first_of_mem (hd : DistinctHashes t) {e : StMatchEntry} (he : e ∈ t.entries) :
    t.first e.data = some e := by
  rw [Entries.first_eq_head, withHash_of_mem hd he]
  rfl

theorem mem_of_first {key : Key} {e : StMatchEntry} (h : t.first key = some e) :
    e ∈ t.entries ∧ hash e.data = hash key := by
  rw [Entries.first_eq_head] at h
  exact Entries.mem_withHash.mp (List.mem_of_mem_head? h)

theorem eq_of_hash_eq (hd : DistinctHashes t) {x e : StMatchEntry} (hx : x ∈ t.entries)
    (he : e ∈ t.entries) (h : hash x.data = hash e.data) : x = e := by
  have hmem : x ∈ t.withHash e.data := Entries.mem_withHash.mpr ⟨hx, h⟩
  rw [withHash_of_mem hd he] at hmem
  exact List.mem_singleton.mp hmem

theorem stMap_eq_some_iff (hd : DistinctHashes t) {key : Key} {status : BitVec 32} :
    stMap t key = some status ↔ ⟨key, status⟩ ∈ t.entries := by
  constructor
  · intro h
    obtain ⟨e, he, rfl⟩ := Option.map_eq_some_iff.mp h
    have hbeq := List.find?_some he
    have hkey : e.data = key := eq_of_beq hbeq
    rw [← hkey]
    exact List.mem_of_find?_eq_some he
  · intro h
    rw [stMap_eq_withHash, withHash_of_mem hd h]
    simp

theorem mem_add {d : STDATA} {x : StMatchEntry} :
    x ∈ (applyStItem t (.add, d)).entries ↔
      x ∈ t.entries ∨ (t.first d.buffer = none ∧ x = stEntryOf d) := by
  rw [applyStItem]
  cases h : t.first d.buffer with
  | some e => simp
  | none => simp [Entries.mem_entries_insert, or_comm]

theorem distinct_add (hd : DistinctHashes t) (d : STDATA) :
    DistinctHashes (applyStItem t (.add, d)) := by
  rw [applyStItem]
  cases h : t.first d.buffer with
  | some e => exact hd
  | none =>
    have hperm : ((t.insert (stEntryOf d)).entries.map (fun e => hash e.data)).Perm
        (hash d.buffer :: t.entries.map (fun e => hash e.data)) :=
      (Multiset.coe_eq_coe.mp (Entries.entries_insert t (stEntryOf d))).map _
    change ((t.insert (stEntryOf d)).entries.map (fun e => hash e.data)).Nodup
    rw [hperm.nodup_iff, List.nodup_cons]
    refine ⟨fun hmem => ?_, hd⟩
    obtain ⟨e, he, hhash⟩ := List.mem_map.mp hmem
    have hwith : e ∈ t.withHash d.buffer := Entries.mem_withHash.mpr ⟨he, hhash⟩
    rw [Entries.first_eq_head, List.head?_eq_none_iff] at h
    rw [h] at hwith
    exact List.not_mem_nil hwith

theorem first_congr (t : Entries hash StMatchEntry.data) {k k' : Key} (h : hash k = hash k') :
    t.first k = t.first k' :=
  congrArg (hmapFirstWithHash t.map) h

theorem first_eq_some_iff (hd : DistinctHashes t) {key : Key} {e : StMatchEntry} :
    t.first key = some e ↔ e ∈ t.entries ∧ hash e.data = hash key := by
  refine ⟨mem_of_first, fun ⟨he, hhash⟩ => ?_⟩
  rw [first_congr t hhash.symm]
  exact first_of_mem hd he

@[simp] theorem first_init (key : Key) :
    (Entries.init : Entries hash StMatchEntry.data).first key = none := by
  rw [Entries.first_eq_head, Entries.withHash_eq_filter, Entries.entries_init]
  rfl

theorem distinct_init : DistinctHashes (Entries.init : Entries hash StMatchEntry.data) := by
  rw [DistinctHashes, Entries.entries_init]
  exact List.nodup_nil

/-- An addition is seen by keys that find nothing else. -/
theorem first_add (hd : DistinctHashes t) (d : STDATA) (key : Key) :
    (applyStItem t (.add, d)).first key =
      (t.first key).or (if hash d.buffer = hash key then some (stEntryOf d) else none) := by
  ext e
  rw [first_eq_some_iff (distinct_add hd d), mem_add, Option.or_eq_some_iff,
    first_eq_some_iff hd]
  constructor
  · rintro ⟨hold | ⟨hnone, rfl⟩, hhash⟩
    · exact .inl ⟨hold, hhash⟩
    · have hkey : hash d.buffer = hash key := hhash
      rw [← first_congr t hkey, if_pos hkey]
      exact .inr ⟨hnone, rfl⟩
  · rintro (⟨hold, hhash⟩ | ⟨hnone, hnew⟩)
    · exact ⟨.inl hold, hhash⟩
    · split at hnew
      case isTrue hkey =>
        obtain rfl := Option.some.inj hnew
        rw [← first_congr t hkey] at hnone
        exact ⟨.inr ⟨hnone, rfl⟩, hkey⟩
      case isFalse => cases hnew

theorem first_write (t : Entries hash StMatchEntry.data) (k key : Key) (status : BitVec 32) :
    (t.write k (StMatchEntry.setStatus status) (StMatchEntry.setStatus_data status)).first key =
      if hash key = hash k then (t.first key).map (StMatchEntry.setStatus status)
      else t.first key := by
  rw [Entries.first_eq_head, Entries.first_eq_head, Entries.withHash_write]
  split
  · exact List.head?_modifyHead ..
  · rfl

theorem mem_write (hd : DistinctHashes t) {k : Key} {e : StMatchEntry} (h : t.first k = some e)
    (status : BitVec 32) {x : StMatchEntry} :
    x ∈ (t.write k (StMatchEntry.setStatus status) (StMatchEntry.setStatus_data status)).entries ↔
      (x ∈ t.entries ∧ x ≠ e) ∨ x = e.setStatus status := by
  obtain ⟨he, hhash⟩ := mem_of_first h
  have hchain : t.withHash k = [e] := by
    rw [← withHash_of_mem hd he]
    exact congrArg (chain t.map) hhash.symm
  have hself : ∀ y : StMatchEntry, y ∈ (t.write k (StMatchEntry.setStatus status)
      (StMatchEntry.setStatus_data status)).entries ↔ y ∈ (t.write k (StMatchEntry.setStatus status)
        (StMatchEntry.setStatus_data status)).withHash y.data :=
    fun y => ⟨fun hy => Entries.mem_withHash.mpr ⟨hy, rfl⟩, fun hy => (Entries.mem_withHash.mp hy).1⟩
  rw [hself, Entries.withHash_write]
  by_cases hx : hash x.data = hash k
  · have hchain' : t.withHash x.data = [e] := by
      rw [← hchain]
      exact congrArg (chain t.map) hx
    rw [if_pos hx, hchain', List.modifyHead_cons, List.mem_singleton]
    refine ⟨.inr, ?_⟩
    rintro (⟨hmem, hne⟩ | heq)
    · exact absurd (eq_of_hash_eq hd hmem he (hx.trans hhash.symm)) hne
    · exact heq
  · rw [if_neg hx]
    have hne : x ≠ e := by
      rintro rfl
      exact hx hhash
    have hne' : x ≠ e.setStatus status := by
      rintro rfl
      exact hx hhash
    constructor
    · intro hmem
      exact .inl ⟨(Entries.mem_withHash.mp hmem).1, hne⟩
    · rintro (⟨hmem, -⟩ | heq)
      · exact Entries.mem_withHash.mpr ⟨hmem, rfl⟩
      · exact absurd heq hne'

theorem distinct_write (hd : DistinctHashes t) (k : Key) (status : BitVec 32) :
    DistinctHashes (t.write k (StMatchEntry.setStatus status)
      (StMatchEntry.setStatus_data status)) := by
  rw [distinctHashes_iff]
  intro e he
  obtain ⟨old, hold, hdata⟩ := Entries.mem_entries_write he
  have hlen := (distinctHashes_iff t).mp hd old hold
  rw [hdata] at hlen
  rw [Entries.withHash_write]
  split
  · rw [List.length_modifyHead]
    exact hlen
  · exact hlen

end

/-! ## Action tables that only grow -/

theorem mem_foldl_insert {calls : List (SFAModType × ATDATA)} {t : Entries hash AtMatchEntry.data}
    {x : AtMatchEntry} :
    x ∈ (calls.foldl (fun t call => t.insert (atEntryOf call.2)) t).entries ↔
      x ∈ t.entries ∨ ∃ call ∈ calls, x = atEntryOf call.2 := by
  induction calls generalizing t with
  | nil => simp
  | cons call calls ih =>
    rw [List.foldl_cons, ih, Entries.mem_entries_insert]
    simp only [List.mem_cons, exists_eq_or_imp]
    exact ⟨fun h => by tauto, fun h => by tauto⟩

/-- If the state of an entry determines its action, a lookup depends on no order. -/
theorem atLookup_of_mem {t : Entries hash AtMatchEntry.data} {actionOf : BitVec 32 → SfaAction}
    (hact : ∀ e ∈ t.entries, e.act = actionOf e.lastStatus) {a : AtMatchEntry} (ha : a ∈ t.entries)
    {key : Key} (hkey : hash a.data = hash key) :
    atLookup t key a.lastStatus = some (actionOf a.lastStatus) := by
  have hmem : a ∈ t.withHash key := Entries.mem_withHash.mpr ⟨ha, hkey⟩
  rw [atLookup]
  cases hfind : (t.withHash key).find? (fun e => e.lastStatus == a.lastStatus) with
  | none =>
    exact absurd (beq_self_eq_true a.lastStatus) (List.find?_eq_none.mp hfind a hmem)
  | some e =>
    have hbeq := List.find?_some hfind
    have hstatus : e.lastStatus = a.lastStatus := eq_of_beq hbeq
    have he := (Entries.mem_withHash.mp (List.mem_of_find?_eq_some hfind)).1
    rw [Option.map_some, hact e he, hstatus]

/-! ## Keys of addresses -/

/-- The text of two addresses, as both applications and the switch print them. -/
def addressKey (src dst : BitVec 32) : Key := fromIPv4Address src ++ fromIPv4Address dst

theorem decimal_byte_length (b : Byte) : (decimal b.toNat).length ≤ 3 := by
  rw [decimal]
  split
  · decide
  · have hb : b.toNat < 10 ^ 3 := by
      have := b.isLt
      omega
    simpa using (Nat.digits_length_le_iff (by omega : 1 < 10) b.toNat).mpr hb

theorem dotted_length (l : List Byte) : (dotted l).length ≤ 4 * l.length := by
  induction l with
  | nil => exact Nat.le_refl 0
  | cons b l ih =>
    have hb := decimal_byte_length b
    cases l with
    | nil =>
      rw [dotted, List.length_singleton]
      omega
    | cons c l =>
      rw [dotted, List.length_append, List.length_cons, List.length_cons]
      rw [List.length_cons] at ih ⊢
      omega

theorem zero_not_mem_dotted (l : List Byte) : 0 ∉ dotted l := by
  have hzero : ¬ IsDigit 0 := fun h => absurd h.1 (by decide)
  induction l with
  | nil => exact List.not_mem_nil
  | cons b l ih =>
    cases l with
    | nil => exact not_mem_decimal hzero
    | cons c l =>
      rw [dotted, List.mem_append, List.mem_cons, not_or, not_or]
      exact ⟨not_mem_decimal hzero, by decide, ih⟩

theorem addressKey_length (src dst : BitVec 32) : (addressKey src dst).length ≤ 32 := by
  have hs := dotted_length (beBytes 4 src.toNat)
  have hd := dotted_length (beBytes 4 dst.toNat)
  rw [beBytes_length] at hs hd
  rw [addressKey, List.length_append, fromIPv4Address, fromIPv4Address]
  omega

theorem zero_not_mem_addressKey (src dst : BitVec 32) : 0 ∉ addressKey src dst := by
  rw [addressKey, List.mem_append, not_or]
  exact ⟨zero_not_mem_dotted _, zero_not_mem_dotted _⟩

theorem length_items_le {Entry : Type} {write : Entry → List Byte} {n : Nat}
    {items : List (SFAModType × Entry)} (h : ∀ item ∈ items, (write item.2).length ≤ n) :
    (items.flatMap (ModMessage.writeItem write)).length ≤ items.length * (n + 4) := by
  induction items with
  | nil => exact Nat.zero_le _
  | cons item items ih =>
    have hitem := h item List.mem_cons_self
    have hrest := ih fun x hx => h x (List.mem_cons_of_mem item hx)
    rw [List.flatMap_cons, List.length_append, ModMessage.writeItem, List.length_append,
      putInt_length, List.length_cons, Nat.succ_mul]
    omega

theorem length_mod_le {Entry : Type} {type : BitVec 8} {byteLength : Entry → BitVec 16}
    {write : Entry → List Byte} {n : Nat} {m : ModMessage Entry}
    (h : ∀ item ∈ m.datas, (write item.2).length ≤ n) :
    (m.writeTo type byteLength write).length ≤ 16 + m.datas.length * (n + 4) := by
  have hitems := length_items_le h
  rw [ModMessage.writeTo, List.length_append, List.length_append, List.length_append,
    OFMessage.writeTo_length, putInt_length, putInt_length]
  omega

theorem length_stMod_le {aid : BitVec 32} {calls : List (SFAModType × STDATA)}
    (h : ∀ call ∈ calls, call.2.buffer.length ≤ 32) :
    (SFAStMod.writeTo (.ofCalls {} aid calls)).length ≤ 16 + calls.length * 44 := by
  rw [← SFAStMod.ofCalls_datas {} aid calls] at h
  conv_rhs => rw [← SFAStMod.ofCalls_datas {} aid calls]
  refine length_mod_le (n := 40) fun call hcall => ?_
  have hkey := h call hcall
  rw [STDATA.writeTo, List.length_append, List.length_append, putInt_length, putInt_length]
  omega

theorem length_atMod_le {aid : BitVec 32} {calls : List (SFAModType × ATDATA)}
    (h : ∀ call ∈ calls, call.2.buffer.length ≤ 32) :
    (SFAAtMod.writeTo (.ofCalls {} aid calls)).length ≤ 16 + calls.length * 52 := by
  rw [← SFAAtMod.ofCalls_datas {} aid calls] at h
  conv_rhs => rw [← SFAAtMod.ofCalls_datas {} aid calls]
  refine length_mod_le (n := 48) fun call hcall => ?_
  have hkey := h call hcall
  rw [ATDATA.writeTo, SFAAction.writeTo, List.length_append, List.length_append,
    List.length_append, List.length_append, putInt_length, putInt_length, putInt_length,
    putInt_length]
  omega

/-- Additions for the two directions between hosts. -/
theorem deliverMods_addresses {a b : BitVec 32} {g : GApps hash} {app : ControllApp hash}
    {aid : BitVec 32} (hfind : g.find aid = some app) {st : List (SFAModType × STDATA)}
    {tbl : List (SFAModType × ATDATA)} (hst : st ≠ []) (htbl : tbl ≠ [])
    (hadd : ∀ call ∈ tbl, call.1 = .add)
    (hstKeys : ∀ call ∈ st, call.2.buffer = addressKey a b ∨ call.2.buffer = addressKey b a)
    (htblKeys : ∀ call ∈ tbl, call.2.buffer = addressKey a b ∨ call.2.buffer = addressKey b a)
    (hstLen : st.length ≤ 8) (htblLen : tbl.length ≤ 8) :
    ∃ g', deliverMods (.ofCalls {} aid st, .ofCalls {} aid tbl) g = .ok g' ∧
      g'.find aid = some (withAdded st tbl app) := by
  have hzero : ∀ key, key = addressKey a b ∨ key = addressKey b a → 0 ∉ key := by
    rintro key (rfl | rfl) <;> exact zero_not_mem_addressKey _ _
  have hlen : ∀ key, key = addressKey a b ∨ key = addressKey b a → key.length ≤ 32 := by
    rintro key (rfl | rfl) <;> exact addressKey_length _ _
  have hstBytes : (SFAStMod.writeTo (.ofCalls {} aid st)).length ≤ 16 + st.length * 44 :=
    length_stMod_le fun call hcall => hlen _ (hstKeys call hcall)
  have htblBytes : (SFAAtMod.writeTo (.ofCalls {} aid tbl)).length ≤ 16 + tbl.length * 52 :=
    length_atMod_le fun call hcall => hlen _ (htblKeys call hcall)
  obtain ⟨g', hrun, hfind', -⟩ := deliverMods_eq hfind st tbl hst htbl hadd
    (fun call hcall => hzero _ (hstKeys call hcall))
    (fun call hcall => hzero _ (htblKeys call hcall)) (by omega) (by omega)
  exact ⟨g', hrun, hfind'⟩

end Sdpa.Protocol
