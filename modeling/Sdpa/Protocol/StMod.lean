import Sdpa.Protocol.Create

/-!
# State-table modification as a finite map

The handler of `SFAStMod` finds entries by hash, skips what it does not find and
expands the hash map on the way. Seen from outside it is a fold over a partial
map from keys to states. The link is `Abstracts`: over the keys in play, the
chain of a key's hash is empty or holds the one entry of that key. A chain of at
most one entry is its own reverse, so expansion is invisible.
-/
namespace Sdpa.Protocol

open Sdpa.Lib.Endian
open Sdpa.Controller
open Sdpa.Switch

variable {hash : Key → BitVec 32}

/-! ## The abstract map -/

abbrev StMap := Key → Option (BitVec 32)

def StMap.addIfAbsent (m : StMap) (key : Key) (status : BitVec 32) : StMap :=
  if m key = none then Function.update m key (some status) else m

def StMap.updateIfPresent (m : StMap) (key : Key) (status : BitVec 32) : StMap :=
  if m key = none then m else Function.update m key (some status)

def StMap.deleteIfPresent (m : StMap) (key : Key) : StMap :=
  if m key = none then m else Function.update m key none

def StMap.apply (m : StMap) (item : SFAModType × STDATA) : StMap :=
  match item.1 with
  | .add => m.addIfAbsent item.2.buffer item.2.status
  | .update => m.updateIfPresent item.2.buffer item.2.status
  | .del => m.deleteIfPresent item.2.buffer

/-- The state table as a map from keys, whatever the hash. -/
def stMap (t : Entries hash StMatchEntry.data) : StMap := fun key =>
  (t.entries.find? (fun e => e.data == key)).map StMatchEntry.lastStatus

/-- The key hashes of the table are pairwise distinct. -/
def DistinctHashes (t : Entries hash StMatchEntry.data) : Prop :=
  (t.entries.map (fun e => hash e.data)).Nodup

/-! ## What one item does to the table -/

def applyStItem (t : Entries hash StMatchEntry.data) (item : SFAModType × STDATA) :
    Entries hash StMatchEntry.data :=
  match item.1, t.first item.2.buffer with
  | .add, some _ => t
  | .add, none => t.insert (stEntryOf item.2)
  | .update, none => t
  | .update, some _ =>
    t.write item.2.buffer (StMatchEntry.setStatus item.2.status)
      (StMatchEntry.setStatus_data item.2.status)
  | .del, none => t
  | .del, some _ => t.remove item.2.buffer

theorem stModItem_written {msg rest : List Byte} {off : Nat} {type : SFAModType} {d : STDATA}
    (hmsg : msg.length < 65536) (hn : 0 ∉ d.buffer) (t : Entries hash StMatchEntry.data)
    (h : Remaining msg off (ModMessage.writeItem STDATA.writeTo (type, d) ++ rest)) :
    stModItem msg off t = .ok (.ok, applyStItem t (type, d), off + 12 + d.lenOfBuf.toNat) ∧
      Remaining msg (off + 12 + d.lenOfBuf.toNat) rest := by
  rw [ModMessage.writeItem, List.append_assoc] at h
  have htype := net32_putInt h
  obtain ⟨hstatus, hlen, hdata, hnext⟩ := readStData hmsg hn (remaining_int h)
  have hlen8 : net32 msg (off + 8) = .ok d.lenOfBuf := hlen
  have hdata12 : copyKey msg (off + 12) d.lenOfBuf (d.lenOfBuf + 1) = .ok d.buffer := hdata
  refine ⟨?_, hnext⟩
  unfold stModItem applyStItem
  cases type with
  | add =>
    simp only [htype, hstatus, hlen8, hdata12, bind, Except.bind, SFAModType.getValue, entryAdd]
    cases t.first d.buffer <;> rfl
  | update =>
    simp only [htype, hstatus, hlen8, hdata12, bind, Except.bind, SFAModType.getValue, entryAdd,
      entryUpdate]
    cases t.first d.buffer <;> rfl
  | del =>
    simp only [htype, hlen8, hdata12, bind, Except.bind, SFAModType.getValue, entryAdd,
      entryUpdate, entryDel]
    cases t.first d.buffer <;> rfl

/-! ## Tables that stand for a map -/

theorem stMap_eq_withHash (t : Entries hash StMatchEntry.data) (key : Key) :
    stMap t key =
      ((t.withHash key).find? (fun e => e.data == key)).map StMatchEntry.lastStatus := by
  rw [stMap, Entries.withHash_eq_filter, List.find?_filter]
  congr 2
  funext e
  by_cases he : e.data = key
  · simp [he]
  · simp [he]

/-- A chain is as long as its hash is frequent. -/
theorem distinctHashes_iff (t : Entries hash StMatchEntry.data) :
    DistinctHashes t ↔ ∀ e ∈ t.entries, (t.withHash e.data).length ≤ 1 := by
  have hcount : ∀ key, (t.withHash key).length =
      (t.entries.map (fun e => hash e.data)).count (hash key) := by
    intro key
    rw [Entries.withHash_eq_filter, ← List.countP_eq_length_filter, List.count, List.countP_map]
    rfl
  rw [DistinctHashes, List.nodup_iff_count_le_one]
  constructor
  · intro h e _
    rw [hcount]
    exact h (hash e.data)
  · intro h a
    by_cases ha : a ∈ t.entries.map (fun e => hash e.data)
    · obtain ⟨e, he, rfl⟩ := List.mem_map.mp ha
      rw [← hcount]
      exact h e he
    · rw [List.count_eq_zero_of_not_mem ha]
      omega

/-- Over the keys `K` the table is the map, with one entry a key. -/
structure Abstracts (K : Set Key) (t : Entries hash StMatchEntry.data) (m : StMap) : Prop where
  keys : ∀ e ∈ t.entries, e.data ∈ K
  support : ∀ key, key ∉ K → m key = none
  chains : ∀ key ∈ K, t.withHash key = ((m key).map (StMatchEntry.mk key)).toList

theorem abstracts_stMap {K : Set Key} (hinj : Set.InjOn hash K)
    {t : Entries hash StMatchEntry.data} (hk : ∀ e ∈ t.entries, e.data ∈ K)
    (hd : DistinctHashes t) : Abstracts K t (stMap t) := by
  refine ⟨hk, ?_, ?_⟩
  · intro key hkey
    rw [stMap, Option.map_eq_none_iff, List.find?_eq_none]
    intro e he heq
    rw [← eq_of_beq heq] at hkey
    exact hkey (hk e he)
  · intro key hkey
    rw [stMap_eq_withHash]
    cases hc : t.withHash key with
    | nil => rfl
    | cons e l =>
      have hmem : e ∈ t.withHash key := by
        rw [hc]
        exact List.mem_cons_self
      obtain ⟨he, hhash⟩ := Entries.mem_withHash.mp hmem
      have hdata : e.data = key := hinj (hk e he) hkey hhash
      have hlen := (distinctHashes_iff t).mp hd e he
      rw [hdata, hc, List.length_cons] at hlen
      have hl : l = [] := List.length_eq_zero_iff.mp (by omega)
      subst hl hdata
      simp

theorem Abstracts.stMap_eq {K : Set Key} {t : Entries hash StMatchEntry.data} {m : StMap}
    (h : Abstracts K t m) : stMap t = m := by
  funext key
  by_cases hkey : key ∈ K
  · rw [stMap_eq_withHash, h.chains key hkey]
    cases m key with
    | none => rfl
    | some s => simp
  · rw [h.support key hkey, stMap, Option.map_eq_none_iff, List.find?_eq_none]
    intro e he heq
    rw [← eq_of_beq heq] at hkey
    exact hkey (h.keys e he)

theorem Abstracts.distinct {K : Set Key} {t : Entries hash StMatchEntry.data} {m : StMap}
    (h : Abstracts K t m) : DistinctHashes t := by
  rw [distinctHashes_iff]
  intro e he
  rw [h.chains e.data (h.keys e he)]
  cases m e.data <;> simp

/-! ## One item, and a message of them -/

private theorem reverse_option_toList {α : Type} (o : Option α) : o.toList.reverse = o.toList := by
  cases o <;> rfl

section

variable {K : Set Key} {t : Entries hash StMatchEntry.data} {m : StMap}

theorem Abstracts.first_eq (h : Abstracts K t m) {key : Key} (hkey : key ∈ K) :
    t.first key = (m key).map (StMatchEntry.mk key) := by
  rw [Entries.first_eq_head, h.chains key hkey]
  cases m key <;> rfl

theorem Abstracts.insert (hinj : Set.InjOn hash K) (h : Abstracts K t m) {e : StMatchEntry}
    (he : e.data ∈ K) (hnew : m e.data = none) :
    Abstracts K (t.insert e) (Function.update m e.data (some e.lastStatus)) := by
  refine ⟨?_, ?_, ?_⟩
  · intro x hx
    rcases Entries.mem_entries_insert.mp hx with rfl | hold
    · exact he
    · exact h.keys x hold
  · intro key hkey
    rw [Function.update_of_ne (ne_of_mem_of_not_mem he hkey).symm]
    exact h.support key hkey
  · intro key hkey
    -- both branches of the insertion leave a chain of at most one entry
    have hchain : (if hash key = hash e.data then e :: t.withHash key else t.withHash key) =
        ((Function.update m e.data (some e.lastStatus) key).map (StMatchEntry.mk key)).toList := by
      by_cases heq : key = e.data
      · subst heq
        rw [if_pos rfl, h.chains _ he, hnew, Function.update_self]
        rfl
      · rw [if_neg (fun hh => heq (hinj hkey he hh)), Function.update_of_ne heq, h.chains key hkey]
    rw [Entries.withHash_insert, hchain, reverse_option_toList, ite_self]

theorem Abstracts.write (hinj : Set.InjOn hash K) (h : Abstracts K t m) {key : Key}
    (hkey : key ∈ K) {old status : BitVec 32} (hold : m key = some old) :
    Abstracts K (t.write key (StMatchEntry.setStatus status) (StMatchEntry.setStatus_data status))
      (Function.update m key (some status)) := by
  refine ⟨?_, ?_, ?_⟩
  · intro x hx
    obtain ⟨y, hy, hdata⟩ := Entries.mem_entries_write hx
    rw [← hdata]
    exact h.keys y hy
  · intro k hk
    rw [Function.update_of_ne (ne_of_mem_of_not_mem hkey hk).symm]
    exact h.support k hk
  · intro k hk
    rw [Entries.withHash_write]
    by_cases heq : k = key
    · subst heq
      rw [if_pos rfl, h.chains k hk, hold, Function.update_self]
      rfl
    · rw [if_neg (fun hh => heq (hinj hk hkey hh)), Function.update_of_ne heq, h.chains k hk]

theorem Abstracts.remove (hinj : Set.InjOn hash K) (h : Abstracts K t m) {key : Key}
    (hkey : key ∈ K) : Abstracts K (t.remove key) (Function.update m key none) := by
  refine ⟨fun x hx => h.keys x (Entries.mem_entries_remove hx), ?_, ?_⟩
  · intro k hk
    rw [Function.update_of_ne (ne_of_mem_of_not_mem hkey hk).symm]
    exact h.support k hk
  · intro k hk
    rw [Entries.withHash_remove]
    by_cases heq : k = key
    · subst heq
      rw [if_pos rfl, h.chains k hk, Function.update_self]
      cases m k <;> rfl
    · rw [if_neg (fun hh => heq (hinj hk hkey hh)), Function.update_of_ne heq, h.chains k hk]

/-- One item of the handler is one operation on the map. -/
theorem Abstracts.applyStItem (hinj : Set.InjOn hash K) (h : Abstracts K t m)
    {item : SFAModType × STDATA} (hkey : item.2.buffer ∈ K) :
    Abstracts K (applyStItem t item) (m.apply item) := by
  obtain ⟨type, d⟩ := item
  have hfirst := h.first_eq hkey
  cases hm : m d.buffer with
  | none =>
    rw [hm, Option.map_none] at hfirst
    cases type with
    | add =>
      simp only [Protocol.applyStItem, hfirst, StMap.apply, StMap.addIfAbsent, hm, if_pos]
      exact h.insert hinj (e := stEntryOf d) hkey hm
    | update =>
      simpa only [Protocol.applyStItem, hfirst, StMap.apply, StMap.updateIfPresent, hm, if_pos]
        using h
    | del =>
      simpa only [Protocol.applyStItem, hfirst, StMap.apply, StMap.deleteIfPresent, hm, if_pos]
        using h
  | some old =>
    rw [hm, Option.map_some] at hfirst
    have hne : ¬ (some old = none) := by simp
    cases type with
    | add =>
      simpa only [Protocol.applyStItem, hfirst, StMap.apply, StMap.addIfAbsent, hm, if_neg hne]
        using h
    | update =>
      simpa only [Protocol.applyStItem, hfirst, StMap.apply, StMap.updateIfPresent, hm,
        if_neg hne] using h.write hinj hkey hm
    | del =>
      simpa only [Protocol.applyStItem, hfirst, StMap.apply, StMap.deleteIfPresent, hm,
        if_neg hne] using h.remove hinj hkey

theorem Abstracts.foldl (hinj : Set.InjOn hash K) (h : Abstracts K t m)
    (items : List (SFAModType × STDATA)) (hkeys : ∀ it ∈ items, it.2.buffer ∈ K) :
    Abstracts K (items.foldl Protocol.applyStItem t) (items.foldl StMap.apply m) := by
  induction items generalizing t m with
  | nil => exact h
  | cons it items ih =>
    exact ih (h.applyStItem hinj (hkeys it List.mem_cons_self))
      (fun x hx => hkeys x (List.mem_cons_of_mem it hx))

end

/-! ## The handler -/

/-- The handler, from what its loads and its loop return. -/
theorem sfaMsgStMod_of_reads {bytes : List Byte} {g : GApps hash} {app : ControllApp hash}
    {aid count : BitVec 32} {err : SfaErr} {st : Entries hash StMatchEntry.data} {c : Nat}
    (haid : net32 bytes 8 = .ok aid) (hfind : g.find aid = some app)
    (hcount : net32 bytes 12 = .ok count)
    (hrun : modItems (stModItem bytes) (intRounds count) 16 app.pst.stEntrys = .ok (err, st, c)) :
    sfaMsgStMod bytes g =
      .ok (err, g.modify aid (ControllApp.setSt st) (ControllApp.setSt_appid st), c) := by
  have hinit := GApps.find_isSome_islistinit hfind
  simp only [sfaMsgStMod, haid, hinit, hfind, hcount, hrun, bind, Except.bind]
  rfl

/-- The handler applies the written calls one after another, whatever the hash. -/
theorem sfaMsgStMod_written {g : GApps hash} {app : ControllApp hash} {aid : BitVec 32}
    (hfind : g.find aid = some app) (header : OFMessage) (calls : List (SFAModType × STDATA))
    (hcalls : calls ≠ [] ∨ aid = 0) (hn : ∀ call ∈ calls, 0 ∉ call.2.buffer)
    (hlen : (SFAStMod.writeTo (.ofCalls header aid calls)).length < 65536) :
    sfaMsgStMod (SFAStMod.writeTo (.ofCalls header aid calls)) g =
      .ok (.ok, g.modify aid (ControllApp.setSt (calls.foldl applyStItem app.pst.stEntrys))
        (ControllApp.setSt_appid _), (SFAStMod.writeTo (.ofCalls header aid calls)).length) := by
  have happid : (SFAStMod.ofCalls header aid calls).appid = aid := by
    rw [SFAStMod.ofCalls_appid]
    by_cases hc : calls = []
    · rw [if_pos hc, hcalls.resolve_left (not_not_intro hc)]
    · rw [if_neg hc]
  generalize hbytes : SFAStMod.writeTo (SFAStMod.ofCalls header aid calls) = bytes at hlen ⊢
  obtain ⟨haid, hcount, hsize, h16⟩ := readModHeader hbytes hlen
  rw [happid] at haid
  rw [SFAStMod.ofCalls_datas] at hcount hsize h16
  obtain ⟨off, hrun, hrest⟩ := modItems_written (stModItem bytes) applyStItem
    (fun call hcall off rest t h => ⟨_, stModItem_written hlen (hn call hcall) t h⟩)
    h16 app.pst.stEntrys
  have hend : off = bytes.length := by simpa using hrest.length_eq
  rw [hend, ← intRounds_ofNat hsize] at hrun
  exact sfaMsgStMod_of_reads haid hfind hcount hrun

/-- A message without calls names app 0, and changes nothing. -/
theorem sfaMsgStMod_nil {g : GApps hash} (hzero : (g.find 0).isSome = true) (header : OFMessage)
    (aid : BitVec 32) : sfaMsgStMod (SFAStMod.writeTo (.ofCalls header aid [])) g =
      .ok (.ok, g, (SFAStMod.writeTo (.ofCalls header aid [])).length) := by
  obtain ⟨zero, hzero⟩ := Option.isSome_iff_exists.mp hzero
  have hsame : g.modify 0 (ControllApp.setSt zero.pst.stEntrys) (ControllApp.setSt_appid _) = g := by
    refine GApps.modify_eq_self fun app hfind => ?_
    obtain rfl := Option.some.inj (hzero.symm.trans hfind)
    rfl
  have hrun := sfaMsgStMod_written hzero header [] (.inr rfl) (by simp) (by
    simp [SFAStMod.writeTo, ModMessage.writeTo, SFAStMod.ofCalls_datas])
  rw [List.foldl_nil, hsame] at hrun
  exact hrun

/-- The keys of a state table and of the calls that modify it. -/
def stModKeys (t : Entries hash StMatchEntry.data) (calls : List (SFAModType × STDATA)) :
    Set Key :=
  {key | (∃ e ∈ t.entries, e.data = key) ∨ ∃ call ∈ calls, call.2.buffer = key}

/-- `sfa_msg_st_mod` on the bytes of `SFAStMod.writeTo` is the left fold of the
calls over the state table seen as a map. -/
theorem sfaMsgStMod_refines (g : GApps hash) {app : ControllApp hash} (happ : app ∈ g.appslist)
    (header : OFMessage) (calls : List (SFAModType × STDATA))
    (hcalls : calls ≠ [] ∨ (g.find 0).isSome = true) (hd : DistinctHashes app.pst.stEntrys)
    (hinj : Set.InjOn hash (stModKeys app.pst.stEntrys calls))
    (hn : ∀ call ∈ calls, 0 ∉ call.2.buffer)
    (hlen : (SFAStMod.writeTo (.ofCalls header app.appid calls)).length < 65536) :
    ∃ g' st, sfaMsgStMod (SFAStMod.writeTo (.ofCalls header app.appid calls)) g =
        .ok (.ok, g', (SFAStMod.writeTo (.ofCalls header app.appid calls)).length) ∧
      g'.find app.appid = some (app.setSt st) ∧
      (∀ id, id ≠ app.appid → g'.find id = g.find id) ∧
      stMap st = calls.foldl StMap.apply (stMap app.pst.stEntrys) ∧ DistinctHashes st := by
  have hfind := GApps.find_of_mem happ
  by_cases hc : calls = []
  · subst hc
    have hresult := sfaMsgStMod_nil (hcalls.resolve_left (not_not_intro rfl)) header app.appid
    exact ⟨g, app.pst.stEntrys, hresult, hfind, fun _ _ => rfl, rfl, hd⟩
  have hresult := sfaMsgStMod_written hfind header calls (.inl hc) hn hlen
  have habs := (abstracts_stMap hinj (fun e he => Or.inl ⟨e, he, rfl⟩) hd).foldl hinj
    calls (fun call hcall => Or.inr ⟨call, hcall, rfl⟩)
  refine ⟨_, _, hresult, ?_, ?_, habs.stMap_eq, habs.distinct⟩
  · rw [GApps.find_modify, if_pos rfl, hfind]
    rfl
  · intro id hid
    rw [GApps.find_modify, if_neg hid]

def sampleApp : ControllApp hashString where
  appid := 1
  pst := ⟨0x18000, Entries.init.insert ⟨[0x31, 0x32], 1⟩⟩
  pstt := []
  pat := ⟨0x18000, Entries.init⟩

def sampleApps : GApps hashString := GApps.start.append sampleApp rfl

def sampleStCalls : List (SFAModType × STDATA) :=
  [(.add, STDATA.new 5 [0x33]), (.update, STDATA.new 7 [0x31, 0x32]), (.del, STDATA.new 0 [0x33])]

theorem sampleStCalls_injOn :
    Set.InjOn hashString (stModKeys sampleApp.pst.stEntrys sampleStCalls) := by
  have hkeys : ∀ key ∈ stModKeys sampleApp.pst.stEntrys sampleStCalls,
      key = [0x33] ∨ key = [0x31, 0x32] := by
    rintro key (⟨e, he, rfl⟩ | ⟨call, hcall, rfl⟩)
    · have hall : ∀ x ∈ sampleApp.pst.stEntrys.entries, x.data = [0x31, 0x32] := by decide
      exact Or.inr (hall e he)
    · have hall : ∀ c ∈ sampleStCalls, c.2.buffer = [0x33] ∨ c.2.buffer = [0x31, 0x32] := by decide
      exact hall call hcall
  have hne : hashString [0x33] ≠ hashString [0x31, 0x32] := by decide
  intro a ha b hb hab
  rcases hkeys a ha with rfl | rfl <;> rcases hkeys b hb with rfl | rfl
  · rfl
  · exact absurd hab hne
  · exact absurd hab.symm hne
  · rfl

/-- One call of each kind: `3` comes and goes, and `12` changes its state. -/
theorem sfaMsgStMod_refines_sample :
    ∃ g' st, sfaMsgStMod (SFAStMod.writeTo (.ofCalls {} 1 sampleStCalls)) sampleApps =
        .ok (.ok, g', 56) ∧
      g'.find 1 = some (sampleApp.setSt st) ∧
      stMap st [0x31, 0x32] = some 7 ∧ stMap st [0x33] = none ∧ DistinctHashes st := by
  obtain ⟨g', st, hrun, hfind, _, hmap, hd⟩ := sfaMsgStMod_refines sampleApps
    (List.mem_singleton.mpr rfl : sampleApp ∈ sampleApps.appslist) {} sampleStCalls
    (Or.inl (by decide)) (by unfold DistinctHashes; decide) sampleStCalls_injOn (by decide)
    (by decide)
  refine ⟨g', st, hrun, hfind, ?_, ?_, hd⟩
  · rw [hmap]
    decide
  · rw [hmap]
    decide

/-- Without a call the message names app 0, which need not exist. -/
theorem sfaMsgStMod_no_calls :
    sampleApp ∈ sampleApps.appslist ∧ DistinctHashes sampleApp.pst.stEntrys ∧
    Set.InjOn hashString (stModKeys sampleApp.pst.stEntrys []) ∧
    (SFAStMod.writeTo (.ofCalls {} sampleApp.appid [])).length < 65536 ∧
    ∃ g' c, sfaMsgStMod (SFAStMod.writeTo (.ofCalls {} sampleApp.appid [])) sampleApps =
      .ok (.error, g', c) := by
  refine ⟨List.mem_singleton.mpr rfl, by unfold DistinctHashes; decide, ?_, by decide, _, _, rfl⟩
  apply sampleStCalls_injOn.mono
  rintro key (hold | ⟨call, hcall, _⟩)
  · exact Or.inl hold
  · cases hcall

end Sdpa.Protocol
