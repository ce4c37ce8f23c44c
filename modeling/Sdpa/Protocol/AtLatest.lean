import Sdpa.Lib.Histories
import Sdpa.Protocol.AtMod

/-!
# The latest action for a state

An addition to the action table leaves older entries of its key and state in
place, behind it. An expansion of the hash map turns the order of each chain
around, and with it the choice between them.
-/
namespace Sdpa.Protocol

open Sdpa.Lib.Histories
open Sdpa.Controller
open Sdpa.Switch

variable {hash : Key → BitVec 32} {K : Set Key} {t : Entries hash AtMatchEntry.data}

/-- The action table after the additions, which `sfa_msg_at_mod` makes one by one. -/
def atAdds (t : Entries hash AtMatchEntry.data) (ds : List ATDATA) :
    Entries hash AtMatchEntry.data :=
  ds.foldl (fun t d => t.insert (atEntryOf d)) t

/-- A message of additions enters them one after another. -/
theorem sfaMsgAtMod_atAdds {g : GApps hash} {app : ControllApp hash} {aid : BitVec 32}
    (hfind : g.find aid = some app) (header : OFMessage) {ds : List ATDATA} (hds : ds ≠ [])
    (hn : ∀ d ∈ ds, 0 ∉ d.buffer)
    (hlen : (SFAAtMod.writeTo (.ofCalls header aid (ds.map (.add, ·)))).length < 65536) :
    sfaMsgAtMod (SFAAtMod.writeTo (.ofCalls header aid (ds.map (.add, ·)))) g =
      .ok (.ok, g.modify aid (ControllApp.setAt (atAdds app.pat.atEntrys ds))
        (ControllApp.setAt_appid _),
        (SFAAtMod.writeTo (.ofCalls header aid (ds.map (.add, ·)))).length) := by
  have hadds : (ds.map (SFAModType.add, ·)).foldl (fun t call => t.insert (atEntryOf call.2))
      app.pat.atEntrys = atAdds app.pat.atEntrys ds := List.foldl_map
  rw [← hadds]
  refine sfaMsgAtMod_adds hfind header (by simpa using hds) ?_ ?_ hlen
  · intro call hcall
    obtain ⟨d, -, rfl⟩ := List.mem_map.mp hcall
    rfl
  · intro call hcall
    obtain ⟨d, hd, rfl⟩ := List.mem_map.mp hcall
    exact hn d hd

/-- The first of the entries that has a state. -/
def entryIn (l : List AtMatchEntry) (status : BitVec 32) : Option AtMatchEntry :=
  l.find? fun e => e.lastStatus == status

/-- The entry that the lookup of `xlate_fp` uses. -/
def atEntry (t : Entries hash AtMatchEntry.data) (key : Key) (status : BitVec 32) :
    Option AtMatchEntry :=
  entryIn (t.withHash key) status

theorem atLookup_eq_atEntry (t : Entries hash AtMatchEntry.data) (key : Key)
    (status : BitVec 32) : atLookup t key status = (atEntry t key status).map AtMatchEntry.act := rfl

/-- The entry of the most recent addition for a key and a state. -/
def latest (ds : List ATDATA) (key : Key) (status : BitVec 32) : Option AtMatchEntry :=
  (ds.reverse.find? fun d => d.buffer = key ∧ d.status = status).map atEntryOf

/-- Wherever there has been an addition, the lookup uses the entry of the most recent one. -/
def InForce (K : Set Key) (t : Entries hash AtMatchEntry.data) (ds : List ATDATA) : Prop :=
  ∀ key ∈ K, ∀ status e, latest ds key status = some e →
    atEntry (atAdds t ds) key status = some e

/-- The first and the last of the entries with a state are the same. -/
def SameAtEnds (l : List AtMatchEntry) (status : BitVec 32) : Prop :=
  entryIn l.reverse status = entryIn l status

instance (l : List AtMatchEntry) (status : BitVec 32) : Decidable (SameAtEnds l status) :=
  inferInstanceAs (Decidable (_ = _))

theorem latest_concat (ds : List ATDATA) (d : ATDATA) (key : Key) (status : BitVec 32) :
    latest (ds ++ [d]) key status =
      if d.buffer = key ∧ d.status = status then some (atEntryOf d) else latest ds key status := by
  rw [latest, List.reverse_concat, List.find?_cons]
  split
  · rename_i h
    rw [if_pos (of_decide_eq_true h)]
    rfl
  · rename_i h
    rw [if_neg (of_decide_eq_false h)]
    rfl

theorem atEntry_insert (t : Entries hash AtMatchEntry.data) (e : AtMatchEntry) (key : Key)
    (status : BitVec 32) :
    atEntry (t.insert e) key status =
      if expands t.map then entryIn (withNewest t e key).reverse status
      else entryIn (withNewest t e key) status := by
  rw [atEntry, Entries.withHash_insert]
  split <;> rfl

/-- With the new entry in front, the first one is that of the latest addition. -/
theorem entryIn_withNewest {ds : List ATDATA} {d : ATDATA} (hinj : Set.InjOn hash K)
    (hd : d.buffer ∈ K) (h : InForce K t ds) {key : Key} (hkey : key ∈ K) {status : BitVec 32}
    {e : AtMatchEntry} (hlatest : latest (ds ++ [d]) key status = some e) :
    entryIn (withNewest (atAdds t ds) (atEntryOf d) key) status = some e := by
  rw [latest_concat] at hlatest
  by_cases hk : d.buffer = key
  · subst hk
    have hnewest : withNewest (atAdds t ds) (atEntryOf d) d.buffer =
        atEntryOf d :: (atAdds t ds).withHash d.buffer := if_pos rfl
    rw [hnewest, entryIn]
    by_cases hs : d.status = status
    · subst hs
      rw [if_pos ⟨rfl, rfl⟩] at hlatest
      rw [← hlatest]
      simp [atEntryOf]
    · rw [if_neg fun hboth => hs hboth.2] at hlatest
      rw [List.find?_cons_of_neg (by simpa [atEntryOf] using hs)]
      exact h d.buffer hkey status e hlatest
  · rw [if_neg fun hboth => hk hboth.1] at hlatest
    have hnewest : withNewest (atAdds t ds) (atEntryOf d) key = (atAdds t ds).withHash key :=
      if_neg fun heq => hk (hinj hkey hd heq).symm
    rw [hnewest]
    exact h key hkey status e hlatest

/-- An addition keeps the latest entries in force exactly if its expansion, if any, does not
change them. -/
theorem inForce_concat_iff {ds : List ATDATA} {d : ATDATA} (hinj : Set.InjOn hash K)
    (hd : d.buffer ∈ K) (h : InForce K t ds) :
    InForce K t (ds ++ [d]) ↔
      (expands (atAdds t ds).map = true → ∀ key ∈ K, ∀ status,
        latest (ds ++ [d]) key status ≠ none →
          SameAtEnds (withNewest (atAdds t ds) (atEntryOf d) key) status) := by
  have hadds : atAdds t (ds ++ [d]) = (atAdds t ds).insert (atEntryOf d) := List.foldl_concat ..
  constructor
  · intro hforce hexpands key hkey status hsome
    obtain ⟨e, he⟩ := Option.ne_none_iff_exists'.mp hsome
    have hnow := hforce key hkey status e he
    rw [hadds, atEntry_insert, if_pos hexpands] at hnow
    rw [SameAtEnds, hnow, entryIn_withNewest hinj hd h hkey he]
  · intro hends key hkey status e he
    have hnew := entryIn_withNewest hinj hd h hkey he
    rw [hadds, atEntry_insert]
    split
    · rename_i hexpands
      rw [hends hexpands key hkey status (by rw [he]; simp), hnew]
    · exact hnew

/-- The latest entries are in force after every addition if and only if no expansion meets a key
and state with an addition whose oldest and newest entry differ. -/
theorem inForce_iff {ds : List ATDATA} (hinj : Set.InjOn hash K) (hkeys : ∀ d ∈ ds, d.buffer ∈ K) :
    (∀ before after, ds = before ++ after → InForce K t before) ↔
      AtEach (fun before d => expands (atAdds t before).map = true → ∀ key ∈ K, ∀ status,
        latest (before ++ [d]) key status ≠ none →
          SameAtEnds (withNewest (atAdds t before) (atEntryOf d) key) status) ds := by
  refine stages_iff_atEach ?_ ?_
  · intro key _ status e he
    cases he
  · intro before d after hsplit h
    have hd : d ∈ ds := hsplit ▸ List.mem_append_right before List.mem_cons_self
    exact inForce_concat_iff hinj (hkeys d hd) h

/-- Two states of one key, in an empty table. The second addition expands the map. -/
theorem inForce_two_states :
    Set.InjOn hashString {[0x31]} ∧
    ∀ before after, [ATDATA.new 1 [0x31] ⟨.drop, 0⟩, ATDATA.new 2 [0x31] ⟨.output, 7⟩] =
      before ++ after →
      InForce {[0x31]} (Entries.init : Entries hashString AtMatchEntry.data) before := by
  have hinj : Set.InjOn hashString {[0x31]} := Set.injOn_singleton hashString [0x31]
  refine ⟨hinj, (inForce_iff hinj (by decide)).mpr ?_⟩
  intro before d after hsplit hexpands key hkey status hsome
  obtain rfl : key = [0x31] := hkey
  rcases before with _ | ⟨a, _ | ⟨b, rest⟩⟩
  · exact absurd hexpands (by decide)
  · simp only [List.cons_append, List.nil_append, List.cons.injEq] at hsplit
    obtain ⟨rfl, rfl, -⟩ := hsplit
    by_cases h1 : status = 1
    · subst h1
      decide
    by_cases h2 : status = 2
    · subst h2
      decide
    · refine absurd ?_ hsome
      simpa [latest, ATDATA.new] using ⟨Ne.symm h2, Ne.symm h1⟩
  · have hlen := congrArg List.length hsplit
    simp at hlen

/-- The second of two additions for one key and state makes the map expand, and the action of the
first one stays in force. -/
theorem second_action_ignored :
    Set.InjOn hashString {[0x31]} ∧
    ¬ InForce {[0x31]} (Entries.init : Entries hashString AtMatchEntry.data)
      [ATDATA.new 1 [0x31] ⟨.drop, 0⟩, ATDATA.new 1 [0x31] ⟨.output, 7⟩] := by
  refine ⟨Set.injOn_singleton hashString [0x31], fun hforce => ?_⟩
  have hnow := hforce [0x31] rfl 1 ⟨[0x31], 1, sfaActionOf ⟨.output, 7⟩⟩ rfl
  revert hnow
  decide

end Sdpa.Protocol
