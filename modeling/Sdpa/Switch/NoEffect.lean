import Sdpa.Switch.Bounds

/-!
# Modifications that are refused half way

The loops of `sfa_msg_st_mod` and `sfa_msg_at_mod` change the table item by item and
return an error at the first item of another type. What the items before it have done
stays, while the message goes on to the OpenFlow handlers as one that was not handled.
Nothing has happened only if each of those items left the table as it was.
-/
namespace Sdpa.Switch

open Sdpa.Lib.Endian
open Sdpa.Lib.Fallible

variable {hash : Key → BitVec 32}

/-! ## The items before the one that is refused -/

/-- The type of an item, and the entry that its fields make. -/
abbrev ModItem (α : Type) := BitVec 32 × α

section

variable {α T : Type} (type : Nat → BitVec 32) (entry : Nat → α) (stop : Nat → Nat)

/-- The items from an offset on, up to the first of another type. -/
inductive ItemsBefore : Nat → List (ModItem α) → Prop
  | refused {off : Nat} (htype : knownType (type off) = false) : ItemsBefore off []
  | item {off : Nat} {items : List (ModItem α)} (htype : knownType (type off) = true)
    (hrest : ItemsBefore (stop off) items) : ItemsBefore off ((type off, entry off) :: items)

/-- What the rounds of both loops have in common, where `Idle` says of an item that it
leaves the table as it is. -/
structure Rounds (item : Nat → T → Except Fault (SfaErr × T × Nat))
    (Idle : T → ModItem α → Prop) : Prop where
  refused : ∀ off t r, knownType (type off) = false → item off t = .ok r → r = (.error, t, off)
  known : ∀ off t r, knownType (type off) = true → item off t = .ok r →
    r.1 = .ok ∧ (r.2.2 = off ∨ r.2.2 = stop off)
  idle : ∀ off t r, knownType (type off) = true → Idle t (type off, entry off) →
    item off t = .ok r → r = (.ok, t, stop off)

variable {type entry stop} {item : Nat → T → Except Fault (SfaErr × T × Nat)}
  {Idle : T → ModItem α → Prop} {n off cursor : Nat} {t t' : T} {items : List (ModItem α)}

/-- A loop that returns an error has been led to an item of another type. -/
theorem Rounds.exists_items (hR : Rounds type entry stop item Idle)
    (h : modItems item n off t = .ok (.error, t', cursor)) :
    ∃ items, ItemsBefore type entry stop off items ∧ items.length < n := by
  induction n generalizing off t with
  | zero => cases h
  | succ n ih =>
    cases hknown : knownType (type off) with
    | false => exact ⟨[], .refused hknown, Nat.succ_pos n⟩
    | true =>
      obtain ⟨⟨err, t₁, off₁⟩, hround, hrest⟩ := bind_eq_ok.mp h
      obtain ⟨rfl, hoff⟩ := hR.known off t _ hknown hround
      obtain ⟨items, hitems, hlt⟩ := ih hrest
      -- the round was made again, or the next one is at the item behind
      rcases hoff with rfl | rfl
      · exact ⟨items, hitems, Nat.lt_succ_of_lt hlt⟩
      · exact ⟨_, .item hknown hitems, Nat.succ_lt_succ hlt⟩

theorem Rounds.unchanged (hR : Rounds type entry stop item Idle)
    (hitems : ItemsBefore type entry stop off items) (hidle : ∀ i ∈ items, Idle t i)
    (h : modItems item n off t = .ok (.error, t', cursor)) : t' = t := by
  induction hitems generalizing n with
  | refused hknown =>
    cases n with
    | zero => cases h
    | succ n =>
      obtain ⟨r, hround, hrest⟩ := bind_eq_ok.mp h
      obtain rfl := hR.refused _ t r hknown hround
      cases hrest
      rfl
  | item hknown _ ih =>
    obtain ⟨hi, hrest'⟩ := List.forall_mem_cons.mp hidle
    cases n with
    | zero => cases h
    | succ n =>
      obtain ⟨r, hround, hrest⟩ := bind_eq_ok.mp h
      obtain rfl := hR.idle _ t r hknown hi hround
      exact ih hrest' hrest

end

/-! ### State table -/

def StItems (msg : List Byte) : Nat → List (ModItem StMatchEntry) → Prop :=
  ItemsBefore (netWordAt msg) (fun off => ⟨stItemKey msg off, netWordAt msg (off + 4)⟩)
    (stItemEnd msg)

/-- An addition of a hash that is filed, an update of one that is not or that has the
status, a deletion of one that is not filed. -/
def StIdle (st : Entries hash StMatchEntry.data) (i : ModItem StMatchEntry) : Prop :=
  if i.1 = entryAdd then (st.first i.2.data).isSome = true
  else ∀ e, st.first i.2.data = some e → i.1 = entryUpdate ∧ e.lastStatus = i.2.lastStatus

theorem stEffect_of_idle {st : Entries hash StMatchEntry.data} {i : ModItem StMatchEntry}
    (h : StIdle st i) : stEffect i.1 i.2.lastStatus i.2.data st = st := by
  rw [StIdle] at h
  rw [stEffect]
  cases hfirst : st.first i.2.data with
  | none =>
    rw [hfirst] at h
    split at h
    · cases h
    · rename_i hadd
      rw [if_neg hadd]
  | some e =>
    split at h
    · rename_i hadd
      rw [if_pos hadd]
    · rename_i hadd
      obtain ⟨hupdate, hstatus⟩ := h e hfirst
      rw [if_neg hadd]
      show (if i.1 = entryUpdate then _ else _) = st
      rw [if_pos hupdate]
      apply Entries.write_eq_self
      intro e' he'
      cases hfirst.symm.trans he'
      rw [← hstatus]
      rfl

theorem stRounds {msg : List Byte} (hmsg : msg.length < 65536) :
    Rounds (netWordAt msg) (fun off => ⟨stItemKey msg off, netWordAt msg (off + 4)⟩)
      (stItemEnd msg) (stModItem msg) (@StIdle hash) where
  refused off st _ hknown hround := (stModItem_gives_error off st hknown).eq_of_ok hround
  known off st _ hknown hround := by
    rw [(stModItem_gives hmsg off st hknown).eq_of_ok hround]
    exact ⟨rfl, .inr rfl⟩
  idle off st _ hknown hidle hround := by
    rw [(stModItem_gives hmsg off st hknown).eq_of_ok hround]
    exact congrArg (fun t => (SfaErr.ok, t, stItemEnd msg off)) (stEffect_of_idle hidle)

/-! ### Action table -/

/-- The types are compared as loaded. -/
def AtItems (msg : List Byte) : Nat → List (ModItem AtMatchEntry) → Prop :=
  ItemsBefore (wordAt msg)
    (fun off => ⟨atItemKey msg off, netWordAt msg (off + 12), atItemAct msg off⟩) (atItemEnd msg)

/-- An update of a hash that is not filed or that has the status and the action, a deletion
of one that is not filed. An addition is always made. -/
def AtIdle (tbl : Entries hash AtMatchEntry.data) (i : ModItem AtMatchEntry) : Prop :=
  i.1 ≠ entryAdd ∧ ∀ e, tbl.first i.2.data = some e →
    i.1 = entryUpdate ∧ e.lastStatus = i.2.lastStatus ∧ e.act = i.2.act

theorem atEffect_of_idle {tbl : Entries hash AtMatchEntry.data} {i : ModItem AtMatchEntry}
    (h : AtIdle tbl i) : atEffect i.1 i.2.lastStatus i.2.act i.2.data tbl = tbl := by
  rw [atEffect, if_neg h.1]
  cases hfirst : tbl.first i.2.data with
  | none => rfl
  | some e =>
    obtain ⟨hupdate, hstatus, hact⟩ := h.2 e hfirst
    show (if i.1 = entryUpdate then _ else _) = tbl
    rw [if_pos hupdate]
    apply Entries.write_eq_self
    intro e' he'
    cases hfirst.symm.trans he'
    rw [← hstatus, ← hact]
    rfl

theorem atRounds {msg : List Byte} (hmsg : msg.length < 65536) :
    Rounds (wordAt msg)
      (fun off => ⟨atItemKey msg off, netWordAt msg (off + 12), atItemAct msg off⟩)
      (atItemEnd msg) (atModItem msg) (@AtIdle hash) where
  refused off tbl _ hknown hround := (atModItem_gives_error off tbl hknown).eq_of_ok hround
  known off tbl _ hknown hround := by
    rw [(atModItem_gives hmsg off tbl hknown).eq_of_ok hround]
    refine ⟨rfl, ?_⟩
    show atItemNext msg off _ = off ∨ atItemNext msg off _ = atItemEnd msg off
    rw [atItemNext]
    split
    · exact .inl rfl
    · exact .inr rfl
  idle off tbl _ hknown hidle hround := by
    have hnext : atItemNext msg off (tbl.first (atItemKey msg off)).isSome =
        atItemEnd msg off := by
      rw [atItemNext, if_neg]
      rintro ⟨hdel, hfound⟩
      obtain ⟨e, he⟩ := Option.isSome_iff_exists.mp hfound
      exact entryDel_ne_entryUpdate (hdel.symm.trans (hidle.2 e he).1)
    rw [(atModItem_gives hmsg off tbl hknown).eq_of_ok hround, hnext]
    exact congrArg (fun t => (SfaErr.ok, t, atItemEnd msg off)) (atEffect_of_idle hidle)

/-! ## Messages -/

/-- A modification of a state table or an action table. -/
structure ModMessage extends SfaMessage where
  isMod : bytes[1]? = some ofptypeSfaStEntryMod ∨ bytes[1]? = some ofptypeSfaAtEntryMod

namespace ModMessage

variable {m : ModMessage} {g g' : GApps hash}

theorem length_lt (m : ModMessage) : m.bytes.length < 65536 := by
  rw [← m.length_eq]
  exact (ohLength m.bytes).isLt

/-- If the app is known, every item before the first of another type that the count admits
leaves the table as it is. -/
def IdleBefore (m : ModMessage) (g : GApps hash) : Prop :=
  ∀ app, g.find (netWordAt m.bytes 8) = some app →
    (m.bytes[1]? = some ofptypeSfaStEntryMod → ∀ items, StItems m.bytes 16 items →
      items.length < intRounds (netWordAt m.bytes 12) →
        ∀ i ∈ items, StIdle app.pst.stEntrys i) ∧
    (m.bytes[1]? = some ofptypeSfaAtEntryMod → ∀ items, AtItems m.bytes 16 items →
      items.length < (netWordAt m.bytes 12).toNat → ∀ i ∈ items, AtIdle app.pat.atEntrys i)

/-- A message that is handed on as not handled comes from a handler that returned an error. -/
theorem error_of_returned {x : Except Fault (SfaErr × GApps hash × Nat)}
    (h : (x.map fun r => (r.1.returned, r.2.1)) = .ok (-1, g')) :
    ∃ cursor, x = .ok (.error, g', cursor) := by
  obtain ⟨⟨err, g₁, cursor⟩, hx, heq⟩ := map_eq_ok.mp h
  cases err with
  | ok =>
    have hreturned : (0 : Int) = -1 := congrArg Prod.fst heq
    exact absurd hreturned (by decide)
  | error =>
    cases heq
    exact ⟨cursor, hx⟩

theorem unchanged_st (htype : m.bytes[1]? = some ofptypeSfaStEntryMod) (hidle : m.IdleBefore g)
    {cursor : Nat} (h : sfaMsgStMod m.bytes g = .ok (.error, g', cursor)) : g' = g := by
  rcases sfaMsgStMod_cases h with hrefused | ⟨app, err, st, cursor', hfind, hrun, heq⟩
  · cases hrefused
    rfl
  · cases heq
    have hR := @stRounds hash _ m.length_lt
    obtain ⟨items, hitems, hlt⟩ := hR.exists_items hrun
    obtain rfl := hR.unchanged hitems ((hidle app hfind).1 htype items hitems hlt) hrun
    apply GApps.modify_eq_self
    intro app' hfind'
    cases hfind.symm.trans hfind'
    rfl

theorem unchanged_at (htype : m.bytes[1]? = some ofptypeSfaAtEntryMod) (hidle : m.IdleBefore g)
    {cursor : Nat} (h : sfaMsgAtMod m.bytes g = .ok (.error, g', cursor)) : g' = g := by
  rcases sfaMsgAtMod_cases h with hrefused | ⟨app, err, tbl, cursor', hfind, hrun, heq⟩
  · cases hrefused
    rfl
  · cases heq
    have hR := @atRounds hash _ m.length_lt
    obtain ⟨items, hitems, hlt⟩ := hR.exists_items hrun
    obtain rfl := hR.unchanged hitems ((hidle app hfind).2 htype items hitems hlt) hrun
    apply GApps.modify_eq_self
    intro app' hfind'
    cases hfind.symm.trans hfind'
    rfl

/-- A refused message has no effect if every item before the refused one is idle. -/
theorem no_effect_of_idleBefore (hidle : m.IdleBefore g)
    (h : sfaHandlePkt m.bytes g = .ok (-1, g')) : g' = g := by
  have hcreate : ofptypeSfaStEntryMod ≠ ofptypeSfaTableCreate := by decide
  have hcreate' : ofptypeSfaAtEntryMod ≠ ofptypeSfaTableCreate := by decide
  have hst : ofptypeSfaAtEntryMod ≠ ofptypeSfaStEntryMod := by decide
  rcases m.isMod with htype | htype
  · rw [sfaHandlePkt, htype] at h
    simp only [if_neg hcreate, if_true] at h
    obtain ⟨cursor, h⟩ := error_of_returned h
    exact unchanged_st htype hidle h
  · rw [sfaHandlePkt, htype] at h
    simp only [if_neg hcreate', if_neg hst, if_true] at h
    obtain ⟨cursor, h⟩ := error_of_returned h
    exact unchanged_at htype hidle h

end ModMessage

/-- The only app is one with the given tables. -/
def appWith (aid : BitVec 32) (st : Entries hash StMatchEntry.data)
    (tbl : Entries hash AtMatchEntry.data) : GApps hash where
  islistinit := true
  appslist := [⟨aid, ⟨0, st⟩, [], ⟨0, tbl⟩⟩]
  fresh := nofun
  distinct := List.nodup_singleton _

/-- An addition to the state table of app 1, and an item of type 9. -/
def additionThenNone : ModMessage where
  bytes := [4, 91, 0, 33, 0, 0, 0, 0] ++ [0, 0, 0, 1] ++ [0, 0, 0, 2] ++
    ([0, 0, 0, 0] ++ [0, 0, 0, 5] ++ [0, 0, 0, 1] ++ [97]) ++ [0, 0, 0, 9]
  length_eq := by decide
  header := by decide
  sfaType := .inr (.inl rfl)
  isMod := .inl rfl

/-- An addition to the action table of app 1, and an update, whose type is in network order
as that of the addition is. -/
def additionThenUpdate : ModMessage where
  bytes := [4, 92, 0, 58, 0, 0, 0, 0] ++ [0, 0, 0, 1] ++ [0, 0, 0, 2] ++
    ([0, 0, 0, 0] ++ [0, 0, 0, 1] ++ [0, 0, 0, 2] ++ [0, 0, 0, 5] ++ [0, 0, 0, 1] ++ [97]) ++
    ([0, 0, 0, 1] ++ [0, 0, 0, 1] ++ [0, 0, 0, 3] ++ [0, 0, 0, 5] ++ [0, 0, 0, 1] ++ [97])
  length_eq := by decide
  header := by decide
  sfaType := .inr (.inr rfl)
  isMod := .inr rfl

/-- The key is filed, so its addition is skipped. -/
theorem additionThenNone_idle {e : StMatchEntry} (he : e.data = [97]) :
    additionThenNone.IdleBefore (appWith 1 (Entries.init.insert e) .init : GApps hash) := by
  rintro app ⟨⟩
  refine ⟨?_, fun htype => absurd htype (by decide)⟩
  rintro _ items hitems -
  cases hitems with
  | refused htype => exact absurd htype (by decide)
  | item htype hrest =>
    cases hrest with
    | item htype' _ => exact absurd htype' (by decide)
    | refused _ =>
      rw [List.forall_mem_singleton, StIdle, if_pos (by decide)]
      have hkey : stItemKey additionThenNone.bytes 16 = e.data := by
        rw [he]
        decide
      show ((Entries.init.insert e).first (stItemKey additionThenNone.bytes 16)).isSome = true
      rw [hkey, Entries.isSome_first, Entries.held_insert, Function.update_self]
      exact decide_eq_true (Nat.succ_ne_zero _)

theorem no_effect_of_filed_key :
    sfaHandlePkt additionThenNone.bytes
        (appWith 1 (Entries.init.insert ⟨[97], 7⟩) .init : GApps hashString) =
      .ok (-1, appWith 1 (Entries.init.insert ⟨[97], 7⟩) .init) := by
  have hhandle : ∃ g', sfaHandlePkt additionThenNone.bytes
      (appWith 1 (Entries.init.insert ⟨[97], 7⟩) .init : GApps hashString) = .ok (-1, g') :=
    ⟨_, rfl⟩
  obtain ⟨g', hg'⟩ := hhandle
  rw [hg', ModMessage.no_effect_of_idleBefore (additionThenNone_idle rfl) hg']

/-- Both messages are handed on as not handled, and both have added an entry. -/
theorem refused_with_effect :
    (∃ g', sfaHandlePkt additionThenNone.bytes (appWith 1 .init .init : GApps hashString) =
        .ok (-1, g') ∧
      (g'.find 1).map (fun app => app.pst.stEntrys.entries) = some [⟨[97], 5⟩]) ∧
    (∃ g', sfaHandlePkt additionThenUpdate.bytes (appWith 1 .init .init : GApps hashString) =
        .ok (-1, g') ∧
      (g'.find 1).map (fun app => app.pat.atEntrys.entries) = some [⟨[97], 5, ⟨1, 2⟩⟩]) ∧
    ((appWith 1 .init .init : GApps hashString).find 1).map
      (fun app => (app.pst.stEntrys.entries, app.pat.atEntrys.entries)) = some ([], []) :=
  ⟨⟨_, rfl, rfl⟩, ⟨_, rfl, rfl⟩, rfl⟩

end Sdpa.Switch
