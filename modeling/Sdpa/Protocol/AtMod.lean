import Sdpa.Protocol.StMod

/-!
# Action-table modification

What a modification of the action table ought to do is `AtApplies`: every item is
consumed once, and changes the lookup of its own key and state only. The handler does
this for additions that do not meet an expansion of the hash map with two different
actions stored under one key and state. It does it for nothing else: the other two types are compared in the wrong
byte order.
-/
namespace Sdpa.Protocol

open Sdpa.Lib.Endian
open Sdpa.Controller
open Sdpa.Switch

variable {hash : Key → BitVec 32}

/-! ## What the controller asks for -/

/-- What the lookup of its key and state is to yield once an item is applied. -/
def atItemEffect (type : SFAModType) (d : ATDATA) : Option SfaAction :=
  match type with
  | .add => some (sfaActionOf d.act)
  | .update => some (sfaActionOf d.act)
  | .del => none

/-- The handler's rounds from `off` on apply the items one after another, over the
keys `K`, and stop at the end of the message. -/
inductive AtApplies (K : Set Key) (msg : List Byte) : List (SFAModType × ATDATA) → Nat →
    Entries hash AtMatchEntry.data → Entries hash AtMatchEntry.data → Prop
  | done (tbl : Entries hash AtMatchEntry.data) : AtApplies K msg [] msg.length tbl tbl
  | item {type : SFAModType} {d : ATDATA} {items : List (SFAModType × ATDATA)} {off : Nat}
      {tbl next last : Entries hash AtMatchEntry.data}
      (round : atModItem msg off tbl =
        .ok (.ok, next, off + (ModMessage.writeItem ATDATA.writeTo (type, d)).length))
      (lookup : ∀ key ∈ K, ∀ status, atLookup next key status =
        if key = d.buffer ∧ status = d.status then atItemEffect type d
        else atLookup tbl key status)
      (rest : AtApplies K msg items (off + (ModMessage.writeItem ATDATA.writeTo (type, d)).length)
        next last) :
      AtApplies K msg ((type, d) :: items) off tbl last

/-- The handler conforms to the calls that were made for the app. -/
def AtModConforms (K : Set Key) (g : GApps hash) (app : ControllApp hash) (header : OFMessage)
    (calls : List (SFAModType × ATDATA)) : Prop :=
  ∃ g' tbl, sfaMsgAtMod (SFAAtMod.writeTo (.ofCalls header app.appid calls)) g =
      .ok (.ok, g', (SFAAtMod.writeTo (.ofCalls header app.appid calls)).length) ∧
    g'.find app.appid = some (app.setAt tbl) ∧
    (∀ id, id ≠ app.appid → g'.find id = g.find id) ∧
    AtApplies K (SFAAtMod.writeTo (.ofCalls header app.appid calls)) calls 16
      app.pat.atEntrys tbl

/-! ## What an insertion does to the lookups -/

/-- The entries a search for the key meets once the new one is in front. -/
def withNewest (t : Entries hash AtMatchEntry.data) (e : AtMatchEntry) (key : Key) :
    List AtMatchEntry :=
  if hash key = hash e.data then e :: t.withHash key else t.withHash key

def actionIn (l : List AtMatchEntry) (status : BitVec 32) : Option SfaAction :=
  (l.find? (fun e => e.lastStatus == status)).map AtMatchEntry.act

/-- The first of the entries with a state has the same action as the last. -/
def EndsAgree (l : List AtMatchEntry) (status : BitVec 32) : Prop :=
  actionIn l status = actionIn l.reverse status

theorem atLookup_insert (t : Entries hash AtMatchEntry.data) (e : AtMatchEntry) (key : Key)
    (status : BitVec 32) :
    atLookup (t.insert e) key status =
      if expands t.map then actionIn (withNewest t e key).reverse status
      else actionIn (withNewest t e key) status := by
  rw [atLookup, Entries.withHash_insert]
  split <;> rfl

theorem actionIn_withNewest {K : Set Key} (hinj : Set.InjOn hash K)
    (t : Entries hash AtMatchEntry.data) {e : AtMatchEntry} (he : e.data ∈ K) {key : Key}
    (hkey : key ∈ K) (status : BitVec 32) :
    actionIn (withNewest t e key) status =
      if key = e.data ∧ status = e.lastStatus then some e.act else atLookup t key status := by
  by_cases hk : key = e.data
  · subst hk
    rw [withNewest, if_pos rfl, actionIn]
    by_cases hs : status = e.lastStatus
    · subst hs
      simp
    · rw [List.find?_cons_of_neg (by simpa using Ne.symm hs), if_neg (fun h => hs h.2)]
      rfl
  · rw [withNewest, if_neg (fun h => hk (hinj hkey he h)), if_neg (fun h => hk h.1)]
    rfl

/-- Wherever inserting the entries in turn expands the hash map, the oldest and
the newest entry of every key and state carry the same action. -/
def ExpansionsAgree (K : Set Key) : Entries hash AtMatchEntry.data → List ATDATA → Prop
  | _, [] => True
  | t, d :: ds =>
    (expands t.map = true → ∀ key ∈ K, ∀ status, EndsAgree (withNewest t (atEntryOf d) key) status) ∧
      ExpansionsAgree K (t.insert (atEntryOf d)) ds

/-- An addition has its effect exactly if its expansion, if any, changes nothing. -/
theorem insert_lookup_iff {K : Set Key} (hinj : Set.InjOn hash K)
    (t : Entries hash AtMatchEntry.data) {d : ATDATA} (hd : d.buffer ∈ K) :
    (∀ key ∈ K, ∀ status, atLookup (t.insert (atEntryOf d)) key status =
        if key = d.buffer ∧ status = d.status then atItemEffect .add d
        else atLookup t key status) ↔
      (expands t.map = true →
        ∀ key ∈ K, ∀ status, EndsAgree (withNewest t (atEntryOf d) key) status) := by
  have hwant : ∀ key ∈ K, ∀ status, actionIn (withNewest t (atEntryOf d) key) status =
      if key = d.buffer ∧ status = d.status then atItemEffect .add d
      else atLookup t key status :=
    fun key hkey status => actionIn_withNewest hinj t hd hkey status
  constructor
  · intro h hexp key hkey status
    have hl := h key hkey status
    rw [atLookup_insert, if_pos hexp, ← hwant key hkey status] at hl
    exact hl.symm
  · intro h key hkey status
    rw [atLookup_insert, ← hwant key hkey status]
    split
    · rename_i hexp
      exact (h hexp key hkey status).symm
    · rfl

/-! ## Rounds of the handler -/

section

variable {msg rest : List Byte} {off : Nat} {type : SFAModType} {d : ATDATA}

/-- Only the type whose bytes read the same backwards survives the missing swap. -/
theorem type_eq_add (h : Remaining msg off (ModMessage.writeItem ATDATA.writeTo (type, d) ++ rest))
    {t next : Entries hash AtMatchEntry.data} {cursor : Nat}
    (hround : atModItem msg off t = .ok (.ok, next, cursor)) : type = .add := by
  rw [ModMessage.writeItem, List.append_assoc] at h
  have hrefused (hadd : bswap 4 type.getValue ≠ entryAdd) (hupdate : bswap 4 type.getValue ≠ entryUpdate)
      (hdel : bswap 4 type.getValue ≠ entryDel) : False := by
    simp only [atModItem, load32_putInt h, bind, Except.bind, if_neg hadd, if_neg hupdate,
      if_neg hdel] at hround
    cases hround
  cases type with
  | add => rfl
  | update => exact (hrefused (by decide) (by decide) (by decide)).elim
  | del => exact (hrefused (by decide) (by decide) (by decide)).elim

theorem atModItem_add (hmsg : msg.length < 65536) (hn : 0 ∉ d.buffer)
    (h : Remaining msg off (ModMessage.writeItem ATDATA.writeTo (.add, d) ++ rest))
    (t : Entries hash AtMatchEntry.data) :
    atModItem msg off t = .ok (.ok, t.insert (atEntryOf d),
      off + (ModMessage.writeItem ATDATA.writeTo (.add, d)).length) := by
  have hswap : bswap 4 SFAModType.add.getValue = SFAModType.add.getValue := by decide
  rw [ModMessage.writeItem, List.append_assoc] at h
  have hread := load32_putInt h
  rw [hswap] at hread
  obtain ⟨hactype, hacparam, hstatus, hlen, hl, h20⟩ := readAtData hmsg (remaining_int h)
  have hacparam8 : net32 msg (off + 8) = .ok d.act.param := hacparam
  have hstatus12 : net32 msg (off + 12) = .ok d.status := hstatus
  have hlen16 : net32 msg (off + 16) = .ok d.lenOfBuf := hlen
  have hdata : copyKey msg (off + 20) d.lenOfBuf (d.lenOfBuf + 1) = .ok d.buffer :=
    copyKey_succ h20 hn hl d.len_eq
  have hsize : off + 20 + d.lenOfBuf.toNat =
      off + (ModMessage.writeItem ATDATA.writeTo (.add, d)).length := by
    rw [d.len_eq, toNat_ofNat_length hl]
    simp only [ModMessage.writeItem, ATDATA.writeTo, SFAAction.writeTo, List.length_append,
      putInt_length]
    omega
  simp only [atModItem, hread, hactype, hacparam8, hstatus12, hlen16, hdata, bind, Except.bind,
    SFAModType.getValue, entryAdd, hsize]
  rfl

end

/-- Items are applied as asked exactly if all are additions that no expansion upsets. -/
theorem atApplies_iff {K : Set Key} (hinj : Set.InjOn hash K) {msg : List Byte}
    (hmsg : msg.length < 65536) {items : List (SFAModType × ATDATA)} {off : Nat}
    (hkeys : ∀ it ∈ items, it.2.buffer ∈ K) (hn : ∀ it ∈ items, 0 ∉ it.2.buffer)
    (h : Remaining msg off (items.flatMap (ModMessage.writeItem ATDATA.writeTo) ++ []))
    (t : Entries hash AtMatchEntry.data) :
    (∃ last, AtApplies K msg items off t last) ↔
      (∀ it ∈ items, it.1 = .add) ∧ ExpansionsAgree K t (items.map Prod.snd) := by
  induction items generalizing off t with
  | nil =>
    have hoff : off = msg.length := by simpa using h.length_eq
    subst hoff
    exact ⟨fun _ => ⟨by simp, trivial⟩, fun _ => ⟨t, .done t⟩⟩
  | cons it items ih =>
    obtain ⟨type, d⟩ := it
    have hd := hkeys _ List.mem_cons_self
    rw [List.flatMap_cons, List.append_assoc] at h
    have ih := ih (fun x hx => hkeys x (List.mem_cons_of_mem _ hx))
      (fun x hx => hn x (List.mem_cons_of_mem _ hx)) h.skip
    constructor
    · rintro ⟨last, hlast⟩
      cases hlast with
      | item hround hlookup hrest =>
        obtain rfl := type_eq_add h hround
        have hround' := atModItem_add hmsg (hn _ List.mem_cons_self) h t
        rw [hround', Except.ok.injEq, Prod.mk.injEq, Prod.mk.injEq] at hround
        obtain ⟨-, rfl, -⟩ := hround
        obtain ⟨hadd, hexp⟩ := (ih (t.insert (atEntryOf d))).mp ⟨last, hrest⟩
        refine ⟨?_, (insert_lookup_iff hinj t hd).mp hlookup, hexp⟩
        rintro x hx
        rcases List.mem_cons.mp hx with rfl | hx
        · rfl
        · exact hadd x hx
    · rintro ⟨hadd, hexp, hexps⟩
      obtain rfl : type = .add := hadd _ List.mem_cons_self
      have hround := atModItem_add hmsg (hn _ List.mem_cons_self) h t
      obtain ⟨last, hlast⟩ := (ih (t.insert (atEntryOf d))).mpr
        ⟨fun x hx => hadd x (List.mem_cons_of_mem _ hx), hexps⟩
      exact ⟨last, .item hround ((insert_lookup_iff hinj t hd).mpr hexp) hlast⟩

theorem AtApplies.modItems_eq {K : Set Key} {msg : List Byte} {items : List (SFAModType × ATDATA)}
    {off : Nat} {t last : Entries hash AtMatchEntry.data} (h : AtApplies K msg items off t last) :
    modItems (atModItem msg) items.length off t = .ok (.ok, last, msg.length) := by
  induction h with
  | done => rfl
  | item hround _ _ ih =>
    rw [List.length_cons, modItems, hround]
    exact ih

/-! ## The handler -/

theorem sfaMsgAtMod_of_reads {bytes : List Byte} {g : GApps hash} {app : ControllApp hash}
    {aid count : BitVec 32} {err : SfaErr} {tbl : Entries hash AtMatchEntry.data} {c : Nat}
    (haid : net32 bytes 8 = .ok aid) (hfind : g.find aid = some app)
    (hcount : net32 bytes 12 = .ok count)
    (hrun : modItems (atModItem bytes) count.toNat 16 app.pat.atEntrys = .ok (err, tbl, c)) :
    sfaMsgAtMod bytes g =
      .ok (err, g.modify aid (ControllApp.setAt tbl) (ControllApp.setAt_appid tbl), c) := by
  have hinit := GApps.find_isSome_islistinit hfind
  simp only [sfaMsgAtMod, haid, hinit, hfind, hcount, hrun, bind, Except.bind]
  rfl

/-- Additions are entered one after another, whatever the hash. -/
theorem sfaMsgAtMod_adds {g : GApps hash} {app : ControllApp hash} {aid : BitVec 32}
    (hfind : g.find aid = some app) (header : OFMessage) {calls : List (SFAModType × ATDATA)}
    (hcalls : calls ≠ []) (hadd : ∀ call ∈ calls, call.1 = .add)
    (hn : ∀ call ∈ calls, 0 ∉ call.2.buffer)
    (hlen : (SFAAtMod.writeTo (.ofCalls header aid calls)).length < 65536) :
    sfaMsgAtMod (SFAAtMod.writeTo (.ofCalls header aid calls)) g =
      .ok (.ok, g.modify aid (ControllApp.setAt
          (calls.foldl (fun t call => t.insert (atEntryOf call.2)) app.pat.atEntrys))
        (ControllApp.setAt_appid _), (SFAAtMod.writeTo (.ofCalls header aid calls)).length) := by
  generalize hbytes : SFAAtMod.writeTo (SFAAtMod.ofCalls header aid calls) = bytes at hlen ⊢
  obtain ⟨haid, hcount, hsize, h16⟩ := readModHeader hbytes hlen
  rw [SFAAtMod.ofCalls_appid, if_neg hcalls] at haid
  rw [SFAAtMod.ofCalls_datas] at hcount hsize h16
  have hround : ∀ call ∈ calls, ∀ off rest (t : Entries hash AtMatchEntry.data),
      Remaining bytes off (ModMessage.writeItem ATDATA.writeTo call ++ rest) →
        ∃ off', atModItem bytes off t = .ok (.ok, t.insert (atEntryOf call.2), off') ∧
          Remaining bytes off' rest := by
    rintro ⟨type, d⟩ hcall off rest t h
    obtain rfl : type = .add := hadd _ hcall
    exact ⟨_, atModItem_add hlen (hn _ hcall) h t, h.skip⟩
  obtain ⟨off, hrun, hrest⟩ := modItems_written (atModItem bytes)
    (fun t call => t.insert (atEntryOf call.2)) hround h16 app.pat.atEntrys
  have hend : off = bytes.length := by simpa using hrest.length_eq
  rw [hend, ← toNat_ofNat_length hsize] at hrun
  exact sfaMsgAtMod_of_reads haid hfind hcount hrun

theorem sfaMsgAtMod_unknown {bytes : List Byte} {g : GApps hash} {aid : BitVec 32}
    (haid : net32 bytes 8 = .ok aid) (hfind : g.find aid = none) :
    sfaMsgAtMod bytes g = .ok (.error, g, 8) := by
  simp only [sfaMsgAtMod, haid, hfind, bind, Except.bind]
  split <;> rfl

/-- A message without calls names app 0. -/
theorem atModConforms_nil {K : Set Key} {g : GApps hash} {app : ControllApp hash}
    (happ : app ∈ g.appslist) (header : OFMessage) :
    AtModConforms K g app header [] ↔ (g.find 0).isSome = true := by
  obtain ⟨haid, hcount, -, h16⟩ := readModHeader
    (rfl : SFAAtMod.writeTo (.ofCalls header app.appid []) = _) (by simp [SFAAtMod.writeTo,
      ModMessage.writeTo, SFAAtMod.ofCalls_datas])
  rw [SFAAtMod.ofCalls_appid, if_pos rfl] at haid
  rw [SFAAtMod.ofCalls_datas] at hcount h16
  unfold AtModConforms
  generalize SFAAtMod.writeTo (.ofCalls header app.appid []) = bytes at haid hcount h16 ⊢
  have hend : 16 = bytes.length := by simpa using h16.length_eq
  cases hzero : g.find 0 with
  | none =>
    refine ⟨?_, fun h => by cases h⟩
    rintro ⟨g', tbl, hrun, -⟩
    rw [sfaMsgAtMod_unknown haid hzero, Except.ok.injEq, Prod.mk.injEq] at hrun
    cases hrun.1
  | some zero =>
    refine ⟨fun _ => rfl, fun _ => ?_⟩
    have hresult := sfaMsgAtMod_of_reads haid hzero hcount
      (rfl : modItems (atModItem bytes) _ 16 zero.pat.atEntrys = .ok (.ok, zero.pat.atEntrys, 16))
    rw [hend] at hresult
    have hsame : g.modify 0 (ControllApp.setAt zero.pat.atEntrys)
        (ControllApp.setAt_appid zero.pat.atEntrys) = g := by
      refine GApps.modify_eq_self fun app' hfind => ?_
      obtain rfl := Option.some.inj (hzero.symm.trans hfind)
      rfl
    rw [hsame] at hresult
    refine ⟨g, app.pat.atEntrys, hresult, GApps.find_of_mem happ, fun _ _ => rfl, ?_⟩
    rw [hend]
    exact .done _

/-- `sfa_msg_at_mod` conforms to a message exactly if all its items are additions,
no expansion they cause meets a key and state whose oldest and newest entry
disagree, and the app that the message names exists. -/
theorem sfaMsgAtMod_conforms_iff (g : GApps hash) {app : ControllApp hash}
    (happ : app ∈ g.appslist) (header : OFMessage) (calls : List (SFAModType × ATDATA))
    {K : Set Key} (hinj : Set.InjOn hash K) (hkeys : ∀ call ∈ calls, call.2.buffer ∈ K)
    (hn : ∀ call ∈ calls, 0 ∉ call.2.buffer)
    (hlen : (SFAAtMod.writeTo (.ofCalls header app.appid calls)).length < 65536) :
    AtModConforms K g app header calls ↔
      (calls ≠ [] ∨ (g.find 0).isSome = true) ∧ (∀ call ∈ calls, call.1 = .add) ∧
        ExpansionsAgree K app.pat.atEntrys (calls.map Prod.snd) := by
  by_cases hc : calls = []
  · subst hc
    rw [atModConforms_nil happ]
    simp [ExpansionsAgree]
  · obtain ⟨haid, hcount, hsize, h16⟩ := readModHeader
      (rfl : SFAAtMod.writeTo (.ofCalls header app.appid calls) = _) hlen
    rw [SFAAtMod.ofCalls_appid, if_neg hc] at haid
    rw [SFAAtMod.ofCalls_datas] at hcount hsize h16
    unfold AtModConforms
    generalize SFAAtMod.writeTo (.ofCalls header app.appid calls) = bytes at hlen haid hcount h16 ⊢
    have hiff := atApplies_iff hinj hlen hkeys hn h16 app.pat.atEntrys
    refine ⟨?_, ?_⟩
    · rintro ⟨-, tbl, -, -, -, happlies⟩
      exact ⟨Or.inl hc, hiff.mp ⟨tbl, happlies⟩⟩
    · rintro ⟨-, hcond⟩
      obtain ⟨tbl, happlies⟩ := hiff.mpr hcond
      have hrun := happlies.modItems_eq
      rw [← toNat_ofNat_length hsize] at hrun
      have hfind := GApps.find_of_mem happ
      refine ⟨_, tbl, sfaMsgAtMod_of_reads haid hfind hcount hrun, ?_, ?_, happlies⟩
      · rw [GApps.find_modify, if_pos rfl, hfind]
        rfl
      · intro id hid
        rw [GApps.find_modify, if_neg hid]

/-- An app whose action table drops the packets of key `1` in state 2. -/
def droppingApp : ControllApp hashString :=
  sampleApp.setAt (Entries.init.insert ⟨[0x31], 2, 2, 0⟩)

def droppingApps : GApps hashString := GApps.start.append droppingApp rfl

/-- New states for its key and for another one. -/
def sampleAtCalls : List (SFAModType × ATDATA) :=
  [(.add, ATDATA.new 3 [0x31] ⟨.drop, 0⟩), (.add, ATDATA.new 2 [0x32] ⟨.output, 5⟩),
    (.add, ATDATA.new 3 [0x32] ⟨.drop, 0⟩)]

theorem sampleAtKeys_injOn : Set.InjOn hashString {[0x31], [0x32]} := by
  have hne : hashString [0x31] ≠ hashString [0x32] := by decide
  rintro a (rfl | rfl) b (rfl | rfl) hab
  · rfl
  · exact absurd hab hne
  · exact absurd hab.symm hne
  · rfl

theorem EndsAgree.pair {a b : AtMatchEntry} (hne : a.lastStatus ≠ b.lastStatus) (status : BitVec 32) :
    EndsAgree [a, b] status := by
  unfold EndsAgree actionIn
  by_cases ha : a.lastStatus = status
  · have hb : b.lastStatus ≠ status := fun hb => hne (ha.trans hb.symm)
    simp [ha, hb]
  · by_cases hb : b.lastStatus = status <;> simp [ha, hb]

/-- The first addition expands the hash map, and finds no state twice. -/
theorem sfaMsgAtMod_conforms_iff_sample :
    AtModConforms {[0x31], [0x32]} droppingApps droppingApp {} sampleAtCalls := by
  refine (sfaMsgAtMod_conforms_iff droppingApps (List.mem_singleton.mpr rfl) {} sampleAtCalls
    sampleAtKeys_injOn ?_ (by decide) (by decide)).mpr ⟨Or.inl (by decide), by decide, ?_, ?_, ?_⟩
  · have hall : ∀ call ∈ sampleAtCalls, call.2.buffer = [0x31] ∨ call.2.buffer = [0x32] := by decide
    exact hall
  · rintro - key (rfl | rfl) status
    · exact EndsAgree.pair (by decide) status
    · rfl
  · exact fun hexp => absurd hexp (by decide)
  · exact ⟨fun hexp => absurd hexp (by decide), trivial⟩

/-- The deletion of that entry arrives as type `0x02000000` and is refused. -/
theorem sfaMsgAtMod_del_refused :
    droppingApp ∈ droppingApps.appslist ∧ Set.InjOn hashString {[0x31]} ∧
    (∃ g' c, sfaMsgAtMod (SFAAtMod.writeTo (.ofCalls {} droppingApp.appid
      [(.del, ATDATA.new 2 [0x31] ⟨.drop, 0⟩)])) droppingApps = .ok (.error, g', c)) ∧
    ¬ AtModConforms {[0x31]} droppingApps droppingApp {}
      [(.del, ATDATA.new 2 [0x31] ⟨.drop, 0⟩)] := by
  have herr : ∃ g' c, sfaMsgAtMod (SFAAtMod.writeTo (.ofCalls {} droppingApp.appid
      [(.del, ATDATA.new 2 [0x31] ⟨.drop, 0⟩)])) droppingApps = .ok (.error, g', c) := ⟨_, _, rfl⟩
  refine ⟨List.mem_singleton.mpr rfl, Set.injOn_singleton hashString [0x31], herr, ?_⟩
  rintro ⟨g', tbl, hok, -⟩
  obtain ⟨_, _, herr⟩ := herr
  rw [herr, Except.ok.injEq, Prod.mk.injEq] at hok
  cases hok.1

end Sdpa.Protocol
