import Sdpa.Switch.Bounds
import Sdpa.Switch.Isolation

/-!
# The transitions of `xlate_fp`

A call that finds a state moves the entry it found to the state that the transition
table gives, in the order of the create message, and changes nothing else. It gets
there unless the match string of the action table is missing, which is hashed all
the same.
-/
namespace Sdpa.Switch

open Sdpa.Lib.Bins
open Sdpa.Lib.Endian
open Sdpa.Lib.Fallible

variable {hash : Key → BitVec 32}

/-! ## The next state -/

/-- The state that a packet leads to: the new state of the first transition from the
current one whose event occurs; 0 if events occur for other states only; the current
one if none occurs. -/
def transition (fl : Flow) (tcpFlags : BitVec 16) (status : BitVec 32)
    (stt : List SttMatchEntry) : BitVec 32 :=
  match stt.find? (fun x => x.event fl tcpFlags && x.lastStatus == status) with
  | some x => x.curStatus
  | none => if stt.any (SttMatchEntry.event fl tcpFlags) then 0 else status

/-- State 0 is not stored. -/
def storedStatus (status next : BitVec 32) : BitVec 32 := if next ≠ 0 then next else status

theorem nextState_eq (fl : Flow) (tcpFlags : BitVec 16) (status : BitVec 32)
    (stt : List SttMatchEntry) (seen : Bool) :
    nextState fl tcpFlags status stt seen =
      match stt.find? (fun x => x.event fl tcpFlags && x.lastStatus == status) with
      | some x => x.curStatus
      | none => if seen || stt.any (SttMatchEntry.event fl tcpFlags) then 0 else status := by
  induction stt generalizing seen with
  | nil => rw [nextState, List.find?_nil, List.any_nil, Bool.or_false]
  | cons x rest ih =>
    rw [nextState, List.find?_cons, List.any_cons]
    cases hevent : x.event fl tcpFlags with
    | false =>
      rw [if_neg Bool.false_ne_true, ih, Bool.false_and, Bool.false_or]
    | true =>
      rw [if_pos rfl, Bool.true_and]
      by_cases hlast : status = x.lastStatus
      · rw [if_pos hlast, hlast, beq_self_eq_true]
      · rw [if_neg hlast, beq_false_of_ne (Ne.symm hlast), ih, Bool.true_or, Bool.or_true]

theorem nextState_eq_transition (fl : Flow) (tcpFlags : BitVec 16) (status : BitVec 32)
    (stt : List SttMatchEntry) :
    nextState fl tcpFlags status stt false = transition fl tcpFlags status stt :=
  nextState_eq fl tcpFlags status stt false

/-! ## What a call finds -/

/-- The app, the match string and the entry that the lookup of a packet finds. -/
def FpPacket.found (p : FpPacket) (g : GApps hash) :
    Option (ControllApp hash × Key × StMatchEntry) :=
  match g.find p.aid with
  | none => none
  | some app =>
    match parseMatch p.flow app.pst.matchBitmap with
    | .ok (some key) => (app.pst.stEntrys.first key).map fun e => (app, key, e)
    | _ => none

theorem found_eq_some {g : GApps hash} {p : FpPacket} {app : ControllApp hash} {key : Key}
    {e : StMatchEntry} : p.found g = some (app, key, e) ↔ g.find p.aid = some app ∧
      parseMatch p.flow app.pst.matchBitmap = .ok (some key) ∧
        app.pst.stEntrys.first key = some e := by
  rw [FpPacket.found]
  constructor
  · intro h
    split at h
    · cases h
    rename_i app' hfind
    split at h
    · rename_i key' hparse
      obtain ⟨e', hfirst, heq⟩ := Option.map_eq_some_iff.mp h
      obtain ⟨rfl, rfl, rfl⟩ : app' = app ∧ key' = key ∧ e' = e := by
        simpa only [Prod.mk.injEq] using heq
      exact ⟨hfind, hparse, hfirst⟩
    · cases h
  · rintro ⟨hfind, hparse, hfirst⟩
    rw [hfind]
    simp only [hparse, hfirst, Option.map_some]

/-- All that the call of a packet reads is there: the list of the apps is set up, the
bits of the state table have code, and if a state is found those of the action table
have code too and there is at least one. -/
structure Served (g : GApps hash) (p : FpPacket) : Prop where
  init : g.islistinit = true
  st : ∀ app, g.find p.aid = some app → Readable app.pst.matchBitmap
  tbl : ∀ app key e, p.found g = some (app, key, e) →
    Readable app.pat.bitmap ∧ selected app.pat.bitmap ≠ []

/-- A state that was found is acted upon if there is a match string of the action table. -/
theorem run_of_served {g : GApps hash} {p : FpPacket} {app : ControllApp hash} {key : Key}
    {e : StMatchEntry} (h : Served g p) (hfound : p.found g = some (app, key, e)) :
    ∃ fl drop, p.run g = .ok
      ⟨updateState g p.aid key (transition p.flow p.tcpFlags e.lastStatus app.pstt), fl, drop⟩ := by
  obtain ⟨hfind, hparse, hfirst⟩ := found_eq_some.mp hfound
  obtain ⟨k, hk⟩ := (exists_parseMatch_iff p.flow app.pat.bitmap).mpr (h.tbl app key e hfound)
  rw [← nextState_eq_transition]
  have hdecide : ∃ fl drop, fpDecide p.flow p.tcpFlags
      (⟨key, e.lastStatus, app.pstt, app.pat⟩ : FpFound hash) =
        .ok ⟨nextState p.flow p.tcpFlags e.lastStatus app.pstt false, fl, drop⟩ := by
    simp only [fpDecide, hk, bind, Except.bind]
    split
    · exact ⟨_, _, rfl⟩
    · exact ⟨_, _, rfl⟩
  obtain ⟨fl, drop, hd⟩ := hdecide
  exact ⟨fl, drop, FpPacket.run_of_found hfind hparse hfirst hd⟩

/-- A call that finds no state leaves the apps alone. -/
theorem run_of_not_found {g : GApps hash} {p : FpPacket} (h : Served g p)
    (hfound : p.found g = none) : ∃ why, p.run g = .ok ⟨g, p.flow, .error why⟩ := by
  have hlookup : ∃ why, fpLookup g p.bitmap p.flow = .ok (.error why) := by
    have hid : g.find (p.bitmap.setWidth 32) = g.find p.aid := rfl
    rw [fpLookup, if_neg (by rw [h.init]; decide), hid]
    rw [FpPacket.found] at hfound
    cases hfind : g.find p.aid with
    | none => exact ⟨.noApp, rfl⟩
    | some app =>
      simp only [hfind, parseMatch_of_readable p.flow (h.st app hfind)] at hfound
      simp only [parseMatch_of_readable p.flow (h.st app hfind), bind, Except.bind]
      by_cases hsel : selected app.pst.matchBitmap = []
      · rw [if_pos hsel]
        exact ⟨.noMatchString, rfl⟩
      · rw [if_neg hsel] at hfound ⊢
        simp only [Option.map_eq_none_iff] at hfound
        simp only [hfound]
        exact ⟨.noStEntry, rfl⟩
  obtain ⟨why, hwhy⟩ := hlookup
  rw [FpPacket.run, xlateFp, hwhy]
  exact ⟨why, rfl⟩

theorem served_of_returns {g : GApps hash} {p : FpPacket} (h : Returns (p.run g)) : Served g p := by
  obtain ⟨r, hr⟩ := h
  have hid : g.find (p.bitmap.setWidth 32) = g.find p.aid := rfl
  rw [FpPacket.run, xlateFp] at hr
  cases hlookup : fpLookup g p.bitmap p.flow with
  | error fault =>
    rw [hlookup] at hr
    cases hr
  | ok l =>
    have hl := hlookup
    rw [fpLookup, hid] at hl
    by_cases hinit : g.islistinit = false
    · rw [if_pos hinit] at hl
      cases hl
    rw [if_neg hinit] at hl
    refine ⟨by simpa using hinit, fun app hfind => ?_, fun app key e hfound => ?_⟩
    · rw [hfind] at hl
      cases hparse : parseMatch p.flow app.pst.matchBitmap with
      | error fault =>
        simp only [hparse, bind, Except.bind] at hl
        cases hl
      | ok m => exact readable_of_parseMatch hparse
    · obtain ⟨hfind, hparse, hfirst⟩ := found_eq_some.mp hfound
      have hok : p.lookup g = .ok (.ok ⟨key, e.lastStatus, app.pstt, app.pat⟩) :=
        lookup_eq_ok.mpr ⟨app, e, hfind, hparse, hfirst, rfl⟩
      obtain rfl : l = .ok ⟨key, e.lastStatus, app.pstt, app.pat⟩ :=
        Except.ok.inj (hlookup.symm.trans hok)
      rw [hlookup] at hr
      apply (exists_parseMatch_iff p.flow app.pat.bitmap).mp
      cases hk : parseMatch p.flow app.pat.bitmap with
      | error fault =>
        simp only [bind, Except.bind, fpDecide, hk] at hr
        cases hr
      | ok m =>
        cases m with
        | none =>
          simp only [bind, Except.bind, fpDecide, hk] at hr
          cases hr
        | some k => exact ⟨k, rfl⟩

/-! ## What a call stores -/

/-- All apps but one are the same, and so is their order. -/
structure OneApp (g g' : GApps hash) (app app' : ControllApp hash) : Prop where
  init : g'.islistinit = g.islistinit
  apps : ∃ before after, g.appslist = before ++ app :: after ∧ g'.appslist = before ++ app' :: after

/-- The first entry of the walk over the hash of the key is given a state. Everything
else of the app is the same. -/
structure OneStatus (key : Key) (e : StMatchEntry) (status : BitVec 32)
    (app app' : ControllApp hash) : Prop where
  appid : app'.appid = app.appid
  matchBitmap : app'.pst.matchBitmap = app.pst.matchBitmap
  entrys : ∃ front rest, app.pst.stEntrys.entries = front ++ e :: rest ∧
    (∀ x ∈ front, hash x.data ≠ hash key) ∧
      app'.pst.stEntrys.entries = front ++ ⟨e.data, status⟩ :: rest
  stt : app'.pstt = app.pstt
  tbl : app'.pat = app.pat

theorem exists_modify {g : GApps hash} {aid : BitVec 32} {app : ControllApp hash}
    (hfind : g.find aid = some app) (f : ControllApp hash → ControllApp hash)
    (hf : ∀ app, (f app).appid = app.appid) : OneApp g (g.modify aid f hf) app (f app) := by
  obtain ⟨before, after, hl, -, hmod⟩ := exists_modifyFirst_eq (f := f) hfind
  exact ⟨rfl, before, after, hl, hmod⟩

theorem updateState_stores {g : GApps hash} {aid : BitVec 32} {app : ControllApp hash} {key : Key}
    {e : StMatchEntry} (hfind : g.find aid = some app)
    (hfirst : app.pst.stEntrys.first key = some e) (next : BitVec 32) :
    ∃ app', OneApp g (updateState g aid key next) app app' ∧
      OneStatus key e (storedStatus e.lastStatus next) app app' := by
  rw [Entries.first_eq_find] at hfirst
  obtain ⟨front, rest, hl, hfront, hwrite⟩ :=
    exists_modifyFirst_eq (f := StMatchEntry.setStatus next) hfirst
  have hne : ∀ x ∈ front, hash x.data ≠ hash key := fun x hx => by simpa using hfront x hx
  rw [updateState, storedStatus]
  by_cases hzero : next = 0
  · obtain ⟨before, after, happs, -⟩ := exists_modifyFirst_eq (f := id) hfind
    rw [if_pos hzero, if_neg (not_not.mpr hzero)]
    exact ⟨app, ⟨rfl, before, after, happs, happs⟩, rfl, rfl, ⟨front, rest, hl, hne, hl⟩, rfl, rfl⟩
  · rw [if_neg hzero, if_pos hzero]
    refine ⟨app.writeStatus key next, exists_modify hfind _ _, rfl, rfl, ?_, rfl, rfl⟩
    have hentries := Entries.entries_write app.pst.stEntrys key (StMatchEntry.setStatus next)
      (StMatchEntry.setStatus_data next)
    exact ⟨front, rest, hl, hne, hentries.trans hwrite⟩

/-- The call returns, a state that is found moves as the transition table says, and
otherwise nothing changes. -/
def Transits (g : GApps hash) (p : FpPacket) : Prop :=
  ∃ r, p.run g = .ok r ∧ (p.found g = none → r.apps = g) ∧
    ∀ app key e, p.found g = some (app, key, e) → ∃ app', OneApp g r.apps app app' ∧
      OneStatus key e
        (storedStatus e.lastStatus (transition p.flow p.tcpFlags e.lastStatus app.pstt)) app app'

theorem transits_of_served {g : GApps hash} {p : FpPacket} (h : Served g p) : Transits g p := by
  cases hfound : p.found g with
  | none =>
    obtain ⟨why, hrun⟩ := run_of_not_found h hfound
    refine ⟨_, hrun, fun _ => rfl, fun app key e hsome => ?_⟩
    rw [hfound] at hsome
    cases hsome
  | some found =>
    obtain ⟨app, key, e⟩ := found
    obtain ⟨fl, drop, hrun⟩ := run_of_served h hfound
    obtain ⟨hfind, -, hfirst⟩ := found_eq_some.mp hfound
    refine ⟨_, hrun, fun hnone => ?_, fun app' key' e' hsome => ?_⟩
    · rw [hfound] at hnone
      cases hnone
    · obtain ⟨rfl, rfl, rfl⟩ : app = app' ∧ key = key' ∧ e = e' := by
        simpa only [hfound, Option.some.injEq, Prod.mk.injEq] using hsome
      exact updateState_stores hfind hfirst _

/-! ## Runs -/

/-- `xlate_fp` on one packet after the other. -/
def runPackets (packets : List FpPacket) (g : GApps hash) : Except Fault (GApps hash) :=
  packets.foldlM (fun g p => (p.run g).map FpResult.apps) g

/-- The same apps with the same entries, and no state has become 0. -/
def NonzeroKept (g g' : GApps hash) : Prop :=
  List.Forall₂ (fun app app' => app'.appid = app.appid ∧
    List.Forall₂ (fun e e' : StMatchEntry => e'.data = e.data ∧
      (e.lastStatus ≠ 0 → e'.lastStatus ≠ 0)) app.pst.stEntrys.entries app'.pst.stEntrys.entries)
    g.appslist g'.appslist

theorem NonzeroKept.refl (g : GApps hash) : NonzeroKept g g :=
  List.forall₂_same.mpr fun _ _ => ⟨rfl, List.forall₂_same.mpr fun _ _ => ⟨rfl, id⟩⟩

theorem NonzeroKept.trans {g₁ g₂ g₃ : GApps hash} (h₁ : NonzeroKept g₁ g₂)
    (h₂ : NonzeroKept g₂ g₃) : NonzeroKept g₁ g₃ := by
  refine forall₂_trans (fun _ _ _ hab hbc => ⟨hbc.1.trans hab.1, ?_⟩) h₁ h₂
  exact forall₂_trans (fun _ _ _ hxy hyz => ⟨hyz.1.trans hxy.1, fun h => hyz.2 (hxy.2 h)⟩)
    hab.2 hbc.2

theorem updateState_nonzeroKept (g : GApps hash) (aid : BitVec 32) (key : Key) (next : BitVec 32) :
    NonzeroKept g (updateState g aid key next) := by
  rw [updateState]
  split
  · exact .refl g
  rename_i hzero
  refine forall₂_modifyFirst (fun app => ⟨rfl, List.forall₂_same.mpr fun _ _ => ⟨rfl, id⟩⟩)
    (fun app => ⟨rfl, ?_⟩) g.appslist
  have hwrite := Entries.entries_write app.pst.stEntrys key (StMatchEntry.setStatus next)
    (StMatchEntry.setStatus_data next)
  rw [ControllApp.writeStatus, ControllApp.setSt]
  dsimp only
  rw [hwrite]
  exact forall₂_modifyFirst (fun _ => ⟨rfl, id⟩) (fun _ => ⟨rfl, fun _ => hzero⟩) _

/-- A pass leaves the tables as they are, or writes one status. -/
theorem run_apps {g : GApps hash} {p : FpPacket} {r : FpResult hash} (h : p.run g = .ok r) :
    r.apps = g ∨ ∃ key next, r.apps = updateState g p.aid key next := by
  have hserved := served_of_returns ⟨r, h⟩
  cases hfound : p.found g with
  | none =>
    obtain ⟨why, hrun⟩ := run_of_not_found hserved hfound
    obtain rfl := Except.ok.inj (hrun.symm.trans h)
    exact .inl rfl
  | some found =>
    obtain ⟨fl, drop, hrun⟩ := run_of_served hserved hfound
    obtain rfl := Except.ok.inj (hrun.symm.trans h)
    exact .inr ⟨_, _, rfl⟩

theorem run_nonzeroKept {g : GApps hash} {p : FpPacket} {r : FpResult hash}
    (h : p.run g = .ok r) : NonzeroKept g r.apps := by
  rcases run_apps h with hsame | ⟨key, next, hwrite⟩
  · rw [hsame]
    exact .refl g
  · rw [hwrite]
    exact updateState_nonzeroKept g _ _ _

theorem runPackets_nonzeroKept {packets : List FpPacket} {g g' : GApps hash}
    (h : runPackets packets g = .ok g') : NonzeroKept g g' := by
  induction packets generalizing g with
  | nil =>
    obtain rfl := Except.ok.inj h
    exact .refl g
  | cons p packets ih =>
    rw [runPackets, List.foldlM_cons] at h
    cases hrun : p.run g with
    | error fault =>
      rw [hrun] at h
      cases h
    | ok r =>
      rw [hrun] at h
      exact (run_nonzeroKept hrun).trans (ih h)

/-! ## The order of the transitions -/

/-- The transitions that a create message lists. -/
def createdStt (msg : List Byte) : List SttMatchEntry :=
  sttEntries msg (netWordAt msg (itemsEnd msg 4 (intRounds (netWordAt msg 20)) 24)).toNat
    (itemsEnd msg 4 (intRounds (netWordAt msg 20)) 24 + 4)

/-- Every app has the transitions it had before, or it was created by the message and
has those of the message. -/
def SttFrom (msg : List Byte) (g g' : GApps hash) : Prop :=
  ∀ aid app', g'.find aid = some app' → (∃ app, g.find aid = some app ∧ app'.pstt = app.pstt) ∨
    (g.find aid = none ∧ msg[1]? = some ofptypeSfaTableCreate ∧ aid = netWordAt msg 8 ∧
      app'.pstt = createdStt msg)

theorem find_append {g : GApps hash} {app : ControllApp hash} (h : g.find app.appid = none)
    {aid : BitVec 32} {app' : ControllApp hash} (hfind : (g.append app h).find aid = some app') :
    g.find aid = some app' ∨ g.find aid = none ∧ aid = app.appid ∧ app' = app := by
  rw [GApps.find, GApps.append, List.find?_append] at hfind
  cases hold : g.find aid with
  | some x =>
    rw [GApps.find] at hold
    rw [hold] at hfind
    exact .inl hfind
  | none =>
    rw [GApps.find] at hold
    rw [hold, Option.none_or, List.find?_singleton] at hfind
    split at hfind
    · rename_i heq
      exact .inr ⟨rfl, (eq_of_beq heq).symm, (Option.some.inj hfind).symm⟩
    · cases hfind

theorem sttFrom_modify {msg : List Byte} {g : GApps hash} {aid : BitVec 32}
    {f : ControllApp hash → ControllApp hash} (hf : ∀ app, (f app).appid = app.appid)
    (hstt : ∀ app, (f app).pstt = app.pstt) : SttFrom msg g (g.modify aid f hf) := by
  intro id app' hfind
  rw [GApps.find_modify] at hfind
  split at hfind
  · obtain ⟨app, happ, rfl⟩ := Option.map_eq_some_iff.mp hfind
    exact .inl ⟨app, happ, hstt app⟩
  · exact .inl ⟨app', hfind, rfl⟩

theorem sttFrom_refl (msg : List Byte) (g : GApps hash) : SttFrom msg g g :=
  fun _ app' hfind => .inl ⟨app', hfind, rfl⟩

/-- A create message finds its app, or adds one with the entries and transitions it lists. -/
theorem sfaMsgInit_cases {msg : List Byte} (hmsg : msg.length < 65536) {g : GApps hash}
    {r : SfaErr × GApps hash × Nat} (h : sfaMsgInit msg g = .ok r) :
    (∃ app, g.find (netWordAt msg 8) = some app ∧ r.2.1 = g) ∨
      ∃ app : ControllApp hash, app.appid = netWordAt msg 8 ∧ app.pstt = createdStt msg ∧
        (∃ c, initStEntrys msg (intRounds (netWordAt msg 20)) 24 .init =
          .ok (app.pst.stEntrys, c)) ∧
        ∃ hnone : g.find app.appid = none, r.2.1 = g.append app hnone := by
  rw [sfaMsgInit, (net32_gives msg 8).bind_eq_ok] at h
  obtain ⟨-, h⟩ := h
  split at h
  case h_1 app hfind =>
    obtain rfl := Except.ok.inj h
    exact .inl ⟨app, hfind, rfl⟩
  case h_2 hnone =>
    obtain ⟨st, hst⟩ := initStEntrys_gives hmsg (intRounds (netWordAt msg 20)) 24
      (.init : Entries hash StMatchEntry.data)
    rw [(net32_gives msg 20).bind_eq_ok, (net64_gives msg 12).bind_eq_ok, hst.bind_eq_ok,
      (net32_gives msg _).bind_eq_ok, (initSttEntrys_gives msg _ _ []).bind_eq_ok,
      (net32_gives msg _).bind_eq_ok, (net64_gives msg _).bind_eq_ok] at h
    obtain ⟨-, -, hin, -, -, -, -, h⟩ := h
    obtain ⟨tbl, htbl⟩ := initAtEntrys_gives hmsg (intRounds (netWordAt msg (sttEnd msg + 8)))
      (sttEnd msg + 12) (.init : Entries hash AtMatchEntry.data)
    obtain rfl := Except.ok.inj (htbl.bind_eq_ok.mp h).2
    refine .inr ⟨⟨netWordAt msg 8, ⟨_, st⟩, _, ⟨_, tbl⟩⟩, rfl, ?_, ⟨_, hst.yields hin⟩, hnone, rfl⟩
    exact List.nil_append _

theorem sttFrom_sfaMsgInit {msg : List Byte} (hmsg : msg.length < 65536) {g : GApps hash}
    (htype : msg[1]? = some ofptypeSfaTableCreate) {r : SfaErr × GApps hash × Nat}
    (h : sfaMsgInit msg g = .ok r) : SttFrom msg g r.2.1 := by
  rcases sfaMsgInit_cases hmsg h with ⟨-, -, hsame⟩ | ⟨app, hid, hstt, -, hnone, happend⟩
  · rw [hsame]
    exact sttFrom_refl msg g
  · rw [happend]
    intro aid app' hfind
    rcases find_append hnone hfind with hold | ⟨hnew, rfl, rfl⟩
    · exact .inl ⟨app', hold, rfl⟩
    · exact .inr ⟨hnew, htype, hid, hstt⟩

/-- A modification leaves the transitions of the apps as they are. -/
theorem sttFrom_sfaMsgStMod {msg : List Byte} {g : GApps hash} {r : SfaErr × GApps hash × Nat}
    (h : sfaMsgStMod msg g = .ok r) : SttFrom msg g r.2.1 := by
  rcases sfaMsgStMod_cases h with rfl | ⟨app, err, st, cursor, -, -, rfl⟩
  · exact sttFrom_refl msg g
  · exact sttFrom_modify (ControllApp.setSt_appid st) fun _ => rfl

theorem sttFrom_sfaMsgAtMod {msg : List Byte} {g : GApps hash} {r : SfaErr × GApps hash × Nat}
    (h : sfaMsgAtMod msg g = .ok r) : SttFrom msg g r.2.1 := by
  rcases sfaMsgAtMod_cases h with rfl | ⟨app, err, tbl, cursor, -, -, rfl⟩
  · exact sttFrom_refl msg g
  · exact sttFrom_modify (ControllApp.setAt_appid tbl) fun _ => rfl

theorem SfaMessage.length_lt (m : SfaMessage) : m.bytes.length < 65536 := by
  rw [← m.length_eq]
  exact (ohLength m.bytes).isLt

/-- The handler that the type selects has returned the apps. -/
theorem sfaHandlePkt_cases {msg : List Byte} {g : GApps hash} {ret : Int} {g' : GApps hash}
    (h : sfaHandlePkt msg g = .ok (ret, g')) :
    (msg[1]? = some ofptypeSfaTableCreate ∧ ∃ r, sfaMsgInit msg g = .ok r ∧ r.2.1 = g') ∨
      msg[1]? ≠ some ofptypeSfaTableCreate ∧
        ((∃ r, sfaMsgStMod msg g = .ok r ∧ r.2.1 = g') ∨
          (∃ r, sfaMsgAtMod msg g = .ok r ∧ r.2.1 = g') ∨ g = g') := by
  have hmap : ∀ {x : Except Fault (SfaErr × GApps hash × Nat)},
      x.map (fun r => (r.1.returned, r.2.1)) = .ok (ret, g') → ∃ r, x = .ok r ∧ r.2.1 = g' := by
    intro x hx
    obtain ⟨r, hr, heq⟩ := map_eq_ok.mp hx
    exact ⟨r, hr, congrArg Prod.snd heq⟩
  rw [sfaHandlePkt] at h
  split at h
  · cases h
  rename_i type htype
  rw [htype]
  split at h
  · rename_i hcreate
    exact .inl ⟨congrArg some hcreate, hmap h⟩
  rename_i hother
  refine .inr ⟨fun heq => hother (Option.some.inj heq), ?_⟩
  split at h
  · exact .inl (hmap h)
  split at h
  · exact .inr (.inl (hmap h))
  · exact .inr (.inr (congrArg Prod.snd (Except.ok.inj h)))

/-- No message changes the transitions of an app once it is created. -/
theorem sttFrom_sfaHandlePkt (m : SfaMessage) {g : GApps hash} {ret : Int} {g' : GApps hash}
    (h : sfaHandlePkt m.bytes g = .ok (ret, g')) : SttFrom m.bytes g g' := by
  rcases sfaHandlePkt_cases h with ⟨hcreate, r, hr, rfl⟩ | ⟨-, ⟨r, hr, rfl⟩ | ⟨r, hr, rfl⟩ | rfl⟩
  · exact sttFrom_sfaMsgInit m.length_lt hcreate hr
  · exact sttFrom_sfaMsgStMod hr
  · exact sttFrom_sfaMsgAtMod hr
  · exact sttFrom_refl m.bytes g

/-! ## The result -/

/-- A call moves the state it finds as the transition table of the create message says,
and changes nothing else, exactly if all that it reads is there. No state that is
stored becomes 0 in a run. -/
theorem transits_iff_served :
    (∀ (g : GApps hash) (p : FpPacket), Transits g p ↔ Served g p) ∧
      (∀ (packets : List FpPacket) (g g' : GApps hash),
        runPackets packets g = .ok g' → NonzeroKept g g') ∧
      ∀ (m : SfaMessage) (g g' : GApps hash) (ret : Int),
        sfaHandlePkt m.bytes g = .ok (ret, g') → SttFrom m.bytes g g' := by
  refine ⟨fun g p => ⟨?_, transits_of_served⟩, fun packets g g' => runPackets_nonzeroKept,
    fun m g g' ret => sttFrom_sfaHandlePkt m⟩
  rintro ⟨r, hr, -⟩
  exact served_of_returns ⟨r, hr⟩

/-- An app that keeps a state for each source address, moves it from 1 to 2, and whose
action table selects no field. -/
def noActionKey : GApps hashString :=
  GApps.start.append
    { appid := 1
      pst := ⟨0x8000, Entries.init.insert ⟨inetNtoa (htonl 0x0a000001), 1⟩⟩
      pstt := [always 1 2]
      pat := ⟨0, Entries.init⟩ } rfl

/-- The packet finds state 1, is to move it to state 2, and ends the process. -/
theorem found_state_not_moved :
    ((packetFrom 0x0a000001).found noActionKey).map (fun found => found.2.2.lastStatus) = some 1 ∧
      transition (packetFrom 0x0a000001).flow (packetFrom 0x0a000001).tcpFlags 1 [always 1 2] = 2 ∧
        (packetFrom 0x0a000001).run noActionKey = .error .nullPointer :=
  ⟨by decide, by decide, rfl⟩

end Sdpa.Switch
