import Sdpa.Lib.Histories
import Sdpa.Protocol.StMod
import Sdpa.Switch.Transitions

/-!
# The applications of a switch

What holds of `g_apps` after any messages and packets. The modification of a state
table looks for an entry of the same hash before it adds one, the create message
does not: two of its records with one key give two entries.
-/
namespace Sdpa.Protocol

open Sdpa.Lib.Bins
open Sdpa.Lib.Endian
open Sdpa.Lib.Histories
open Sdpa.Lib.Fallible
open Sdpa.Controller
open Sdpa.Switch

variable {hash : Key → BitVec 32}

/-! ## Runs -/

/-- What changes `g_apps`: a message that `sfa_handle_pkt` takes, and a packet that comes to the
state machine. -/
inductive SwitchEvent
  | message (m : SfaMessage)
  | packet (p : FpPacket)

def SwitchEvent.step (g : GApps hash) : SwitchEvent → Except Fault (GApps hash)
  | .message m => (sfaHandlePkt m.bytes g).map Prod.snd
  | .packet p => (p.run g).map FpResult.apps

def runEvents (events : List SwitchEvent) (g : GApps hash) : Except Fault (GApps hash) :=
  events.foldlM SwitchEvent.step g

/-! ## What holds of the applications -/

/-- The keys of state records, from an offset of a create message on. -/
def stKeys (msg : List Byte) : Nat → Nat → List Key
  | 0, _ => []
  | n + 1, off => keyAt msg (off + 8) (netWordAt msg (off + 4)) ::
      stKeys msg n (off + 8 + (netWordAt msg (off + 4)).toNat)

/-- The keys of the state records that a create message lists. -/
def createdKeys (msg : List Byte) : List Key := stKeys msg (intRounds (netWordAt msg 20)) 24

/-- No two entries of the state table have the same key. -/
def DistinctKeys (t : Entries hash StMatchEntry.data) : Prop :=
  (t.entries.map StMatchEntry.data).Nodup

def KeysDistinct (g : GApps hash) : Prop := ∀ app ∈ g.appslist, DistinctKeys app.pst.stEntrys

structure WellFormed (g : GApps hash) : Prop where
  ids : (g.appslist.map ControllApp.appid).Nodup
  /-- A create message for an identifier that exists changes nothing. -/
  again : ∀ (m : SfaMessage) aid app, m.bytes[1]? = some ofptypeSfaTableCreate →
    net32 m.bytes 8 = .ok aid → g.find aid = some app → sfaHandlePkt m.bytes g = .ok (0, g)
  keys : KeysDistinct g
  /-- One deletion of a key makes its lookup fail. -/
  deleted : ∀ app ∈ g.appslist, ∀ (header : OFMessage) (d : STDATA), 0 ∉ d.buffer →
    (SFAStMod.writeTo (.ofCalls header app.appid [(.del, d)])).length < 65536 →
    Set.InjOn hash (stModKeys app.pst.stEntrys [(.del, d)]) →
      ∃ g' c app', sfaMsgStMod (SFAStMod.writeTo (.ofCalls header app.appid [(.del, d)])) g =
          .ok (.ok, g', c) ∧
        g'.find app.appid = some app' ∧ app'.pst.stEntrys.first d.buffer = none

/-! ## State tables with distinct keys -/

section

variable {t : Entries hash StMatchEntry.data}

theorem first_eq_none {key : Key} :
    t.first key = none ↔ ∀ e ∈ t.entries, hash e.data ≠ hash key := by
  rw [Entries.first_eq_find, List.find?_eq_none]
  simp

theorem DistinctKeys.insert {e : StMatchEntry} (h : DistinctKeys t) (hnew : t.first e.data = none) :
    DistinctKeys (t.insert e) := by
  have hperm : (t.insert e).entries.Perm (e :: t.entries) :=
    Multiset.coe_eq_coe.mp (Entries.entries_insert t e)
  rw [DistinctKeys, (hperm.map StMatchEntry.data).nodup_iff, List.map_cons, List.nodup_cons]
  refine ⟨fun hmem => ?_, h⟩
  obtain ⟨x, hx, hdata⟩ := List.mem_map.mp hmem
  exact first_eq_none.mp hnew x hx (by rw [hdata])

theorem DistinctKeys.write (h : DistinctKeys t) (key : Key) (status : BitVec 32) :
    DistinctKeys (t.write key (StMatchEntry.setStatus status)
      (StMatchEntry.setStatus_data status)) := by
  rw [DistinctKeys, Entries.entries_write, map_modifyFirst _ (StMatchEntry.setStatus_data status)]
  exact h

theorem count_key (t : Entries hash StMatchEntry.data) (key : Key) :
    (t.entries.map StMatchEntry.data).count key =
      (t.withHash key).countP (fun e => e.data == key) := by
  rw [List.countP_eq_length_filter, ← Entries.filter_data_eq, ← List.countP_eq_length_filter,
    List.count, List.countP_map]
  rfl

theorem DistinctKeys.remove (h : DistinctKeys t) (key : Key) : DistinctKeys (t.remove key) := by
  rw [DistinctKeys, List.nodup_iff_count_le_one] at h ⊢
  intro k
  refine le_trans ?_ (h k)
  rw [count_key, count_key, Entries.withHash_remove]
  split
  · exact (List.tail_sublist _).countP_le
  · exact le_rfl

theorem DistinctKeys.distinctHashes (h : DistinctKeys t)
    (hinj : Set.InjOn hash {key | ∃ e ∈ t.entries, e.data = key}) : DistinctHashes t := by
  have hmap : t.entries.map (fun e => hash e.data) = (t.entries.map StMatchEntry.data).map hash := by
    rw [List.map_map]
    rfl
  rw [DistinctHashes, hmap]
  refine List.Nodup.map_on ?_ h
  intro x hx y hy hxy
  exact hinj (List.mem_map.mp hx) (List.mem_map.mp hy) hxy

/-- The deletion of a key leaves no entry with its hash. -/
theorem DistinctKeys.first_del {d : STDATA} (h : DistinctKeys t)
    (hinj : Set.InjOn hash {key | ∃ e ∈ t.entries, e.data = key}) :
    (applyStItem t (.del, d)).first d.buffer = none := by
  unfold applyStItem
  cases hfirst : t.first d.buffer with
  | none => exact hfirst
  | some e =>
    have hmem : e ∈ t.withHash d.buffer := by
      rw [Entries.first_eq_head] at hfirst
      exact List.mem_of_head? hfirst
    obtain ⟨he, hhash⟩ := Entries.mem_withHash.mp hmem
    have hlen := (distinctHashes_iff t).mp (h.distinctHashes hinj) e he
    have hsame : t.withHash e.data = t.withHash d.buffer := by
      rw [Entries.withHash_eq_filter, Entries.withHash_eq_filter, hhash]
    rw [hsame] at hlen
    have htail : (t.withHash d.buffer).tail = [] :=
      List.length_eq_zero_iff.mp (by rw [List.length_tail]; omega)
    show (t.remove d.buffer).first d.buffer = none
    rw [Entries.first_eq_head, Entries.withHash_remove, if_pos rfl, htail]
    rfl

end

/-! ## The loops of the handlers -/

/-- What one item can do to the state table. -/
theorem stModItem_cases {msg : List Byte} {cursor c : Nat} {err : SfaErr}
    {t t' : Entries hash StMatchEntry.data} (h : stModItem msg cursor t = .ok (err, t', c)) :
    t' = t ∨ (∃ e, t.first e.data = none ∧ t' = t.insert e) ∨
      (∃ key status, t' = t.write key (StMatchEntry.setStatus status)
        (StMatchEntry.setStatus_data status)) ∨ ∃ key, t' = t.remove key := by
  rw [stModItem, (net32_gives msg cursor).bind_eq_ok] at h
  obtain ⟨-, h⟩ := h
  split at h
  · rw [(net32_gives msg _).bind_eq_ok, (net32_gives msg _).bind_eq_ok,
      (copyKey_gives' msg _ _ _).bind_eq_ok] at h
    obtain ⟨-, -, -, h⟩ := h
    split at h
    · cases h
      exact .inl rfl
    · rename_i hfirst
      cases h
      exact .inr (.inl ⟨⟨keyAt msg (cursor + 12) (netWordAt msg (cursor + 8)),
        netWordAt msg (cursor + 4)⟩, hfirst, rfl⟩)
  split at h
  · rw [(net32_gives msg _).bind_eq_ok, (net32_gives msg _).bind_eq_ok,
      (copyKey_gives' msg _ _ _).bind_eq_ok] at h
    obtain ⟨-, -, -, h⟩ := h
    split at h
    · cases h
      exact .inl rfl
    · cases h
      exact .inr (.inr (.inl ⟨_, _, rfl⟩))
  split at h
  · rw [(net32_gives msg _).bind_eq_ok, (copyKey_gives' msg _ _ _).bind_eq_ok] at h
    obtain ⟨-, -, h⟩ := h
    split at h
    · cases h
      exact .inl rfl
    · cases h
      exact .inr (.inr (.inr ⟨_, rfl⟩))
  · cases h
    exact .inl rfl

theorem stModItem_distinct {msg : List Byte} {cursor c : Nat} {err : SfaErr}
    {t t' : Entries hash StMatchEntry.data} (h : stModItem msg cursor t = .ok (err, t', c))
    (hd : DistinctKeys t) : DistinctKeys t' := by
  rcases stModItem_cases h with rfl | ⟨e, hnew, rfl⟩ | ⟨key, status, rfl⟩ | ⟨key, rfl⟩
  · exact hd
  · exact hd.insert hnew
  · exact hd.write key status
  · exact hd.remove key

/-- What every item keeps, the loop keeps. -/
theorem modItems_keeps {T : Type} {item : Nat → T → Except Fault (SfaErr × T × Nat)} {P : T → Prop}
    (hitem : ∀ cursor t err t' c, item cursor t = .ok (err, t', c) → P t → P t') {n cursor : Nat}
    {t : T} {err : SfaErr} {t' : T} {c : Nat} (h : modItems item n cursor t = .ok (err, t', c))
    (ht : P t) : P t' := by
  induction n generalizing cursor t with
  | zero =>
    obtain ⟨-, rfl, -⟩ : SfaErr.ok = err ∧ t = t' ∧ cursor = c := by simpa [modItems] using h
    exact ht
  | succ n ih =>
    rw [modItems] at h
    cases hi : item cursor t with
    | error f =>
      rw [hi] at h
      cases h
    | ok r =>
      obtain ⟨e, t₁, c₁⟩ := r
      rw [hi] at h
      have ht₁ := hitem cursor t e t₁ c₁ hi ht
      cases e with
      | ok => exact ih h ht₁
      | error =>
        cases h
        exact ht₁

/-- The entries that the records of a create message add. -/
theorem initStEntrys_keys {msg : List Byte} (hmsg : msg.length < 65536) {n off c : Nat}
    {t t' : Entries hash StMatchEntry.data} (h : initStEntrys msg n off t = .ok (t', c)) :
    (t'.entries.map StMatchEntry.data).Perm (stKeys msg n off ++ t.entries.map StMatchEntry.data) := by
  induction n generalizing off t with
  | zero =>
    obtain ⟨rfl, -⟩ : t = t' ∧ off = c := by simpa [initStEntrys] using h
    exact List.Perm.refl _
  | succ n ih =>
    rw [initStEntrys, (net32_gives msg off).bind_eq_ok, (net32_gives msg (off + 4)).bind_eq_ok,
      (copyKey_gives hmsg (off + 8) _).bind_eq_ok] at h
    obtain ⟨-, -, -, h⟩ := h
    have hinsert : ∀ e, ((t.insert e).entries.map StMatchEntry.data).Perm
        (e.data :: t.entries.map StMatchEntry.data) := fun e =>
      (Multiset.coe_eq_coe.mp (Entries.entries_insert t e)).map StMatchEntry.data
    refine (ih h).trans ?_
    rw [stKeys]
    exact ((hinsert _).append_left _).trans List.perm_middle

/-! ## The handlers -/

theorem KeysDistinct.modify {g : GApps hash} (h : KeysDistinct g) {aid : BitVec 32}
    {f : ControllApp hash → ControllApp hash} (hf : ∀ app, (f app).appid = app.appid)
    (hkeys : ∀ app ∈ g.appslist, app.appid = aid → DistinctKeys (f app).pst.stEntrys) :
    KeysDistinct (g.modify aid f hf) := by
  intro app happ
  rcases mem_modifyFirst happ with hold | ⟨old, hold, hid, rfl⟩
  · exact h app hold
  · exact hkeys old hold (eq_of_beq hid)

theorem keysDistinct_sfaMsgStMod {msg : List Byte} {g : GApps hash}
    {r : SfaErr × GApps hash × Nat} (h : sfaMsgStMod msg g = .ok r) (hd : KeysDistinct g) :
    KeysDistinct r.2.1 := by
  rcases sfaMsgStMod_cases h with rfl | ⟨app, err, st, c, hfind, hitems, rfl⟩
  · exact hd
  · have hst : DistinctKeys st := modItems_keeps (fun _ _ _ _ _ => stModItem_distinct) hitems
      (hd app (List.mem_of_find?_eq_some hfind))
    exact hd.modify (ControllApp.setSt_appid st) fun _ _ _ => hst

theorem keysDistinct_sfaMsgAtMod {msg : List Byte} {g : GApps hash}
    {r : SfaErr × GApps hash × Nat} (h : sfaMsgAtMod msg g = .ok r) (hd : KeysDistinct g) :
    KeysDistinct r.2.1 := by
  rcases sfaMsgAtMod_cases h with rfl | ⟨app, err, tbl, c, -, -, rfl⟩
  · exact hd
  · exact hd.modify (ControllApp.setAt_appid tbl) fun app happ _ => hd app happ

theorem keysDistinct_run {g : GApps hash} {p : FpPacket} {r : FpResult hash}
    (h : p.run g = .ok r) (hd : KeysDistinct g) : KeysDistinct r.apps := by
  rcases run_apps h with hsame | ⟨key, next, hwrite⟩
  · rw [hsame]
    exact hd
  · rw [hwrite, updateState]
    split
    · exact hd
    · exact hd.modify (ControllApp.writeStatus_appid _ _) fun app happ _ => (hd app happ).write _ _

/-- A create message for a new identifier adds an app with the keys that it lists. -/
theorem sfaMsgInit_keys {msg : List Byte} (hmsg : msg.length < 65536) {g : GApps hash}
    {r : SfaErr × GApps hash × Nat} (h : sfaMsgInit msg g = .ok r) :
    (∃ app, g.find (netWordAt msg 8) = some app ∧ r.2.1 = g) ∨
      g.find (netWordAt msg 8) = none ∧ ∃ app, r.2.1.appslist = g.appslist ++ [app] ∧
        (app.pst.stEntrys.entries.map StMatchEntry.data).Perm (createdKeys msg) := by
  rcases sfaMsgInit_cases hmsg h with ⟨app, hfind, hsame⟩ | ⟨app, hid, -, ⟨c, hst⟩, hnone, happend⟩
  · exact .inl ⟨app, hfind, hsame⟩
  · refine .inr ⟨hid ▸ hnone, app, by rw [happend]; rfl, ?_⟩
    have hkeys := initStEntrys_keys hmsg hst
    rwa [Entries.entries_init, List.map_nil, List.append_nil] at hkeys

/-! ## Runs from no apps -/

/-- The message is to create an app. -/
def Creates (g : GApps hash) (m : SfaMessage) : Prop :=
  m.bytes[1]? = some ofptypeSfaTableCreate ∧ g.find (netWordAt m.bytes 8) = none

theorem keysDistinct_sfaMsgInit_iff {m : SfaMessage} {g : GApps hash}
    (htype : m.bytes[1]? = some ofptypeSfaTableCreate) {r : SfaErr × GApps hash × Nat}
    (h : sfaMsgInit m.bytes g = .ok r) (hd : KeysDistinct g) :
    KeysDistinct r.2.1 ↔ (Creates g m → (createdKeys m.bytes).Nodup) := by
  rcases sfaMsgInit_keys m.length_lt h with ⟨app, hfind, hsame⟩ | ⟨hnone, app, happs, hkeys⟩
  · rw [hsame]
    refine ⟨fun _ hcreates => ?_, fun _ => hd⟩
    rw [hcreates.2] at hfind
    cases hfind
  · constructor
    · intro hdistinct _
      have happ : app ∈ r.2.1.appslist := happs ▸ List.mem_append_right _ List.mem_cons_self
      exact hkeys.nodup_iff.mp (hdistinct app happ)
    · intro hnodup x hx
      rw [happs] at hx
      rcases List.mem_append.mp hx with hold | hnew
      · exact hd x hold
      · rw [List.mem_singleton.mp hnew]
        exact hkeys.nodup_iff.mpr (hnodup ⟨htype, hnone⟩)

/-- A step keeps the keys distinct exactly if it does not create an app from records of which
two have the same key. -/
theorem keysDistinct_step_iff {e : SwitchEvent} {g g' : GApps hash} (h : e.step g = .ok g')
    (hd : KeysDistinct g) :
    KeysDistinct g' ↔ ∀ m, e = .message m → Creates g m → (createdKeys m.bytes).Nodup := by
  cases e with
  | packet p =>
    obtain ⟨r, hr, rfl⟩ := map_eq_ok.mp h
    refine ⟨fun _ m hm => ?_, fun _ => keysDistinct_run hr hd⟩
    cases hm
  | message m =>
    obtain ⟨⟨ret, g'⟩, hpkt, rfl⟩ := map_eq_ok.mp h
    have hone : (∀ m', SwitchEvent.message m = .message m' → Creates g m' →
        (createdKeys m'.bytes).Nodup) ↔ (Creates g m → (createdKeys m.bytes).Nodup) := by
      refine ⟨fun hall => hall m rfl, fun hm m' heq => ?_⟩
      obtain rfl := SwitchEvent.message.inj heq
      exact hm
    rw [hone]
    rcases sfaHandlePkt_cases hpkt with ⟨hcreate, r, hr, rfl⟩ | ⟨hother, hrest⟩
    · exact keysDistinct_sfaMsgInit_iff hcreate hr hd
    refine ⟨fun _ hcreates => absurd hcreates.1 hother, fun _ => ?_⟩
    rcases hrest with ⟨r, hr, rfl⟩ | ⟨r, hr, rfl⟩ | rfl
    · exact keysDistinct_sfaMsgStMod hr hd
    · exact keysDistinct_sfaMsgAtMod hr hd
    · exact hd

theorem wellFormed_iff_keysDistinct {g : GApps hash} : WellFormed g ↔ KeysDistinct g := by
  refine ⟨fun h => h.keys, fun h => ⟨g.distinct, ?_, h, ?_⟩⟩
  · intro m aid app htype haid hfind
    have hinit : sfaMsgInit m.bytes g = .ok (.ok, g, 24) := by
      simp only [sfaMsgInit, haid, bind, Except.bind]
      split
      · rfl
      · rename_i hnone
        rw [hfind] at hnone
        cases hnone
    rw [sfaHandlePkt, htype]
    simp only [if_true, hinit]
    rfl
  · intro app happ header d hn hlen hinj
    have hfind := GApps.find_of_mem happ
    have hresult := sfaMsgStMod_written hfind header [(.del, d)] (.inl (by simp))
      (by simpa using hn) hlen
    refine ⟨_, _, app.setSt (applyStItem app.pst.stEntrys (.del, d)), hresult, ?_, ?_⟩
    · rw [GApps.find_modify, if_pos rfl, hfind]
      rfl
    · exact (h app happ).first_del (hinj.mono fun key hkey => Or.inl hkey)

theorem runEvents_concat (past : List SwitchEvent) (e : SwitchEvent) (g : GApps hash) :
    runEvents (past ++ [e]) g = (runEvents past g >>= fun g' => e.step g') := by
  rw [runEvents, List.foldlM_append]
  simp only [List.foldlM_cons, List.foldlM_nil, bind_pure]
  rfl

/-- The apps are well formed after every event of a run, if and only if no create message for a
new identifier lists a key twice. -/
theorem wellFormed_iff {events : List SwitchEvent} {final : GApps hash}
    (hrun : runEvents events GApps.start = .ok final) :
    (∀ past future, events = past ++ future →
      ∀ g : GApps hash, runEvents past GApps.start = .ok g → WellFormed g) ↔
    AtEach (fun past e => ∀ g : GApps hash, runEvents past GApps.start = .ok g →
      ∀ m, e = .message m → Creates g m → (createdKeys m.bytes).Nodup) events := by
  refine stages_iff_atEach ?_ ?_
  · intro g hg
    obtain rfl := Except.ok.inj hg
    exact wellFormed_iff_keysDistinct.mpr fun app happ => by cases happ
  · intro past e future hsplit hpast
    obtain ⟨g, hg, g', hstep⟩ : ∃ g, runEvents past GApps.start = .ok g ∧
        ∃ g' : GApps hash, e.step g = .ok g' := by
      rw [hsplit, runEvents, List.foldlM_append] at hrun
      obtain ⟨g, hg, hrest⟩ := bind_eq_ok.mp hrun
      obtain ⟨g', hstep, -⟩ := bind_eq_ok.mp hrest
      exact ⟨g, hg, g', hstep⟩
    have hnext : runEvents (past ++ [e]) GApps.start = .ok g' := by
      rw [runEvents_concat, hg]
      exact hstep
    have hiff := keysDistinct_step_iff hstep (hpast g hg).keys
    simp only [hg, hnext, Except.ok.injEq, forall_eq', wellFormed_iff_keysDistinct]
    exact hiff

/-- A create message for app 1 with two state records, whose keys are the two bytes. -/
def twoRecords (key₁ key₂ : Byte) : SfaMessage where
  bytes := [4, 90, 0, 58, 0, 0, 0, 0] ++ ([0, 0, 0, 1] ++ List.replicate 8 0 ++ [0, 0, 0, 2]) ++
    [0, 0, 0, 1, 0, 0, 0, 1, key₁] ++ [0, 0, 0, 2, 0, 0, 0, 1, key₂] ++ [0, 0, 0, 0] ++
    (List.replicate 8 0 ++ [0, 0, 0, 0])
  length_eq := by
    have hfield : ∀ rest, (ohLength (4 :: 90 :: 0 :: 58 :: rest)).toNat = 58 := by
      intro rest
      simp only [ohLength, List.drop, List.take]
      decide
    exact hfield _
  header := by simp
  sfaType := .inl rfl

/-- Two different keys, and the same message once more. -/
theorem wellFormed_two_keys :
    ∃ final : GApps hashString,
      runEvents [.message (twoRecords 0x31 0x32), .message (twoRecords 0x31 0x32)] GApps.start =
        .ok final ∧
      ∀ past future,
        [.message (twoRecords 0x31 0x32), .message (twoRecords 0x31 0x32)] = past ++ future →
        ∀ g : GApps hashString, runEvents past GApps.start = .ok g → WellFormed g := by
  obtain ⟨final, hrun⟩ : ∃ final : GApps hashString,
    runEvents [.message (twoRecords 0x31 0x32), .message (twoRecords 0x31 0x32)] GApps.start =
      .ok final := ⟨_, rfl⟩
  refine ⟨final, hrun, (wellFormed_iff hrun).mpr ?_⟩
  rintro past e future hsplit g - m rfl -
  have hmem : SwitchEvent.message m ∈
      [SwitchEvent.message (twoRecords 0x31 0x32), .message (twoRecords 0x31 0x32)] :=
    hsplit ▸ List.mem_append_right past List.mem_cons_self
  obtain rfl : m = twoRecords 0x31 0x32 := by simpa using hmem
  decide

/-- One key in two records: the state table has two entries for it, and the lookup still finds a
state after the deletion. -/
theorem key_listed_twice :
    Set.InjOn hashString {[0x31]} ∧
    ∃ g : GApps hashString, runEvents [.message (twoRecords 0x31 0x31)] GApps.start = .ok g ∧
      ¬ WellFormed g ∧
      ∃ g' c app', sfaMsgStMod (SFAStMod.writeTo (.ofCalls {} 1 [(.del, STDATA.new 0 [0x31])])) g =
        .ok (.ok, g', c) ∧ g'.find 1 = some app' ∧ app'.pst.stEntrys.first [0x31] ≠ none := by
  refine ⟨Set.injOn_singleton hashString [0x31], _, rfl, fun hwf => ?_, _, _, _, rfl, rfl, ?_⟩
  · have hkeys := hwf.keys _ List.mem_cons_self
    revert hkeys
    unfold DistinctKeys
    decide
  · decide

end Sdpa.Protocol
