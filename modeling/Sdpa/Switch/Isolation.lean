import Sdpa.Switch.Hash
import Sdpa.Switch.XlateFp

/-!
# Packets of different flows at the state machine

Two packets that belong to different apps, or that have different match strings in
one app, should not see each other. The state table is searched by hash and keys
are not compared, so a packet can be given the state of another flow. Whether that
can happen depends on the keys in the state table and on nothing else.
-/
namespace Sdpa.Switch

variable {hash : Key → BitVec 32}

/-- A packet at a `goto_fp` instruction. -/
structure FpPacket where
  bitmap : BitVec 8
  flow : Flow
  tcpFlags : BitVec 16

def FpPacket.aid (p : FpPacket) : BitVec 32 := p.bitmap.setWidth 32

def FpPacket.run (p : FpPacket) (g : GApps hash) : Except Fault (FpResult hash) :=
  xlateFp g p.bitmap p.flow p.tcpFlags

def FpPacket.lookup (p : FpPacket) (g : GApps hash) : Except Fault (Except NoValue (FpFound hash)) :=
  fpLookup g p.bitmap p.flow

/-- The state table of an app. -/
def GApps.stOf (g : GApps hash) (aid : BitVec 32) : Option (StatusTable hash) :=
  (g.find aid).map ControllApp.pst

/-- What `parse_match` returns for the state table of the packet's app. -/
def matchString (g : GApps hash) (p : FpPacket) : Option (Except Fault (Option Key)) :=
  (g.stOf p.aid).map fun st => parseMatch p.flow st.matchBitmap

/-- The states stored under a key of an app. -/
def statuses (g : GApps hash) (aid : BitVec 32) (key : Key) : Option (List (BitVec 32)) :=
  (g.stOf aid).map fun st =>
    (st.stEntrys.entries.filter (fun e => e.data == key)).map StMatchEntry.lastStatus

/-- Verdict and header of a packet. -/
abbrev FpOutcome := Flow × Except NoValue Bool

/-- One packet after another. A fault ends the process. -/
def inOrder (g : GApps hash) (p q : FpPacket) : Option (GApps hash × FpOutcome × FpOutcome) :=
  match p.run g with
  | .error _ => none
  | .ok a =>
    match q.run a.apps with
    | .error _ => none
    | .ok b => some (b.apps, (a.flow, a.drop), (b.flow, b.drop))

/-- The packet changes no state stored under a key other than its match string. -/
def KeepsOthers (g : GApps hash) (p : FpPacket) : Prop :=
  ∀ r, p.run g = .ok r → ∀ aid key,
    (aid = p.aid → matchString g p ≠ some (.ok (some key))) →
      statuses r.apps aid key = statuses g aid key

structure Isolated (g : GApps hash) (p q : FpPacket) : Prop where
  order : inOrder g p q = (inOrder g q p).map fun r => (r.1, r.2.2, r.2.1)
  keeps_left : KeepsOthers g p
  keeps_right : KeepsOthers g q

/-- The apps up to their transition and action tables. -/
def statusTables (g : GApps hash) : Bool × List (BitVec 32 × StatusTable hash) :=
  (g.islistinit, g.appslist.map fun app => (app.appid, app.pst))

/-- An entry that the packet's lookup finds is stored under its match string. -/
def OwnEntry (g : GApps hash) (p : FpPacket) : Prop :=
  ∀ st key e, g.stOf p.aid = some st → parseMatch p.flow st.matchBitmap = .ok (some key) →
    st.stEntrys.first key = some e → e.data = key

/-! ## What the tables tell -/

theorem stOf_eq_of_statusTables {g g' : GApps hash} (h : statusTables g' = statusTables g)
    (aid : BitVec 32) : g'.stOf aid = g.stOf aid := by
  have hlist : g'.appslist.map (fun app => (app.appid, app.pst)) =
      g.appslist.map (fun app => (app.appid, app.pst)) := congrArg Prod.snd h
  have hfind : ∀ l : List (ControllApp hash),
      (l.find? (fun app => app.appid == aid)).map ControllApp.pst =
        ((l.map fun app => (app.appid, app.pst)).find? (fun x => x.1 == aid)).map Prod.snd := by
    intro l
    rw [List.find?_map, Option.map_map]
    rfl
  rw [GApps.stOf, GApps.stOf, GApps.find, GApps.find, hfind, hfind, hlist]

theorem OwnEntry.of_statusTables {g g' : GApps hash} {p : FpPacket}
    (h : statusTables g' = statusTables g) (hown : OwnEntry g p) : OwnEntry g' p := by
  intro st key e hst
  rw [stOf_eq_of_statusTables h] at hst
  exact hown st key e hst

theorem matchString_of_statusTables {g g' : GApps hash} (h : statusTables g' = statusTables g)
    (p : FpPacket) : matchString g' p = matchString g p := by
  rw [matchString, matchString, stOf_eq_of_statusTables h]

/-- A state that was found, and where. -/
theorem lookup_eq_ok {g : GApps hash} {p : FpPacket} {found : FpFound hash} :
    p.lookup g = .ok (.ok found) ↔ ∃ app e, g.find p.aid = some app ∧
      parseMatch p.flow app.pst.matchBitmap = .ok (some found.key) ∧
        app.pst.stEntrys.first found.key = some e ∧
          found = ⟨found.key, e.lastStatus, app.pstt, app.pat⟩ := by
  rw [FpPacket.lookup, fpLookup]
  constructor
  · intro h
    split at h
    · cases h
    split at h
    · cases h
    rename_i app hfind
    cases hparse : parseMatch p.flow app.pst.matchBitmap with
    | error f =>
      rw [hparse] at h
      cases h
    | ok m =>
      rw [hparse] at h
      cases m with
      | none => cases h
      | some key =>
        cases hfirst : app.pst.stEntrys.first key with
        | none =>
          simp only [bind, Except.bind, hfirst] at h
          cases h
        | some e =>
          simp only [bind, Except.bind, hfirst] at h
          obtain rfl := Except.ok.inj (Except.ok.inj h)
          exact ⟨app, e, hfind, hparse, hfirst, rfl⟩
  · rintro ⟨app, e, hfind, hparse, hfirst, hfound⟩
    have hinit : g.islistinit = true := GApps.find_isSome_islistinit hfind
    have hid : g.find (p.bitmap.setWidth 32) = some app := hfind
    rw [if_neg (by rw [hinit]; decide), hid]
    simp only [hparse, bind, Except.bind, hfirst]
    rw [hfound]
    rfl

/-- A packet that finds no state leaves without a verdict. -/
theorem FpPacket.run_of_unknown {g : GApps hash} {p : FpPacket} {app : ControllApp hash} {key : Key}
    (hfind : g.find p.aid = some app) (hparse : parseMatch p.flow app.pst.matchBitmap = .ok (some key))
    (hfirst : app.pst.stEntrys.first key = none) :
    p.run g = .ok ⟨g, p.flow, .error .noStEntry⟩ := by
  have hinit : g.islistinit = true := GApps.find_isSome_islistinit hfind
  have hid : g.find (p.bitmap.setWidth 32) = some app := hfind
  have hlookup : fpLookup g p.bitmap p.flow = .ok (.error .noStEntry) := by
    rw [fpLookup, if_neg (by rw [hinit]; decide), hid]
    simp only [hparse, bind, Except.bind, hfirst]
    rfl
  rw [FpPacket.run, xlateFp, hlookup]
  rfl

theorem FpPacket.run_of_found {g : GApps hash} {p : FpPacket} {app : ControllApp hash} {key : Key}
    {e : StMatchEntry} {d : FpDecision} (hfind : g.find p.aid = some app)
    (hparse : parseMatch p.flow app.pst.matchBitmap = .ok (some key))
    (hfirst : app.pst.stEntrys.first key = some e)
    (hdecide : fpDecide p.flow p.tcpFlags (⟨key, e.lastStatus, app.pstt, app.pat⟩ : FpFound hash) =
      .ok d) : p.run g = .ok ⟨updateState g p.aid key d.next, d.flow, d.drop⟩ := by
  have hlookup : p.lookup g = .ok (.ok ⟨key, e.lastStatus, app.pstt, app.pat⟩) :=
    lookup_eq_ok.mpr ⟨app, e, hfind, hparse, hfirst, rfl⟩
  rw [FpPacket.lookup] at hlookup
  rw [FpPacket.run, xlateFp, hlookup]
  simp only [bind, Except.bind, hdecide]
  rfl

theorem OwnEntry.of_lookup {g : GApps hash} {p : FpPacket} {found : FpFound hash}
    (hown : OwnEntry g p) (h : p.lookup g = .ok (.ok found)) :
    ∃ app e, g.find p.aid = some app ∧ app.pst.stEntrys.first found.key = some e ∧
      e.data = found.key := by
  obtain ⟨app, e, hfind, hparse, hfirst, -⟩ := lookup_eq_ok.mp h
  have hst : g.stOf p.aid = some app.pst := by rw [GApps.stOf, hfind]; rfl
  exact ⟨app, e, hfind, hfirst, hown _ _ _ hst hparse hfirst⟩

/-! ## What a stored state changes -/

theorem first_write_of_ne (t : Entries hash StMatchEntry.data) {key k : Key}
    (h : hash key ≠ hash k) (f : StMatchEntry → StMatchEntry) (hf : ∀ e, (f e).data = e.data) :
    (t.write k f hf).first key = t.first key := by
  rw [Entries.first_eq_head, Entries.withHash_write, if_neg h, Entries.first_eq_head]

theorem first_write_none (t : Entries hash StMatchEntry.data) {key : Key} (k : Key)
    (h : t.first key = none) (f : StMatchEntry → StMatchEntry) (hf : ∀ e, (f e).data = e.data) :
    (t.write k f hf).first key = none := by
  rw [Entries.first_eq_head] at h
  have hnil := List.head?_eq_none_iff.mp h
  rw [Entries.first_eq_head, Entries.withHash_write, hnil]
  split <;> rfl

/-- The lookup of a packet sees a stored state only in the entry it finds itself. -/
theorem lookup_writeStatus (g : GApps hash) (p : FpPacket) (aid : BitVec 32) (k : Key)
    (status : BitVec 32)
    (h : p.aid = aid → ∀ found, p.lookup g = .ok (.ok found) → hash found.key ≠ hash k) :
    p.lookup (g.writeStatus aid k status) = p.lookup g := by
  have hfm := GApps.find_modify g aid p.aid (ControllApp.writeStatus k status)
    (ControllApp.writeStatus_appid k status)
  have hfind : (g.writeStatus aid k status).find (p.bitmap.setWidth 32) =
      if p.aid = aid then (g.find p.aid).map (ControllApp.writeStatus k status)
      else g.find p.aid := hfm
  have hid : g.find (p.bitmap.setWidth 32) = g.find p.aid := rfl
  have hinit : (g.writeStatus aid k status).islistinit = g.islistinit := rfl
  by_cases haid : p.aid = aid
  · rw [if_pos haid] at hfind
    cases happ : g.find p.aid with
    | none =>
      rw [happ, Option.map_none] at hfind
      rw [FpPacket.lookup, FpPacket.lookup, fpLookup, fpLookup, hinit, hfind, hid, happ]
    | some app =>
      rw [happ, Option.map_some] at hfind
      rw [FpPacket.lookup, FpPacket.lookup, fpLookup, fpLookup, hinit, hfind, hid, happ]
      have hbitmap : (app.writeStatus k status).pst.matchBitmap = app.pst.matchBitmap := rfl
      simp only [hbitmap]
      cases hparse : parseMatch p.flow app.pst.matchBitmap with
      | error f => rfl
      | ok m =>
        cases m with
        | none => rfl
        | some key =>
          have hfirst : (app.writeStatus k status).pst.stEntrys.first key =
              app.pst.stEntrys.first key := by
            cases hf : app.pst.stEntrys.first key with
            | none => exact first_write_none _ k hf _ (StMatchEntry.setStatus_data status)
            | some e =>
              have hne := h haid ⟨key, e.lastStatus, app.pstt, app.pat⟩
                (lookup_eq_ok.mpr ⟨app, e, happ, hparse, hf, rfl⟩)
              rw [← hf]
              exact first_write_of_ne _ hne _ (StMatchEntry.setStatus_data status)
          simp only [bind, Except.bind, hfirst]
          rfl
  · rw [if_neg haid] at hfind
    rw [FpPacket.lookup, FpPacket.lookup, fpLookup, fpLookup, hinit, hfind, hid]

/-- The packet that finds an entry finds it again, with the state that was stored there. -/
theorem lookup_writeStatus_self {g : GApps hash} {p : FpPacket} {found : FpFound hash}
    (h : p.lookup g = .ok (.ok found)) (status : BitVec 32) :
    p.lookup (g.writeStatus p.aid found.key status) = .ok (.ok { found with status := status }) := by
  obtain ⟨app, e, hfind, hparse, hfirst, hfound⟩ := lookup_eq_ok.mp h
  have hfind' : (g.writeStatus p.aid found.key status).find p.aid =
      some (app.writeStatus found.key status) := by
    rw [GApps.writeStatus, GApps.find_modify, if_pos rfl, hfind]
    rfl
  have hfirst' : (app.writeStatus found.key status).pst.stEntrys.first found.key =
      some (StMatchEntry.setStatus status e) := by
    rw [Entries.first_eq_head] at hfirst
    obtain ⟨l, hl⟩ := List.head?_eq_some_iff.mp hfirst
    change (app.pst.stEntrys.write found.key _ (StMatchEntry.setStatus_data status)).first
      found.key = _
    rw [Entries.first_eq_head, Entries.withHash_write, if_pos rfl, hl]
    rfl
  refine lookup_eq_ok.mpr ⟨_, _, hfind', hparse, hfirst', ?_⟩
  rw [hfound]
  rfl

theorem writeStatus_comm (g : GApps hash) {a₁ a₂ : BitVec 32} {k₁ k₂ : Key}
    (h : a₁ = a₂ → hash k₁ ≠ hash k₂) (s₁ s₂ : BitVec 32) :
    (g.writeStatus a₁ k₁ s₁).writeStatus a₂ k₂ s₂ =
      (g.writeStatus a₂ k₂ s₂).writeStatus a₁ k₁ s₁ := by
  by_cases ha : a₁ = a₂
  · subst ha
    apply GApps.modify_modify_comm
    intro app
    have hst := Entries.write_comm app.pst.stEntrys (h rfl) (StMatchEntry.setStatus_data s₁)
      (StMatchEntry.setStatus_data s₂)
    simp only [ControllApp.writeStatus, ControllApp.setSt, hst]
  · exact GApps.modify_comm g ha _ _

theorem updateState_comm (g : GApps hash) {a₁ a₂ : BitVec 32} {k₁ k₂ : Key}
    (h : a₁ = a₂ → hash k₁ ≠ hash k₂) (s₁ s₂ : BitVec 32) :
    updateState (updateState g a₁ k₁ s₁) a₂ k₂ s₂ =
      updateState (updateState g a₂ k₂ s₂) a₁ k₁ s₁ := by
  unfold updateState
  split <;> split <;> first | rfl | exact writeStatus_comm g h s₁ s₂

def StatusTable.writeStatus (k : Key) (status : BitVec 32) (st : StatusTable hash) :
    StatusTable hash where
  matchBitmap := st.matchBitmap
  stEntrys := st.stEntrys.write k (StMatchEntry.setStatus status)
    (StMatchEntry.setStatus_data status)

theorem stOf_writeStatus (g : GApps hash) (a : BitVec 32) (k : Key) (status aid : BitVec 32) :
    (g.writeStatus a k status).stOf aid =
      if aid = a then (g.stOf aid).map (StatusTable.writeStatus k status) else g.stOf aid := by
  have hfm := GApps.find_modify g a aid (ControllApp.writeStatus k status)
    (ControllApp.writeStatus_appid k status)
  rw [GApps.stOf, GApps.writeStatus, hfm]
  split
  · rw [GApps.stOf, Option.map_map, Option.map_map]
    rfl
  · rfl

/-! ## One packet after the other -/

/-- What a packet stores, and its outcome. -/
structure FpPlan where
  store : Option (Key × BitVec 32)
  outcome : FpOutcome

def FpPacket.plan (p : FpPacket) (g : GApps hash) : Except Fault FpPlan := do
  match ← p.lookup g with
  | .error why => return ⟨none, p.flow, .error why⟩
  | .ok found =>
    let d ← fpDecide p.flow p.tcpFlags found
    return ⟨some (found.key, d.next), d.flow, d.drop⟩

def FpPlan.apply (plan : FpPlan) (aid : BitVec 32) (g : GApps hash) : GApps hash :=
  match plan.store with
  | none => g
  | some (key, next) => updateState g aid key next

theorem run_eq_plan (p : FpPacket) (g : GApps hash) :
    p.run g = (p.plan g).map fun plan =>
      ⟨plan.apply p.aid g, plan.outcome.1, plan.outcome.2⟩ := by
  rw [FpPacket.run, xlateFp, FpPacket.plan, FpPacket.lookup]
  cases fpLookup g p.bitmap p.flow with
  | error f => rfl
  | ok l =>
    cases l with
    | error why => rfl
    | ok found =>
      simp only [bind, Except.bind]
      cases fpDecide p.flow p.tcpFlags found <;> rfl

/-- What a plan stores is stored under the key that was found. -/
theorem store_of_plan {g : GApps hash} {p : FpPacket} {plan : FpPlan} (h : p.plan g = .ok plan) :
    plan.store = none ∨ ∃ found next, p.lookup g = .ok (.ok found) ∧
      plan.store = some (found.key, next) := by
  rw [FpPacket.plan] at h
  cases hl : p.lookup g with
  | error f =>
    rw [hl] at h
    cases h
  | ok l =>
    rw [hl] at h
    cases l with
    | error why =>
      obtain rfl := Except.ok.inj h
      exact .inl rfl
    | ok found =>
      simp only [bind, Except.bind] at h
      cases hd : fpDecide p.flow p.tcpFlags found with
      | error f =>
        rw [hd] at h
        cases h
      | ok d =>
        rw [hd] at h
        obtain rfl := Except.ok.inj h
        exact .inr ⟨found, d.next, rfl, rfl⟩

/-- The entries that the two packets find, if any, have different hashes. -/
def Apart (g : GApps hash) (p q : FpPacket) : Prop :=
  p.aid = q.aid → ∀ found found', p.lookup g = .ok (.ok found) → q.lookup g = .ok (.ok found') →
    hash found.key ≠ hash found'.key

theorem Apart.symm {g : GApps hash} {p q : FpPacket} (h : Apart g p q) : Apart g q p :=
  fun haid found found' hq hp heq => h haid.symm found' found hp hq heq.symm

theorem plan_apply {g : GApps hash} {p q : FpPacket} (hapart : Apart g p q) {plan : FpPlan}
    (hq : q.plan g = .ok plan) : p.plan (plan.apply q.aid g) = p.plan g := by
  have hlookup : p.lookup (plan.apply q.aid g) = p.lookup g := by
    rw [FpPlan.apply]
    obtain hs | ⟨found, next, hfound, hs⟩ := store_of_plan hq
    · rw [hs]
    · rw [hs]
      change p.lookup (updateState g q.aid found.key next) = _
      unfold updateState
      split
      · rfl
      · exact lookup_writeStatus g p q.aid found.key next
          (fun haid found' hp => hapart haid found' found hp hfound)
  rw [FpPacket.plan, FpPacket.plan, hlookup]

theorem inOrder_eq {g : GApps hash} {p q : FpPacket} (hapart : Apart g p q) :
    inOrder g p q = match p.plan g, q.plan g with
      | .ok a, .ok b => some (b.apply q.aid (a.apply p.aid g), a.outcome, b.outcome)
      | _, _ => none := by
  rw [inOrder, run_eq_plan]
  cases hp : p.plan g with
  | error f => rfl
  | ok a =>
    simp only [Except.map]
    rw [run_eq_plan, plan_apply hapart.symm hp]
    cases q.plan g <;> rfl

theorem apply_comm {g : GApps hash} {p q : FpPacket} (hapart : Apart g p q) {a b : FpPlan}
    (hp : p.plan g = .ok a) (hq : q.plan g = .ok b) :
    b.apply q.aid (a.apply p.aid g) = a.apply p.aid (b.apply q.aid g) := by
  unfold FpPlan.apply
  obtain ha | ⟨found, next, hfound, ha⟩ := store_of_plan hp
  · rw [ha]
  · obtain hb | ⟨found', next', hfound', hb⟩ := store_of_plan hq
    · rw [hb]
    · rw [ha, hb]
      exact updateState_comm g (fun haid => hapart haid found found' hfound hfound') next next'

theorem order_of_apart {g : GApps hash} {p q : FpPacket} (hapart : Apart g p q) :
    inOrder g p q = (inOrder g q p).map fun r => (r.1, r.2.2, r.2.1) := by
  rw [inOrder_eq hapart, inOrder_eq hapart.symm]
  cases hp : p.plan g with
  | error f => cases q.plan g <;> rfl
  | ok a =>
    cases hq : q.plan g with
    | error f => rfl
    | ok b => simp only [Option.map_some, apply_comm hapart hp hq]

/-- Different flows that find their own entries find them under different hashes. -/
theorem apart_of_ownEntry {g : GApps hash} {p q : FpPacket} (hp : OwnEntry g p) (hq : OwnEntry g q)
    (hdiff : p.aid = q.aid → matchString g p ≠ matchString g q) : Apart g p q := by
  intro haid found found' hl hl' heq
  obtain ⟨app, e, hfind, hfirst, hdata⟩ := hp.of_lookup hl
  obtain ⟨app', e', hfind', hfirst', hdata'⟩ := hq.of_lookup hl'
  obtain rfl : app = app' := Option.some.inj (by rw [← hfind, ← hfind', haid])
  have hsame : app.pst.stEntrys.first found.key = app.pst.stEntrys.first found'.key :=
    congrArg (hmapFirstWithHash app.pst.stEntrys.map) heq
  rw [hfirst, hfirst'] at hsame
  have hkey : found.key = found'.key := by
    rw [← hdata, ← hdata', Option.some.inj hsame]
  obtain ⟨app₁, -, hf₁, hparse, -⟩ := lookup_eq_ok.mp hl
  obtain ⟨app₂, -, hf₂, hparse', -⟩ := lookup_eq_ok.mp hl'
  apply hdiff haid
  have hm : matchString g p = some (.ok (some found.key)) := by
    rw [matchString, GApps.stOf, hf₁, ← hparse]
    rfl
  have hm' : matchString g q = some (.ok (some found'.key)) := by
    rw [matchString, GApps.stOf, hf₂, ← hparse']
    rfl
  rw [hm, hm', hkey]

/-! ## Other keys -/

theorem matchString_of_lookup {g : GApps hash} {p : FpPacket} {found : FpFound hash}
    (h : p.lookup g = .ok (.ok found)) : matchString g p = some (.ok (some found.key)) := by
  obtain ⟨app, -, hfind, hparse, -⟩ := lookup_eq_ok.mp h
  rw [matchString, GApps.stOf, hfind, ← hparse]
  rfl

theorem filter_write_of_ne (t : Entries hash StMatchEntry.data) {k key : Key} {e : StMatchEntry}
    (hfirst : t.first k = some e) (hne : e.data ≠ key) (status : BitVec 32) :
    (t.write k (StMatchEntry.setStatus status) (StMatchEntry.setStatus_data status)).entries.filter
        (fun e => e.data == key) = t.entries.filter (fun e => e.data == key) := by
  rw [Entries.filter_data_eq, Entries.filter_data_eq, Entries.withHash_write]
  split
  · rename_i hhash
    have hhead : (t.withHash key).head? = some e := by
      rw [← Entries.first_eq_head, ← hfirst]
      exact congrArg (hmapFirstWithHash t.map) hhash
    obtain ⟨l, hl⟩ := List.head?_eq_some_iff.mp hhead
    have hold : (e.data == key) = false := beq_false_of_ne hne
    have hnew : ((StMatchEntry.setStatus status e).data == key) = false := hold
    simp only [hl, List.modifyHead_cons, List.filter_cons, hold, hnew,
      Bool.false_eq_true, if_false]
  · rfl

theorem keepsOthers_of_ownEntry {g : GApps hash} {p : FpPacket} (hown : OwnEntry g p) :
    KeepsOthers g p := by
  intro r hr aid key hother
  rw [run_eq_plan] at hr
  cases hplan : p.plan g with
  | error f =>
    rw [hplan] at hr
    cases hr
  | ok plan =>
    rw [hplan] at hr
    obtain rfl := Except.ok.inj hr
    change statuses (plan.apply p.aid g) aid key = _
    unfold FpPlan.apply
    obtain hs | ⟨found, next, hfound, hs⟩ := store_of_plan hplan
    · rw [hs]
    · obtain ⟨app, e, hfind, hfirst, hdata⟩ := hown.of_lookup hfound
      rw [hs]
      change statuses (updateState g p.aid found.key next) aid key = _
      unfold updateState
      split
      · rfl
      rw [statuses, stOf_writeStatus]
      split
      · rename_i haid
        have hne : e.data ≠ key := by
          rw [hdata]
          rintro rfl
          exact hother haid (matchString_of_lookup hfound)
        have hst : g.stOf aid = some app.pst := by rw [haid, GApps.stOf, hfind]; rfl
        rw [statuses, hst, Option.map_some, Option.map_some, Option.map_some]
        exact congrArg (fun l => some (l.map StMatchEntry.lastStatus))
          (filter_write_of_ne app.pst.stEntrys hfirst hne next)
      · rfl

/-! ## Tables under which a foreign entry shows -/

/-- The same state tables with other transitions and actions. -/
def GApps.withTables (g : GApps hash) (stt : List SttMatchEntry) (pat : ActionTable hash) :
    GApps hash where
  islistinit := g.islistinit
  appslist := g.appslist.map fun app => { app with pstt := stt, pat := pat }
  fresh := by
    intro h
    rw [g.fresh h]
    rfl
  distinct := by
    rw [List.map_map]
    exact g.distinct

theorem statusTables_withTables (g : GApps hash) (stt : List SttMatchEntry)
    (pat : ActionTable hash) : statusTables (g.withTables stt pat) = statusTables g := by
  rw [statusTables, statusTables, GApps.withTables, List.map_map]
  rfl

theorem find_withTables (g : GApps hash) (stt : List SttMatchEntry) (pat : ActionTable hash)
    (aid : BitVec 32) : (g.withTables stt pat).find aid =
      (g.find aid).map fun app => { app with pstt := stt, pat := pat } := by
  rw [GApps.find, GApps.find, GApps.withTables, List.find?_map]
  rfl

/-- A transition that every packet makes. -/
def always (lastStatus curStatus : BitVec 32) : SttMatchEntry :=
  ⟨0, 0, 0, 0, 0, lastStatus, curStatus⟩

/-- An action table without entries, keyed by the input port. -/
def noActions : ActionTable hash := ⟨0x20, .init⟩

theorem parseMatch_inPort (fl : Flow) : ∃ key, parseMatch fl 0x20 = .ok (some key) := by
  have hwd : WellDefined 0x20 := wellDefined_of_forall (by decide)
  have hsel : selected 0x20 ≠ [] := by decide
  rw [parseMatch_eq fl hwd, if_neg hsel]
  exact ⟨_, rfl⟩

/-- Without action entries the verdict is never set. -/
theorem fpDecide_noActions (fl : Flow) (tcpFlags : BitVec 16) (key : Key) (status : BitVec 32)
    (stt : List SttMatchEntry) :
    fpDecide fl tcpFlags (⟨key, status, stt, noActions⟩ : FpFound hash) =
      .ok ⟨nextState fl tcpFlags status stt false, fl, .error .noAtEntry⟩ := by
  obtain ⟨k, hk⟩ := parseMatch_inPort fl
  have hnone : ∀ next, atLookup (noActions : ActionTable hash).atEntrys k next = none := by
    intro next
    rw [atLookup, Entries.withHash_eq_filter]
    change (((Entries.init : Entries hash AtMatchEntry.data).entries.filter _).find? _).map _ = none
    rw [Entries.entries_init]
    rfl
  have hbitmap : (noActions : ActionTable hash).bitmap = 0x20 := rfl
  simp only [fpDecide, hbitmap, hk, bind, Except.bind, hnone]
  rfl

theorem fpDecide_always (fl : Flow) (tcpFlags : BitVec 16) (key : Key) (status other : BitVec 32) :
    fpDecide fl tcpFlags (⟨key, status, [always status other], noActions⟩ : FpFound hash) =
      .ok ⟨other, fl, .error .noAtEntry⟩ := by
  have hevent : (always status other).event fl tcpFlags = true := rfl
  have hnext : nextState fl tcpFlags status [always status other] false = other := by
    rw [nextState, if_pos hevent]
    exact if_pos rfl
  rw [fpDecide_noActions, hnext]

/-- A state other than the given one that is stored. -/
def otherStatus (status : BitVec 32) : BitVec 32 := if status = 1 then 2 else 1

theorem otherStatus_ne (status : BitVec 32) : otherStatus status ≠ status := by
  unfold otherStatus
  split
  · rename_i h
    rw [h]
    decide
  · rename_i h
    exact fun h1 => h h1.symm

theorem otherStatus_ne_zero (status : BitVec 32) : otherStatus status ≠ 0 := by
  unfold otherStatus
  split <;> decide

/-- A packet that finds a foreign entry changes the state stored there, if the
transition table says so. -/
theorem ownEntry_of_keepsOthers {g : GApps hash} {p : FpPacket}
    (h : ∀ g', statusTables g' = statusTables g → KeepsOthers g' p) : OwnEntry g p := by
  intro st key e hst hparse hfirst
  by_contra hne
  obtain ⟨app, hfind, rfl⟩ := Option.map_eq_some_iff.mp hst
  generalize hother : otherStatus e.lastStatus = other
  generalize hg' : g.withTables [always e.lastStatus other] noActions = g'
  have htables : statusTables g' = statusTables g := hg' ▸ statusTables_withTables g _ _
  have hfind' : g'.find p.aid =
      some { app with pstt := [always e.lastStatus other], pat := noActions } := by
    rw [← hg', find_withTables, hfind]
    rfl
  have hlookup : p.lookup g' =
      .ok (.ok ⟨key, e.lastStatus, [always e.lastStatus other], noActions⟩) :=
    lookup_eq_ok.mpr ⟨_, e, hfind', hparse, hfirst, rfl⟩
  have hplan : p.plan g' = .ok ⟨some (key, other), p.flow, .error .noAtEntry⟩ := by
    rw [FpPacket.plan, hlookup]
    simp only [bind, Except.bind, fpDecide_always]
    rfl
  have hrun := run_eq_plan p g'
  rw [hplan] at hrun
  have hstr : matchString g' p = some (.ok (some key)) := matchString_of_lookup hlookup
  have hkeep := h g' htables _ hrun p.aid e.data (fun _ heq => by
    rw [hstr] at heq
    exact hne (Option.some.inj (Except.ok.inj (Option.some.inj heq))).symm)
  -- The entry heads the walk over its hash, with the new state after and the old one before.
  have hmem : e ∈ app.pst.stEntrys.withHash key := by
    rw [Entries.first_eq_head] at hfirst
    exact List.mem_of_mem_head? hfirst
  have hhash : hash e.data = hash key := (Entries.mem_withHash.mp hmem).2
  have hhead : (app.pst.stEntrys.withHash e.data).head? = some e := by
    rw [← Entries.first_eq_head, ← hfirst]
    exact congrArg (hmapFirstWithHash app.pst.stEntrys.map) hhash
  obtain ⟨l, hl⟩ := List.head?_eq_some_iff.mp hhead
  have hst' : g'.stOf p.aid = some app.pst := by rw [stOf_eq_of_statusTables htables, hst]
  have hself : (e.data == e.data) = true := beq_self_eq_true _
  have hself' : ((StMatchEntry.setStatus other e).data == e.data) = true := hself
  have hzero : ¬ other = 0 := hother ▸ otherStatus_ne_zero e.lastStatus
  simp only [FpPlan.apply, updateState, if_neg hzero, statuses, stOf_writeStatus, if_true, hst',
    Option.map_some, StatusTable.writeStatus, Entries.filter_data_eq, Entries.withHash_write,
    hhash, hl, List.modifyHead_cons, List.filter_cons, hself, hself', List.map_cons,
    Option.some.injEq, List.cons.injEq] at hkeep
  exact otherStatus_ne e.lastStatus (hother.trans hkeep.1)

/-- Packets of different flows leave each other alone under all transition and
action tables exactly if each of them finds no entry but its own. -/
theorem isolated_iff_ownEntry {g : GApps hash} {p q : FpPacket}
    (hdiff : p.aid = q.aid → matchString g p ≠ matchString g q) :
    (∀ g', statusTables g' = statusTables g → Isolated g' p q) ↔ OwnEntry g p ∧ OwnEntry g q := by
  constructor
  · intro h
    exact ⟨ownEntry_of_keepsOthers fun g' hg' => (h g' hg').keeps_left,
      ownEntry_of_keepsOthers fun g' hg' => (h g' hg').keeps_right⟩
  · rintro ⟨hp, hq⟩ g' hg'
    have hp' := hp.of_statusTables hg'
    have hq' := hq.of_statusTables hg'
    have hdiff' : p.aid = q.aid → matchString g' p ≠ matchString g' q := by
      rw [matchString_of_statusTables hg', matchString_of_statusTables hg']
      exact hdiff
    exact ⟨order_of_apart (apart_of_ownEntry hp' hq' hdiff'), keepsOthers_of_ownEntry hp',
      keepsOthers_of_ownEntry hq'⟩

/-! ## A collision of `hash_string` -/

/-- A packet of app 1 from an IPv4 address. -/
def packetFrom (src : BitVec 32) : FpPacket where
  bitmap := 1
  flow := fun f => match f with
    | .dlType => htons 0x0800
    | .nwSrc => htonl src
    | _ => 0
  tcpFlags := 0

/-- App 1 keeps a state for each source address, and every packet moves a flow from
state 1 to state 2. -/
def sourceApp (states : Entries hashString StMatchEntry.data) : ControllApp hashString where
  appid := 1
  pst := ⟨0x8000, states⟩
  pstt := [always 1 2]
  pat := ⟨0x20, Entries.init.insert ⟨[48], 2, ⟨3, 0⟩⟩⟩

def sourceApps (states : Entries hashString StMatchEntry.data) : GApps hashString :=
  GApps.start.append (sourceApp states) rfl

/-- 10.0.80.246 is in state 1. -/
def oneFlow : GApps hashString :=
  sourceApps (Entries.init.insert ⟨inetNtoa (htonl 0x0a0050f6), 1⟩)

/-- 10.0.0.1 has no entry, and finds none. -/
theorem isolated_iff_ownEntry_oneFlow :
    Isolated oneFlow (packetFrom 0x0a0050f6) (packetFrom 0x0a000001) := by
  have hown : ∀ p : FpPacket, (∀ st, oneFlow.stOf p.aid = some st → ∀ key,
      parseMatch p.flow st.matchBitmap = .ok (some key) →
        (st.stEntrys.first key).all (fun e => e.data == key) = true) → OwnEntry oneFlow p := by
    intro p h st key e hst hparse hfirst
    have hall := h st hst key hparse
    rw [hfirst] at hall
    exact eq_of_beq hall
  have hst : oneFlow.stOf 1 = some (sourceApp (Entries.init.insert
      ⟨inetNtoa (htonl 0x0a0050f6), 1⟩)).pst := rfl
  refine (isolated_iff_ownEntry (fun _ => by decide)).mpr
    ⟨hown _ fun st h key hparse => ?_, hown _ fun st h key hparse => ?_⟩ oneFlow rfl
  · obtain rfl : _ = st := Option.some.inj (hst.symm.trans h)
    have hkey : parseMatch (packetFrom 0x0a0050f6).flow 0x8000 =
        .ok (some (inetNtoa (htonl 0x0a0050f6))) := by decide
    obtain rfl : _ = key := Option.some.inj (Except.ok.inj (hkey.symm.trans hparse))
    decide
  · obtain rfl : _ = st := Option.some.inj (hst.symm.trans h)
    have hkey : parseMatch (packetFrom 0x0a000001).flow 0x8000 =
        .ok (some (inetNtoa (htonl 0x0a000001))) := by decide
    obtain rfl : _ = key := Option.some.inj (Except.ok.inj (hkey.symm.trans hparse))
    decide

/-- 10.1.121.137 has the hash of 10.0.80.246, and moves its flow to state 2. -/
theorem collision_moves_other_flow :
    matchString oneFlow (packetFrom 0x0a0050f6) ≠ matchString oneFlow (packetFrom 0x0a017989) ∧
      statuses oneFlow 1 (inetNtoa (htonl 0x0a0050f6)) = some [1] ∧
      (∃ r, (packetFrom 0x0a017989).run oneFlow = .ok r ∧ r.drop = .ok false ∧
        statuses r.apps 1 (inetNtoa (htonl 0x0a0050f6)) = some [2]) ∧
      ¬ Isolated oneFlow (packetFrom 0x0a0050f6) (packetFrom 0x0a017989) := by
  have hmatch : matchString oneFlow (packetFrom 0x0a017989) ≠
      some (.ok (some (inetNtoa (htonl 0x0a0050f6)))) := by decide
  have hbefore : statuses oneFlow 1 (inetNtoa (htonl 0x0a0050f6)) = some [1] := by decide
  obtain ⟨r, hrun, hdrop, hafter⟩ : ∃ r, (packetFrom 0x0a017989).run oneFlow = .ok r ∧
      r.drop = .ok false ∧ statuses r.apps 1 (inetNtoa (htonl 0x0a0050f6)) = some [2] :=
    ⟨_, rfl, by decide, by decide⟩
  refine ⟨by decide, hbefore, ⟨r, hrun, hdrop, hafter⟩, fun h => ?_⟩
  have hkeep := h.keeps_right r hrun 1 _ (fun _ => hmatch)
  rw [hbefore, hafter] at hkeep
  exact absurd hkeep (by decide)

end Sdpa.Switch
