import Sdpa.Switch.Transitions

/-!
# The verdicts of `xlate_fp`

What `xlate_fp` is to return follows from the keys in the tables. What it returns is
set in one place only, for an action entry that the walk over a hash has reached.
-/
namespace Sdpa.Switch

open Sdpa.Lib.Endian
open Sdpa.Lib.Fallible

variable {hash : Key → BitVec 32}

/-! ## The verdict that the tables call for -/

def SfaAction.drops (act : SfaAction) : Prop := SfaActionType.ofWord act.actype = some .drop

/-- The state that the call computes for a packet. -/
def FpPacket.next (p : FpPacket) (g : GApps hash) : Option (BitVec 32) :=
  (p.found g).map fun (app, _, e) => transition p.flow p.tcpFlags e.lastStatus app.pstt

/-- The app has a state under the packet's match string, and under its match string of
the action table the entry for the state that is computed. -/
def Tabled (g : GApps hash) (p : FpPacket) (x : AtMatchEntry) : Prop :=
  ∃ app key k next, g.find p.aid = some app ∧
    parseMatch p.flow app.pst.matchBitmap = .ok (some key) ∧
    (∃ e ∈ app.pst.stEntrys.entries, e.data = key) ∧
    parseMatch p.flow app.pat.bitmap = .ok (some k) ∧ p.next g = some next ∧
    x ∈ app.pat.atEntrys.entries ∧ x.data = k ∧ x.lastStatus = next

def CallsForDrop (g : GApps hash) (p : FpPacket) : Prop := ∃ x, Tabled g p x ∧ x.act.drops

/-- The call returns 1 if the tables call for a drop, and 0 otherwise. -/
def VerdictFromTables (g : GApps hash) (p : FpPacket) : Prop :=
  ∃ r drop, p.run g = .ok r ∧ r.drop = .ok drop ∧ (drop = true ↔ CallsForDrop g p)

/-- The action entry at which the walk ends is stored under the packet's match string, and no
second one of that string and that state has another verdict. -/
def OwnAction (g : GApps hash) (p : FpPacket) : Prop :=
  ∀ app k next x, g.find p.aid = some app → parseMatch p.flow app.pat.bitmap = .ok (some k) →
    p.next g = some next →
    (app.pat.atEntrys.withHash k).find? (fun x => x.lastStatus == next) = some x →
      x.data = k ∧ ∀ x' ∈ app.pat.atEntrys.entries, x'.data = k → x'.lastStatus = next →
        (x'.act.drops ↔ x.act.drops)

/-! ## The verdict that is returned -/

theorem executeFpActions_drop (fl : Flow) (act : SfaAction) :
    (executeFpActions fl act).2 = true ↔ act.drops := by
  unfold executeFpActions SfaAction.drops
  split <;> rename_i h <;> simp [h]

/-- The walks of the call reach a state, and an action for the state that is computed. -/
def Reaches (g : GApps hash) (p : FpPacket) (x : AtMatchEntry) : Prop :=
  ∃ app key e k, p.found g = some (app, key, e) ∧
    parseMatch p.flow app.pat.bitmap = .ok (some k) ∧
      (app.pat.atEntrys.withHash k).find? (fun x => x.lastStatus ==
        transition p.flow p.tcpFlags e.lastStatus app.pstt) = some x

theorem fpDecide_of_string {fl : Flow} (tcpFlags : BitVec 16) (found : FpFound hash) {k : Key}
    (hk : parseMatch fl found.pat.bitmap = .ok (some k)) :
    fpDecide fl tcpFlags found = .ok
      (match atLookup found.pat.atEntrys k (transition fl tcpFlags found.status found.stt) with
      | none => ⟨transition fl tcpFlags found.status found.stt, fl, .error .noAtEntry⟩
      | some act => ⟨transition fl tcpFlags found.status found.stt, (executeFpActions fl act).1,
          .ok (executeFpActions fl act).2⟩) := by
  simp only [fpDecide, hk, bind, Except.bind, nextState_eq_transition]
  cases atLookup found.pat.atEntrys k (transition fl tcpFlags found.status found.stt) <;> rfl

theorem run_of_reaches {g : GApps hash} {p : FpPacket} {x : AtMatchEntry} (h : Reaches g p x) :
    ∃ r, p.run g = .ok r ∧ r.drop = .ok (executeFpActions p.flow x.act).2 := by
  obtain ⟨app, key, e, k, hfound, hk, hx⟩ := h
  obtain ⟨hfind, hparse, hfirst⟩ := found_eq_some.mp hfound
  have hdecide := fpDecide_of_string p.tcpFlags
    (⟨key, e.lastStatus, app.pstt, app.pat⟩ : FpFound hash) hk
  simp only [atLookup, hx, Option.map_some] at hdecide
  exact ⟨_, FpPacket.run_of_found hfind hparse hfirst hdecide, rfl⟩

/-- A verdict comes from an action entry that was reached. -/
theorem reaches_of_run {g : GApps hash} {p : FpPacket} {r : FpResult hash} {drop : Bool}
    (hrun : p.run g = .ok r) (hdrop : r.drop = .ok drop) : ∃ x, Reaches g p x := by
  have hserved := served_of_returns ⟨r, hrun⟩
  cases hfound : p.found g with
  | none =>
    obtain ⟨why, hnone⟩ := run_of_not_found hserved hfound
    obtain rfl := Except.ok.inj (hnone.symm.trans hrun)
    cases hdrop
  | some found =>
    obtain ⟨app, key, e⟩ := found
    obtain ⟨hfind, hparse, hfirst⟩ := found_eq_some.mp hfound
    obtain ⟨k, hk⟩ :=
      (exists_parseMatch_iff p.flow app.pat.bitmap).mpr (hserved.tbl app key e hfound)
    have hdecide := fpDecide_of_string p.tcpFlags
      (⟨key, e.lastStatus, app.pstt, app.pat⟩ : FpFound hash) hk
    cases hx : (app.pat.atEntrys.withHash k).find? (fun x => x.lastStatus ==
        transition p.flow p.tcpFlags e.lastStatus app.pstt) with
    | some x => exact ⟨x, app, key, e, k, hfound, hk, hx⟩
    | none =>
      simp only [atLookup, hx, Option.map_none] at hdecide
      obtain rfl := Except.ok.inj
        ((FpPacket.run_of_found hfind hparse hfirst hdecide).symm.trans hrun)
      cases hdrop

section

variable {g : GApps hash} {p : FpPacket}

theorem next_of_found {app : ControllApp hash} {key : Key} {e : StMatchEntry}
    (h : p.found g = some (app, key, e)) :
    p.next g = some (transition p.flow p.tcpFlags e.lastStatus app.pstt) := by
  rw [FpPacket.next, h, Option.map_some]

/-- Own entries that are reached are in the tables. -/
theorem Reaches.tabled {x : AtMatchEntry} (h : Reaches g p x) (hst : OwnEntry g p)
    (hat : OwnAction g p) : Tabled g p x := by
  obtain ⟨app, key, e, k, hfound, hk, hx⟩ := h
  obtain ⟨hfind, hparse, hfirst⟩ := found_eq_some.mp hfound
  have hstOf : g.stOf p.aid = some app.pst := by rw [GApps.stOf, hfind, Option.map_some]
  have he : e.data = key := hst app.pst key e hstOf hparse hfirst
  have hnext := next_of_found hfound
  refine ⟨app, key, k, _, hfind, hparse, ⟨e, Entries.mem_of_first hfirst, he⟩, hk, hnext,
    (Entries.mem_withHash.mp (List.mem_of_find?_eq_some hx)).1, ?_, ?_⟩
  · exact (hat app k _ x hfind hk hnext hx).1
  · have hlast := List.find?_some hx
    exact eq_of_beq hlast

/-- Where the tables have entries of the packet, its walks reach some. -/
theorem Tabled.reaches {x : AtMatchEntry} (h : Tabled g p x) : ∃ x', Reaches g p x' := by
  obtain ⟨app, _, k, next, hfind, hparse, ⟨e, he, rfl⟩, hk, hnext, hx, hdata, hlast⟩ := h
  obtain ⟨e', hfirst⟩ := Entries.first_of_mem he
  have hfound := found_eq_some.mpr ⟨hfind, hparse, hfirst⟩
  obtain rfl := Option.some.inj ((next_of_found hfound).symm.trans hnext)
  have hsome : ((app.pat.atEntrys.withHash k).find? (fun x => x.lastStatus ==
      transition p.flow p.tcpFlags e'.lastStatus app.pstt)).isSome = true :=
    List.find?_isSome.mpr ⟨x, Entries.mem_withHash.mpr ⟨hx, by rw [hdata]⟩, beq_iff_eq.mpr hlast⟩
  obtain ⟨x', hx'⟩ := Option.isSome_iff_exists.mp hsome
  exact ⟨x', app, e.data, e', k, hfound, hk, hx'⟩

theorem Reaches.drops_iff {x : AtMatchEntry} (h : Reaches g p x) (hst : OwnEntry g p)
    (hat : OwnAction g p) : x.act.drops ↔ CallsForDrop g p := by
  refine ⟨fun hdrops => ⟨x, h.tabled hst hat, hdrops⟩, ?_⟩
  rintro ⟨x', ⟨app, key, k, next, hfind, -, -, hk, hnext, hx', hdata, hlast⟩, hdrops⟩
  obtain ⟨app', key', e, k', hfound, hk', hx⟩ := h
  obtain rfl := Option.some.inj (hfind.symm.trans (found_eq_some.mp hfound).1)
  obtain rfl : k = k' := Option.some.inj (Except.ok.inj (hk.symm.trans hk'))
  obtain rfl := Option.some.inj (hnext.symm.trans (next_of_found hfound))
  exact ((hat app k _ x hfind hk hnext hx).2 x' hx' hdata hlast).mp hdrops

/-- Where the lookups meet entries of the packet only, the call returns what the tables call for
exactly if there are a state of the packet and an action for the next one. -/
theorem verdictFromTables_iff (hst : OwnEntry g p) (hat : OwnAction g p) :
    VerdictFromTables g p ↔ ∃ x, Tabled g p x := by
  constructor
  · rintro ⟨r, drop, hrun, hdrop, -⟩
    obtain ⟨x, hx⟩ := reaches_of_run hrun hdrop
    exact ⟨x, hx.tabled hst hat⟩
  · rintro ⟨x, hx⟩
    obtain ⟨x', hreach⟩ := hx.reaches
    obtain ⟨r, hrun, hdrop⟩ := run_of_reaches hreach
    exact ⟨r, _, hrun, hdrop,
      (executeFpActions_drop p.flow x'.act).trans (hreach.drops_iff hst hat)⟩

end

def dropThird : ActionTable hashString := ⟨0x20, Entries.init.insert ⟨[48], 3, ⟨2, 0⟩⟩⟩

/-- 10.0.80.246 goes from state 1 to 3, for which its port has a `DROP`. -/
theorem verdictFromTables_iff_dropped :
    VerdictFromTables (oneFlow.withTables [always 1 3] dropThird) (packetFrom 0x0a0050f6) := by
  have hkey : parseMatch (packetFrom 0x0a0050f6).flow 0x8000 =
      .ok (some (inetNtoa (htonl 0x0a0050f6))) := by decide
  have hport : parseMatch (packetFrom 0x0a0050f6).flow 0x20 = .ok (some [48]) := by decide
  have hentries : (dropThird.atEntrys).entries = [⟨[48], 3, ⟨2, 0⟩⟩] := by decide
  refine (verdictFromTables_iff ?_ ?_).mpr ⟨⟨[48], 3, ⟨2, 0⟩⟩, _, _, _, _, rfl, hkey, ?_, hport,
    rfl, ?_, rfl, ?_⟩
  · intro st key e hst hparse hfirst
    obtain rfl := Option.some.inj hst
    obtain rfl := Option.some.inj (Except.ok.inj (hkey.symm.trans hparse))
    obtain rfl := Option.some.inj hfirst
    rfl
  · intro app k next x hfind hk _ hx
    obtain rfl := Option.some.inj hfind
    obtain rfl := Option.some.inj (Except.ok.inj (hport.symm.trans hk))
    have honly : ∀ y ∈ dropThird.atEntrys.entries, y = ⟨[48], 3, ⟨2, 0⟩⟩ := by
      rw [hentries]
      exact fun y hy => List.mem_singleton.mp hy
    obtain rfl := honly x (Entries.mem_withHash.mp (List.mem_of_find?_eq_some hx)).1
    exact ⟨rfl, fun x' hx' _ _ => by rw [honly x' hx']⟩
  · exact ⟨_, List.mem_singleton.mpr rfl, rfl⟩
  · exact hentries ▸ List.mem_singleton.mpr rfl
  · decide

/-- No app yet; an app but none with the number; no state of the packet; no action for
its state: 0 is to be returned each time, and there is no return or no value. -/
theorem verdict_never_set :
    (packetFrom 0x0a000001).run (GApps.start : GApps hashString) = .error .nullPointer ∧
      ((⟨2, (packetFrom 0x0a000001).flow, 0⟩ : FpPacket).run oneFlow).toOption.map FpResult.drop =
        some (.error .noApp) ∧
      ((packetFrom 0x0a000001).run oneFlow).toOption.map FpResult.drop =
        some (.error .noStEntry) ∧
      ((packetFrom 0x0a0050f6).run
        (oneFlow.withTables [always 1 3] noActions)).toOption.map FpResult.drop =
          some (.error .noAtEntry) :=
  ⟨rfl, by decide, by decide, by decide⟩

end Sdpa.Switch
