import Sdpa.Switch.Handlers
import Sdpa.Switch.Megaflow

/-!
# The cache of the datapath

`handle_upcalls` installs what it has translated. From then on the datapath serves
the packets that match the entry; the state machines do not see them, and no address
is learned from them. Runs with the cache are compared with runs in which every packet
is translated.
-/
namespace Sdpa.Switch

open Sdpa.Lib.Masks Sdpa.Lib.Simulation

/-! ## Entries -/

def allFields : List FlowField :=
  [.tunId, .tunSrc, .tunDst, .tunFlags, .tunTos, .tunTtl, .metadata, .skbPriority, .pktMark,
    .inPort, .dlSrc, .dlDst, .dlType, .vlanTci, .mplsLse, .ipv6Src, .ipv6Dst, .ndTarget,
    .ipv6Label, .nwSrc, .nwDst, .nwFrag, .nwTos, .nwTtl, .nwProto, .arpSha, .arpTha, .tcpFlags,
    .tpSrc, .tpDst] ++ (List.finRange 8).map FlowField.reg

theorem mem_allFields (f : FlowField) : f ∈ allFields := by
  cases f
  case reg i =>
    exact List.mem_append_right _ (List.mem_map.mpr ⟨i, List.mem_finRange i, rfl⟩)
  all_goals decide

instance (m a b : Flow) : Decidable (m.AgreeOn a b) :=
  decidable_of_iff (∀ f ∈ allFields, Lib.Masks.AgreeOn (m f) (a f) (b f))
    ⟨fun h f => h f (mem_allFields f), fun h f _ => h f⟩

instance (m m' : Flow) : Decidable (m.Within m') :=
  decidable_of_iff (∀ f ∈ allFields, Lib.Masks.Within (m f) (m' f))
    ⟨fun h f => h f (mem_allFields f), fun h f _ => h f⟩

/-- A flow of the datapath: the packet it was made for, the bits that have to match,
and what is done. -/
structure CacheEntry where
  key : Flow
  mask : Flow
  actions : List OdpAction

def CacheEntry.Hit (e : CacheEntry) (fl : Flow) : Prop := e.mask.AgreeOn e.key fl

instance (e : CacheEntry) (fl : Flow) : Decidable (e.Hit fl) :=
  inferInstanceAs (Decidable (e.mask.AgreeOn e.key fl))

/-- A lookup finds an entry that the packet matches, if there is one. Which one is up
to the order in which the datapath tries its masks. -/
structure Datapath where
  find : List CacheEntry → Flow → Option CacheEntry
  found : ∀ {entries fl e}, find entries fl = some e → e ∈ entries ∧ e.Hit fl
  missed : ∀ {entries fl}, find entries fl = none → ∀ e ∈ entries, ¬ e.Hit fl

/-- The entries in the order of their installation. -/
def inOrderOfInstallation : Datapath where
  find := fun entries fl => entries.find? fun e => decide (e.Hit fl)
  found := fun h => ⟨List.mem_of_find?_eq_some h, of_decide_eq_true (List.find?_some h :)⟩
  missed := fun h e he => of_decide_eq_false (by simpa using List.find?_eq_none.mp h e he)

/-! ## Runs -/

variable {hash : Key → BitVec 32}

structure CacheState (hash : Key → BitVec 32) where
  entries : List CacheEntry
  shared : Shared hash

section runs

variable (datapath : Datapath) (undetermined : NoValue → Bool) (env : Env) (xbridge : Nat)

/-- A packet that finds an entry gets its actions. Any other one is translated, and
what results is installed unless the packet takes the slow path. -/
def cachedPacket (s : CacheState hash) (fl : Flow) :
    Except Fault (List OdpAction × CacheState hash) :=
  match datapath.find s.entries fl with
  | some e => .ok (e.actions, s)
  | none => do
    let r ← xlate undetermined env (missIn xbridge fl) s.shared
    let entries := if r.2.slow.any then s.entries else s.entries ++ [⟨fl, r.2.wc, r.2.odp⟩]
    return (r.2.odp, ⟨entries, r.1⟩)

def cachedRun (s : CacheState hash) : List Flow →
    Except Fault (List (List OdpAction) × CacheState hash)
  | [] => .ok ([], s)
  | fl :: rest => do
    let r ← cachedPacket datapath undetermined env xbridge s fl
    let r' ← cachedRun r.2 rest
    return (r.1 :: r'.1, r'.2)

/-- Every packet is translated. -/
def translatedRun (s : Shared hash) : List Flow →
    Except Fault (List (List OdpAction) × Shared hash)
  | [] => .ok ([], s)
  | fl :: rest => do
    let r ← xlate undetermined env (missIn xbridge fl) s
    let r' ← translatedRun r.1 rest
    return (r.2.odp :: r'.1, r'.2)

/-- A switch without state machines. -/
def macEffects : Effects Macs where
  gotoFp := fun _ => throw .assertion
  learn := fun xbridge input view macs => .ok (learnMac true xbridge input view macs)

/-- The entry as a revalidation would find it: its packet reaches no `goto_fp`, and with the
addresses known now it is translated as before, and nothing is learned from it. -/
def CacheEntry.upToDate (e : CacheEntry) (macs : Macs) : Bool :=
  match xlateActions env (missIn xbridge e.key) macEffects macs with
  | .ok (macs', out) =>
    decide (macs' = macs) && decide (out.odp = e.actions) && decide (out.wc.Within e.mask)
  | .error _ => false

/-- Whenever a packet is served from an entry, the entry is up to date. -/
def hitsUpToDate (s : CacheState hash) : List Flow → Bool
  | [] => true
  | fl :: rest =>
    (datapath.find s.entries fl).all (fun e => e.upToDate env xbridge s.shared.macs) &&
      match cachedPacket datapath undetermined env xbridge s fl with
      | .ok r => hitsUpToDate r.2 rest
      | .error _ => true

end runs

/-! ## Transparency -/

section transparency

variable {datapath : Datapath} {undetermined : NoValue → Bool} {env : Env} {xbridge : Nat}

/-- Entries are made for packets that have arrived. -/
structure Installed (e : CacheEntry) : Prop where
  extracted : Extracted e.key
  complete : Complete e.key

/-- Without a `goto_fp`, the switch does what a switch without state machines does. -/
theorem sim_macEffects {W p' q' : Flow} {xin : XlateIn} (hlearn : xin.mayLearn = true)
    (apps : GApps hash) :
    SimEffects (maskSpec W p' q' fun macs s => s = ⟨apps, macs⟩) macEffects
      (switchEffects undetermined xin) := by
  refine ⟨fun _ => Sim.excused trivial, fun xbridge input view => onState_masked ?_⟩
  rintro macs _ r rfl hr
  obtain rfl := Except.ok.inj hr
  refine ⟨⟨apps, (learnMac true xbridge input view macs).2⟩, ?_, rfl⟩
  rw [switchEffects, hlearn]

/-- An entry that is up to date is right about every packet. -/
theorem hit_translated (hE : SafeEnv env) {e : CacheEntry} (he : Installed e) {s : Shared hash}
    (hdate : e.upToDate env xbridge s.macs = true) {fl : Flow} (hfl : Extracted fl)
    (hhit : e.Hit fl) :
    ∃ out, xlate undetermined env (missIn xbridge fl) s = .ok (s, out) ∧ out.odp = e.actions := by
  unfold CacheEntry.upToDate at hdate
  cases hr : xlateActions env (missIn xbridge e.key) macEffects s.macs with
  | error f =>
    rw [hr] at hdate
    cases hdate
  | ok r =>
    obtain ⟨macs', out⟩ := r
    simp only [hr, Bool.and_eq_true, decide_eq_true_eq] at hdate
    obtain ⟨⟨rfl, hactions⟩, hmask⟩ := hdate
    have hag : out.wc.AgreeOn e.key fl := fun f => (hhit f).mono (hmask f)
    have hfx (W fl : Flow) (_ : W.AgreeOn e.key fl) (p' q' : Flow) :
        SimEffects (maskSpec W p' q' fun macs s' => s' = ⟨s.apps, macs⟩) macEffects
          (switchEffects undetermined (missIn xbridge fl)) := sim_macEffects rfl s.apps
    obtain ⟨_, out', hrun, rfl, hodp, _⟩ :=
      xlateActions_twin hE hfx he.extracted he.complete hfl rfl hr hag
    exact ⟨out', hrun, hodp.trans hactions⟩

theorem cachedPacket_installed {s : CacheState hash} {fl : Flow} (hfl : Extracted fl)
    (hcomplete : Complete fl) (hs : ∀ e ∈ s.entries, Installed e)
    {r : List OdpAction × CacheState hash}
    (h : cachedPacket datapath undetermined env xbridge s fl = .ok r) :
    ∀ e ∈ r.2.entries, Installed e := by
  unfold cachedPacket at h
  cases hfind : datapath.find s.entries fl with
  | some e =>
    simp only [hfind] at h
    obtain rfl := Except.ok.inj h
    exact hs
  | none =>
    simp only [hfind] at h
    cases hx : xlate undetermined env (missIn xbridge fl) s.shared with
    | error e =>
      rw [hx] at h
      cases h
    | ok out =>
      rw [hx] at h
      obtain rfl := Except.ok.inj h
      dsimp only
      split
      · exact hs
      · intro e he
        rcases List.mem_append.mp he with he | he
        · exact hs e he
        · obtain rfl := List.mem_singleton.mp he
          exact ⟨hfl, hcomplete⟩

/-- One packet: the cache gives it what a translation would. -/
theorem cachedPacket_eq (datapath : Datapath) (undetermined : NoValue → Bool) (hE : SafeEnv env)
    {s : CacheState hash} {fl : Flow} (hfl : Extracted fl) (hs : ∀ e ∈ s.entries, Installed e)
    (hhits : ∀ e, datapath.find s.entries fl = some e →
      e.upToDate env xbridge s.shared.macs = true) :
    (cachedPacket datapath undetermined env xbridge s fl).map (fun r => (r.1, r.2.shared)) =
      (xlate undetermined env (missIn xbridge fl) s.shared).map fun r => (r.2.odp, r.1) := by
  unfold cachedPacket
  cases hfind : datapath.find s.entries fl with
  | some e =>
    obtain ⟨hmem, hhit⟩ := datapath.found hfind
    obtain ⟨out, hrun, hodp⟩ := hit_translated hE (hs e hmem) (hhits e hfind) hfl hhit
    rw [hrun]
    exact congrArg (fun actions => Except.ok (actions, s.shared)) hodp.symm
  | none =>
    dsimp only
    cases xlate undetermined env (missIn xbridge fl) s.shared <;> rfl

theorem cachedRun_eq (hE : SafeEnv env) {s : CacheState hash} {packets : List Flow}
    (hpackets : ∀ fl ∈ packets, Extracted fl ∧ Complete fl)
    (hs : ∀ e ∈ s.entries, Installed e)
    (hclean : hitsUpToDate datapath undetermined env xbridge s packets = true) :
    (cachedRun datapath undetermined env xbridge s packets).map (fun r => (r.1, r.2.shared)) =
      translatedRun undetermined env xbridge s.shared packets := by
  induction packets generalizing s with
  | nil => rfl
  | cons fl rest ih =>
    obtain ⟨hfl, hcomplete⟩ := hpackets fl List.mem_cons_self
    unfold hitsUpToDate at hclean
    obtain ⟨hall, hrest⟩ := Bool.and_eq_true_iff.mp hclean
    have hhits : ∀ e, datapath.find s.entries fl = some e →
        e.upToDate env xbridge s.shared.macs = true := by
      intro e he
      rw [he] at hall
      exact hall
    have hpacket := cachedPacket_eq datapath undetermined hE hfl hs hhits
    unfold cachedRun translatedRun
    cases hc : cachedPacket datapath undetermined env xbridge s fl with
    | error e =>
      rw [hc] at hpacket
      cases hx : xlate undetermined env (missIn xbridge fl) s.shared with
      | error e' =>
        rw [hx] at hpacket
        exact congrArg Except.error (Except.error.inj hpacket)
      | ok r' =>
        rw [hx] at hpacket
        cases hpacket
    | ok r =>
      rw [hc] at hpacket hrest
      cases hx : xlate undetermined env (missIn xbridge fl) s.shared with
      | error e' =>
        rw [hx] at hpacket
        cases hpacket
      | ok r' =>
        rw [hx] at hpacket
        obtain ⟨hodp, happs⟩ := Prod.mk.inj (Except.ok.inj hpacket)
        have ih' := ih (fun f hf => hpackets f (List.mem_cons_of_mem fl hf))
          (cachedPacket_installed hfl hcomplete hs hc) hrest
        change (cachedRun datapath undetermined env xbridge r.2 rest >>= _).map _ =
          (translatedRun undetermined env xbridge r'.1 rest >>= _)
        rw [← happs, ← ih', ← hodp]
        cases cachedRun datapath undetermined env xbridge r.2 rest <;> rfl

/-- As long as no packet is served from an entry that a state machine has had a part in or
that the learned addresses have outdated, the cache changes neither what is done with the
packets nor the states. -/
theorem cache_transparent (datapath : Datapath) (undetermined : NoValue → Bool) (hE : SafeEnv env)
    (s : Shared hash) (packets : List Flow) (hpackets : ∀ fl ∈ packets, Extracted fl ∧ Complete fl)
    (hclean : hitsUpToDate datapath undetermined env xbridge ⟨[], s⟩ packets = true) :
    (cachedRun datapath undetermined env xbridge ⟨[], s⟩ packets).map
        (fun r => (r.1, r.2.shared)) = translatedRun undetermined env xbridge s packets :=
  cachedRun_eq hE hpackets (fun _ he => by cases he) hclean

/-- 10.0.0.1 goes through the app once, and 10.0.0.2 past it twice. The second time
it finds an entry. -/
theorem cache_transparent_bypass :
    ((cachedRun inOrderOfInstallation (fun _ => false) sourceEnv 0 ⟨[], firstOnly, []⟩
      [udpFrom 0x0a000001, udpFrom 0x0a000002, udpFrom 0x0a000002]).map
        (fun r => r.2.entries.length) = .ok 2) ∧
    (cachedRun inOrderOfInstallation (fun _ => false) sourceEnv 0 ⟨[], firstOnly, []⟩
      [udpFrom 0x0a000001, udpFrom 0x0a000002, udpFrom 0x0a000002]).map
        (fun r => (r.1, r.2.shared)) =
      translatedRun (fun _ => false) sourceEnv 0 ⟨firstOnly, []⟩
        [udpFrom 0x0a000001, udpFrom 0x0a000002, udpFrom 0x0a000002] := by
  refine ⟨by decide +kernel, cache_transparent _ _ sourceEnv_safe _ _ (fun fl hfl => ?_)
    (by decide +kernel)⟩
  have hudp : ∃ src, fl = udpFrom src := by
    simp only [List.mem_cons, List.not_mem_nil, or_false] at hfl
    rcases hfl with rfl | rfl | rfl
    all_goals exact ⟨_, rfl⟩
  obtain ⟨src, rfl⟩ := hudp
  exact ⟨udpFrom_extracted src, udpFrom_complete src⟩

/-- The second packet of 10.0.0.1 finds the entry of the first one: it is let through,
and the app does not count it. -/
theorem cache_hides_second_packet :
    (cachedRun inOrderOfInstallation (fun _ => false) appEnv 0 ⟨[], firstOnly, []⟩
      [udpFrom 0x0a000001, udpFrom 0x0a000001]).map (fun r => (r.1,
        statuses r.2.shared.apps 1 (inetNtoa (htonl 0x0a000001)))) =
      .ok ([[.output 2], [.output 2]], some [2]) ∧
    (translatedRun (fun _ => false) appEnv 0 ⟨firstOnly, []⟩
      [udpFrom 0x0a000001, udpFrom 0x0a000001]).map (fun r => (r.1,
        statuses r.2.apps 1 (inetNtoa (htonl 0x0a000001)))) =
      .ok ([[.output 2], []], some [3]) :=
  ⟨by decide +kernel, by decide +kernel⟩

end transparency

end Sdpa.Switch
