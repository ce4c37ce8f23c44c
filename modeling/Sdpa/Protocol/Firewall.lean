import Sdpa.Protocol.Install

/-!
# The tables of the stateful firewall

Two roles share the transition table: the requester of a connection goes through
states 1, 3 and 7, the responser through 2 and 8. Whatever the order of packets and
packet-ins, an entry stays in the states of the role it was installed for, and the
action table has an action for every state that a packet can lead to.
-/
namespace Sdpa.Protocol.Firewall

open Sdpa.Lib.Endian
open Sdpa.Controller
open Sdpa.Switch
open Sdpa.Controller.StateFirewall (appId bitMap sttdat onFlag stCalls atCalls)
open Sdpa.Controller.StateFirewallStatus (getValue)

variable {hash : Key → BitVec 32}

/-! ## The messages of the firewall at the switch -/

/-- The seven transitions as the switch stores them. -/
def transitions : List SttMatchEntry := sttdat.map sttEntryOf

def createdApp : ControllApp hash := ⟨appId, ⟨bitMap, .init⟩, transitions, ⟨bitMap, .init⟩⟩

/-- A switch that has just started, after the create message. -/
def created : Except Fault (GApps hash) :=
  deliverCreate StateFirewall.doSendSfaInitMsg GApps.start

set_option maxRecDepth 10000 in
theorem created_eq : (created : Except Fault (GApps hash)) =
    .ok (GApps.start.append createdApp rfl) := rfl

/-- A TCP packet of a client that reaches the controller, which is not a broadcast. -/
structure Opening where
  client : BitVec 32
  server : BitVec 32
  clientPort : BitVec 16
  serverPort : BitVec 16
  srcMAC : BitVec 48
  dstMAC : BitVec 48
  inPort : BitVec 32
  unicast : dstMAC ≠ BitVec.allOnes 48

def Opening.eth (o : Opening) : Ethernet :=
  TransportPacket.toEthernet
    { nwSrc := o.client, nwDst := o.server, isTcp := true, tpSrc := o.clientPort,
      tpDst := o.serverPort }
    o.srcMAC o.dstMAC

/-- What the firewall sends for the packet-in, which an allow rule matches, has reached the
switch. -/
def install (o : Opening) (g : GApps hash) : Except Fault (GApps hash) :=
  match (StateFirewall.processPacketInMessage true none (some .allow) o.inPort o.eth).mods with
  | none => .ok g
  | some m => deliverMods m g

theorem processPacketInMessage_opening (o : Opening) :
    StateFirewall.processPacketInMessage true none (some .allow) o.inPort o.eth =
      ⟨none, some (StateFirewall.mods o.inPort o.eth), .stop⟩ := by
  have hmac : ¬ o.eth.destinationMAC = BitVec.allOnes 48 := o.unicast
  have htype : ¬ o.eth.etherType = 0x0806 := by
    change ¬ (0x0800 : BitVec 16) = 0x0806
    decide
  have htcp : StateFirewall.isTcp o.eth = true := rfl
  rw [StateFirewall.processPacketInMessage, if_neg hmac, if_neg htype, htcp]
  rfl

theorem overBothSides_bitMap : OverBothSides bitMap := overBothSides_of_forall (by decide)

theorem mods_opening (o : Opening) :
    StateFirewall.mods o.inPort o.eth =
      (.ofCalls {} appId (stCalls (addressKey o.client o.server) (addressKey o.server o.client)),
        .ofCalls {} appId
          (atCalls (addressKey o.client o.server) (addressKey o.server o.client))) := by
  have hf : getFDirectionDataFromPktIn bitMap o.inPort o.eth = addressKey o.client o.server := by
    rw [Opening.eth, forwardKey_eq overBothSides_bitMap]
    exact congrArg (fromIPv4Address o.client ++ ·) (List.append_nil _)
  have hb : getBDirectionDataFromPktIn bitMap o.inPort o.eth = addressKey o.server o.client := by
    rw [Opening.eth, backwardKey_eq overBothSides_bitMap]
    exact congrArg (fromIPv4Address o.server ++ ·) (List.append_nil _)
  rw [StateFirewall.mods, hf, hb]

/-- The string of the switch for any packet. -/
theorem parseMatch_bitMap (fl : Flow) :
    parseMatch fl bitMap = .ok (some (inetNtoa (fl .nwSrc) ++ inetNtoa (fl .nwDst))) := by
  have hsel : selected bitMap = [15, 16] := by decide
  rw [parseMatch_eq fl overBothSides_bitMap.wellDefined, hsel, if_neg (List.cons_ne_nil _ _),
    List.flatMap_cons, List.flatMap_singleton]
  rfl

theorem buffer_of_mem_stCalls {fwd bwd : Key} {call : SFAModType × STDATA}
    (h : call ∈ stCalls fwd bwd) : call.2.buffer = fwd ∨ call.2.buffer = bwd := by
  simp only [stCalls, List.mem_cons, List.not_mem_nil, or_false] at h
  rcases h with rfl | rfl
  · exact .inl rfl
  · exact .inr rfl

theorem buffer_of_mem_atCalls {fwd bwd : Key} {call : SFAModType × ATDATA}
    (h : call ∈ atCalls fwd bwd) : call.2.buffer = fwd ∨ call.2.buffer = bwd := by
  simp only [atCalls, List.mem_cons, List.not_mem_nil, or_false] at h
  rcases h with rfl | rfl | rfl | rfl | rfl | rfl | rfl | rfl
  all_goals first | exact .inl rfl | exact .inr rfl

theorem install_eq (o : Opening) {g : GApps hash} {app : ControllApp hash}
    (hfind : g.find appId = some app) :
    ∃ g', install o g = .ok g' ∧ g'.find appId =
      some (withAdded (stCalls (addressKey o.client o.server) (addressKey o.server o.client))
        (atCalls (addressKey o.client o.server) (addressKey o.server o.client)) app) := by
  rw [install, processPacketInMessage_opening]
  dsimp only
  rw [mods_opening]
  exact deliverMods_addresses hfind (List.cons_ne_nil _ _) (List.cons_ne_nil _ _) (by simp [atCalls])
    (fun _ h => buffer_of_mem_stCalls h) (fun _ h => buffer_of_mem_atCalls h)
    (by decide : 2 ≤ 8) (by decide : 8 ≤ 8)

/-! ## The transitions -/

/-- The flags that the transitions test. -/
def syn (flags : BitVec 16) : Bool := flags.getLsbD 1
def ack (flags : BitVec 16) : Bool := flags.getLsbD 4
def fin (flags : BitVec 16) : Bool := flags.getLsbD 0

/-- The state that follows, 0 if there is none. -/
def next (flags : BitVec 16) (status : BitVec 32) : BitVec 32 :=
  nextState (fun _ => 0) flags status transitions false

theorem event_onFlag (fl : Flow) (flags : BitVec 16) {i : Nat} (hi : i < 16)
    (pre post : StateFirewallStatus) :
    (sttEntryOf (onFlag (BitVec.twoPow 64 i) pre post)).event fl flags = flags.getLsbD i := by
  have hne : BitVec.twoPow 64 i ≠ 0 := by
    intro h
    have hbit := congrArg (fun x : BitVec 64 => x.getLsbD i) h
    simp [BitVec.getLsbD_twoPow] at hbit
    omega
  have hevent : (sttEntryOf (onFlag (BitVec.twoPow 64 i) pre post)).event fl flags =
      (flags.setWidth 64 &&& BitVec.twoPow 64 i != 0) := rfl
  rw [hevent, BitVec.and_twoPow, BitVec.getLsbD_setWidth]
  cases flags.getLsbD i with
  | true => simpa [show i < 64 by omega] using hne
  | false => simp

theorem event_syn (fl : Flow) (flags : BitVec 16) (pre post : StateFirewallStatus) :
    (sttEntryOf (onFlag 2 pre post)).event fl flags = syn flags :=
  event_onFlag fl flags (i := 1) (by omega) pre post

theorem event_ack (fl : Flow) (flags : BitVec 16) (pre post : StateFirewallStatus) :
    (sttEntryOf (onFlag 16 pre post)).event fl flags = ack flags :=
  event_onFlag fl flags (i := 4) (by omega) pre post

theorem event_fin (fl : Flow) (flags : BitVec 16) (pre post : StateFirewallStatus) :
    (sttEntryOf (onFlag 1 pre post)).event fl flags = fin flags :=
  event_onFlag fl flags (i := 0) (by omega) pre post

/-- The walk over the transitions, for a packet with these flags. -/
def walk (s a f : Bool) (status : BitVec 32) : BitVec 32 :=
  if s ∧ status = 1 then 3
  else if s ∧ status = 2 then 8
  else if a ∧ status = 3 then 7
  else if f ∧ status = 7 then 1
  else if f ∧ status = 8 then 2
  else if a ∧ status = 7 then 7
  else if a ∧ status = 8 then 8
  else if s ∨ a ∨ f then 0 else status

theorem nextState_transitions (fl : Flow) (flags : BitVec 16) (status : BitVec 32) :
    nextState fl flags status transitions false =
      walk (syn flags) (ack flags) (fin flags) status := by
  simp only [transitions, sttdat, List.map_cons, List.map_nil, nextState, event_syn, event_ack,
    event_fin]
  simp only [sttEntryOf, onFlag, StateFirewallStatus.getValue, walk]
  cases syn flags <;> cases ack flags <;> cases fin flags <;> simp

theorem next_eq_walk (flags : BitVec 16) (status : BitVec 32) :
    next flags status = walk (syn flags) (ack flags) (fin flags) status :=
  nextState_transitions _ flags status

theorem nextState_eq_next (fl : Flow) (flags : BitVec 16) (status : BitVec 32) :
    nextState fl flags status transitions false = next flags status := by
  rw [next_eq_walk, nextState_transitions]

/-- The side of a connection that an entry was installed for. -/
inductive Role
  | requester | responser
  deriving DecidableEq

def Role.statuses : Role → List (BitVec 32)
  | .requester => [1, 3, 7]
  | .responser => [2, 8]

/-- The key that an entry for the role has, of the two of a packet-in. -/
def Role.key (fwd bwd : Key) : Role → Key
  | .requester => fwd
  | .responser => bwd

/-- A packet leaves an entry in its role, or leads to state 0. -/
theorem next_mem {role : Role} {status : BitVec 32} (h : status ∈ role.statuses)
    (flags : BitVec 16) : next flags status = 0 ∨ next flags status ∈ role.statuses := by
  have hall : ∀ i : Fin role.statuses.length, ∀ s a f,
      walk s a f (role.statuses.get i) = 0 ∨ walk s a f (role.statuses.get i) ∈ role.statuses := by
    cases role <;> decide +kernel
  obtain ⟨i, rfl⟩ := List.get_of_mem h
  rw [next_eq_walk]
  exact hall i _ _ _

theorem zero_not_mem_statuses (role : Role) : 0 ∉ role.statuses := by cases role <;> decide

/-! ## What holds of the tables throughout -/

def actionOf (status : BitVec 32) : SfaAction := if status = 0 then ⟨2, 0⟩ else ⟨1, 0⟩

structure Invariant (app : ControllApp hash) : Prop where
  matchBitmap : app.pst.matchBitmap = bitMap
  bitmap : app.pat.bitmap = bitMap
  pstt : app.pstt = transitions
  distinct : DistinctHashes app.pst.stEntrys
  actions : ∀ a ∈ app.pat.atEntrys.entries, a.act = actionOf a.lastStatus
  /-- An entry is in a state of its role, and there is an action for every state that can follow. -/
  roles : ∀ e ∈ app.pst.stEntrys.entries, ∃ role : Role, e.lastStatus ∈ role.statuses ∧
    ∀ status ∈ 0 :: role.statuses, ∃ a ∈ app.pat.atEntrys.entries,
      a.data = e.data ∧ a.lastStatus = status

theorem createdApp_invariant : Invariant (createdApp : ControllApp hash) where
  matchBitmap := rfl
  bitmap := rfl
  pstt := rfl
  distinct := distinct_init
  actions := fun _ ha => absurd ha Entries.not_mem_init
  roles := fun _ he => absurd he Entries.not_mem_init

section Install

variable {app : ControllApp hash} {fwd bwd : Key}

theorem mem_installed_st {x : StMatchEntry} :
    x ∈ (withAdded (stCalls fwd bwd) (atCalls fwd bwd) app).pst.stEntrys.entries →
      x ∈ app.pst.stEntrys.entries ∨ x = ⟨fwd, 1⟩ ∨ x = ⟨bwd, 2⟩ := by
  intro h
  rcases mem_add.mp h with h | ⟨-, rfl⟩
  · rcases mem_add.mp h with h | ⟨-, rfl⟩
    · exact .inl h
    · exact .inr (.inl rfl)
  · exact .inr (.inr rfl)

theorem mem_installed_of_mem {x : StMatchEntry} (h : x ∈ app.pst.stEntrys.entries) :
    x ∈ (withAdded (stCalls fwd bwd) (atCalls fwd bwd) app).pst.stEntrys.entries :=
  mem_add.mpr (.inl (mem_add.mpr (.inl h)))

theorem mem_installed_at {x : AtMatchEntry} :
    x ∈ (withAdded (stCalls fwd bwd) (atCalls fwd bwd) app).pat.atEntrys.entries ↔
      x ∈ app.pat.atEntrys.entries ∨ ∃ call ∈ atCalls fwd bwd, x = atEntryOf call.2 :=
  mem_foldl_insert

/-- The entries for one direction cover the states of its role. -/
theorem atCalls_cover (fwd bwd : Key) (role : Role) {status : BitVec 32}
    (h : status ∈ 0 :: role.statuses) :
    ∃ call ∈ atCalls fwd bwd, (atEntryOf call.2).data = role.key fwd bwd ∧
      (atEntryOf call.2).lastStatus = status := by
  cases role with
  | requester =>
    simp only [Role.statuses, List.mem_cons, List.not_mem_nil, or_false] at h
    rcases h with rfl | rfl | rfl | rfl
    · exact ⟨(.add, ATDATA.new 0 fwd ⟨.drop, 0⟩), by simp [atCalls, getValue], rfl, rfl⟩
    · exact ⟨(.add, ATDATA.new 1 fwd ⟨.output, 0⟩), by simp [atCalls, getValue], rfl, rfl⟩
    · exact ⟨(.add, ATDATA.new 3 fwd ⟨.output, 0⟩), by simp [atCalls, getValue], rfl, rfl⟩
    · exact ⟨(.add, ATDATA.new 7 fwd ⟨.output, 0⟩), by simp [atCalls, getValue], rfl, rfl⟩
  | responser =>
    simp only [Role.statuses, List.mem_cons, List.not_mem_nil, or_false] at h
    rcases h with rfl | rfl | rfl
    · exact ⟨(.add, ATDATA.new 0 bwd ⟨.drop, 0⟩), by simp [atCalls, getValue], rfl, rfl⟩
    · exact ⟨(.add, ATDATA.new 2 bwd ⟨.output, 0⟩), by simp [atCalls, getValue], rfl, rfl⟩
    · exact ⟨(.add, ATDATA.new 8 bwd ⟨.output, 0⟩), by simp [atCalls, getValue], rfl, rfl⟩

theorem Invariant.install (h : Invariant app) :
    Invariant (withAdded (stCalls fwd bwd) (atCalls fwd bwd) app) where
  matchBitmap := h.matchBitmap
  bitmap := h.bitmap
  pstt := h.pstt
  distinct := distinct_add (distinct_add h.distinct _) _
  actions := by
    intro a ha
    rcases mem_installed_at.mp ha with hold | ⟨call, hcall, rfl⟩
    · exact h.actions a hold
    · simp only [atCalls, List.mem_cons, List.not_mem_nil, or_false] at hcall
      rcases hcall with rfl | rfl | rfl | rfl | rfl | rfl | rfl | rfl <;> rfl
  roles := by
    have hnew : ∀ role : Role, ∀ status ∈ 0 :: role.statuses, ∃ a ∈
        (withAdded (stCalls fwd bwd) (atCalls fwd bwd) app).pat.atEntrys.entries,
          a.data = role.key fwd bwd ∧ a.lastStatus = status := by
      intro role status hstatus
      obtain ⟨call, hcall, hdata, hlast⟩ := atCalls_cover fwd bwd role hstatus
      exact ⟨_, mem_installed_at.mpr (.inr ⟨call, hcall, rfl⟩), hdata, hlast⟩
    intro e he
    rcases mem_installed_st he with hold | rfl | rfl
    · obtain ⟨role, hrole, hcover⟩ := h.roles e hold
      refine ⟨role, hrole, fun status hstatus => ?_⟩
      obtain ⟨a, ha, hdata, hlast⟩ := hcover status hstatus
      exact ⟨a, mem_installed_at.mpr (.inl ha), hdata, hlast⟩
    · exact ⟨.requester, List.mem_cons_self, hnew .requester⟩
    · exact ⟨.responser, List.mem_cons_self, hnew .responser⟩

end Install

/-! ## Packets -/

/-- A packet at the firewall. -/
def packet (fl : Flow) (flags : BitVec 16) : FpPacket := ⟨1, fl, flags⟩

def keyOf (fl : Flow) : Key := inetNtoa (fl .nwSrc) ++ inetNtoa (fl .nwDst)

theorem Invariant.parseMatch_st {app : ControllApp hash} (h : Invariant app) (fl : Flow) :
    parseMatch fl app.pst.matchBitmap = .ok (some (keyOf fl)) := by
  rw [h.matchBitmap]
  exact parseMatch_bitMap fl

section Packets

variable {g : GApps hash} {app : ControllApp hash} (hfind : g.find appId = some app)
  (h : Invariant app) (fl : Flow) (flags : BitVec 16)
include hfind h

/-- A packet that finds no state leaves without a verdict. -/
theorem run_unknown (hfirst : app.pst.stEntrys.first (keyOf fl) = none) :
    (packet fl flags).run g = .ok ⟨g, fl, .error .noStEntry⟩ :=
  FpPacket.run_of_unknown hfind (h.parseMatch_st fl) hfirst

/-- A packet that finds a state is dropped if state 0 follows. -/
theorem run_packet {e : StMatchEntry} (hfirst : app.pst.stEntrys.first (keyOf fl) = some e) :
    (packet fl flags).run g =
      .ok ⟨updateState g appId (keyOf fl) (next flags e.lastStatus), fl,
        .ok (next flags e.lastStatus == 0)⟩ := by
  obtain ⟨he, hhash⟩ := mem_of_first hfirst
  obtain ⟨role, hrole, hcover⟩ := h.roles e he
  have hstatus : next flags e.lastStatus ∈ 0 :: role.statuses := by
    rw [List.mem_cons]
    exact next_mem hrole flags
  obtain ⟨a, ha, hdata, hlast⟩ := hcover _ hstatus
  have hkey : hash a.data = hash (keyOf fl) := by rw [hdata, hhash]
  have hact := atLookup_of_mem h.actions ha hkey
  rw [hlast] at hact
  have hparse : parseMatch fl app.pat.bitmap = .ok (some (keyOf fl)) := by
    rw [h.bitmap]
    exact parseMatch_bitMap fl
  have hdecide : fpDecide fl flags
      (⟨keyOf fl, e.lastStatus, app.pstt, app.pat⟩ : FpFound hash) =
        .ok ⟨next flags e.lastStatus, fl, .ok (next flags e.lastStatus == 0)⟩ := by
    simp only [fpDecide, h.pstt, nextState_eq_next, hparse, bind, Except.bind, hact]
    by_cases hzero : next flags e.lastStatus = 0
    · rw [hzero]
      rfl
    · rw [beq_false_of_ne hzero, actionOf, if_neg hzero]
      rfl
  have happ : g.find (packet fl flags).aid = some app := hfind
  have hrun := FpPacket.run_of_found happ (h.parseMatch_st fl) hfirst hdecide
  exact hrun

end Packets

/-! ## Runs of packet-ins and packets -/

inductive Event
  | install (o : Opening)
  | packet (fl : Flow) (flags : BitVec 16)

def Event.step (g : GApps hash) : Event → Except Fault (GApps hash)
  | .install o => Firewall.install o g
  | .packet fl flags => ((Firewall.packet fl flags).run g).map FpResult.apps

def run (g : GApps hash) (events : List Event) : Except Fault (GApps hash) :=
  events.foldlM Event.step g

theorem run_append_cons {g g₁ g₂ : GApps hash} {past future : List Event} {e : Event}
    (hpast : run g past = .ok g₁) (hstep : e.step g₁ = .ok g₂) :
    run g (past ++ e :: future) = run g₂ future := by
  have hfirst : past.foldlM Event.step g = .ok g₁ := hpast
  rw [run, List.foldlM_append, hfirst]
  simp only [bind, Except.bind, List.foldlM_cons, hstep]
  rfl

/-- The state table has an entry for the key, in a state of the role. -/
def HasRole (app : ControllApp hash) (key : Key) (role : Role) : Prop :=
  ∃ e ∈ app.pst.stEntrys.entries, e.data = key ∧ e.lastStatus ∈ role.statuses

section Step

variable {app : ControllApp hash} (h : Invariant app)
include h

theorem Invariant.writeStatus {key : Key} {e : StMatchEntry}
    (hfirst : app.pst.stEntrys.first key = some e) {flags : BitVec 16}
    (hne : next flags e.lastStatus ≠ 0) :
    Invariant (app.writeStatus key (next flags e.lastStatus)) where
  matchBitmap := h.matchBitmap
  bitmap := h.bitmap
  pstt := h.pstt
  distinct := distinct_write h.distinct key _
  actions := h.actions
  roles := by
    intro x hx
    rcases (mem_write h.distinct hfirst _).mp hx with ⟨hold, -⟩ | rfl
    · exact h.roles x hold
    · obtain ⟨role, hrole, hcover⟩ := h.roles e (mem_of_first hfirst).1
      exact ⟨role, (next_mem hrole flags).resolve_left hne, hcover⟩

theorem HasRole.writeStatus {key : Key} {e : StMatchEntry}
    (hfirst : app.pst.stEntrys.first key = some e) {flags : BitVec 16}
    (hne : next flags e.lastStatus ≠ 0) {k : Key} {role : Role} (hrole : HasRole app k role) :
    HasRole (app.writeStatus key (next flags e.lastStatus)) k role := by
  obtain ⟨x, hx, hdata, hstatus⟩ := hrole
  by_cases hxe : x = e
  · subst hxe
    exact ⟨x.setStatus _, (mem_write h.distinct hfirst _).mpr (.inr rfl), hdata,
      (next_mem hstatus flags).resolve_left hne⟩
  · exact ⟨x, (mem_write h.distinct hfirst _).mpr (.inl ⟨hx, hxe⟩), hdata, hstatus⟩

/-- One step keeps the invariant and every role. -/
theorem step_invariant {g : GApps hash} (hfind : g.find appId = some app) (event : Event) :
    ∃ g' app', event.step g = .ok g' ∧ g'.find appId = some app' ∧ Invariant app' ∧
      ∀ key role, HasRole app key role → HasRole app' key role := by
  cases event with
  | install o =>
    obtain ⟨g', hrun, hfind'⟩ := install_eq o hfind
    refine ⟨g', _, hrun, hfind', h.install, ?_⟩
    rintro key role ⟨e, he, hrole⟩
    exact ⟨e, mem_installed_of_mem he, hrole⟩
  | packet fl flags =>
    cases hfirst : app.pst.stEntrys.first (keyOf fl) with
    | none =>
      refine ⟨g, app, ?_, hfind, h, fun _ _ hrole => hrole⟩
      rw [Event.step, run_unknown hfind h fl flags hfirst]
      rfl
    | some e =>
      have hstep : (Event.packet fl flags).step g =
          .ok (updateState g appId (keyOf fl) (next flags e.lastStatus)) := by
        rw [Event.step, run_packet hfind h fl flags hfirst]
        rfl
      by_cases hzero : next flags e.lastStatus = 0
      · rw [updateState, if_pos hzero] at hstep
        exact ⟨g, app, hstep, hfind, h, fun _ _ hrole => hrole⟩
      · rw [updateState, if_neg hzero] at hstep
        refine ⟨_, app.writeStatus (keyOf fl) (next flags e.lastStatus), hstep, ?_,
          h.writeStatus hfirst hzero, fun _ _ hrole => HasRole.writeStatus h hfirst hzero hrole⟩
        rw [GApps.writeStatus, GApps.find_modify, if_pos rfl, hfind]
        rfl

/-- A run keeps the invariant and every role. -/
theorem run_invariant {g : GApps hash} (hfind : g.find appId = some app) (events : List Event) :
    ∃ g' app', run g events = .ok g' ∧ g'.find appId = some app' ∧ Invariant app' ∧
      ∀ key role, HasRole app key role → HasRole app' key role := by
  induction events generalizing g app with
  | nil => exact ⟨g, app, rfl, hfind, h, fun _ _ hrole => hrole⟩
  | cons event events ih =>
    obtain ⟨g₁, app₁, hstep, hfind₁, h₁, hroles₁⟩ := step_invariant h hfind event
    obtain ⟨g₂, app₂, hrun, hfind₂, h₂, hroles₂⟩ := ih h₁ hfind₁
    refine ⟨g₂, app₂, ?_, hfind₂, h₂, fun key role hrole => hroles₂ key role (hroles₁ key role hrole)⟩
    rw [run, List.foldlM_cons, hstep]
    exact hrun

end Step

/-! ## States and actions over a run -/

/-- The state stored under a key of the firewall's state table. -/
def statusOf (g : GApps hash) (key : Key) : Option (BitVec 32) :=
  (g.stOf appId).bind fun st => stMap st.stEntrys key

theorem statusOf_eq_some_iff {g : GApps hash} {app : ControllApp hash}
    (hfind : g.find appId = some app) (h : Invariant app) {key : Key} {status : BitVec 32} :
    statusOf g key = some status ↔ ⟨key, status⟩ ∈ app.pst.stEntrys.entries := by
  rw [statusOf, GApps.stOf, hfind]
  exact stMap_eq_some_iff h.distinct

/-- State 0 follows if some event occurs and none of those that do is for this state. -/
theorem nextState_eq_zero_iff (fl : Flow) (flags : BitVec 16) {status : BitVec 32}
    (hstatus : status ≠ 0) (stt : List SttMatchEntry) (hstt : ∀ t ∈ stt, t.curStatus ≠ 0)
    (eventExist : Bool) :
    nextState fl flags status stt eventExist = 0 ↔
      (eventExist = true ∨ ∃ t ∈ stt, t.event fl flags = true) ∧
        ∀ t ∈ stt, t.event fl flags = true → t.lastStatus ≠ status := by
  induction stt generalizing eventExist with
  | nil =>
    rw [nextState]
    cases eventExist with
    | true => simp
    | false => simpa using hstatus
  | cons t stt ih =>
    have ht := hstt t List.mem_cons_self
    have ih := ih (fun t' h => hstt t' (List.mem_cons_of_mem t h))
    rw [nextState]
    by_cases hevent : t.event fl flags = true
    · rw [if_pos hevent]
      by_cases hlast : status = t.lastStatus
      · rw [if_pos hlast]
        refine ⟨fun hcur => absurd hcur ht, fun hnone => ?_⟩
        exact absurd hlast.symm (hnone.2 t List.mem_cons_self hevent)
      · rw [if_neg hlast, ih true]
        simp [hevent, Ne.symm hlast]
    · rw [if_neg hevent, ih eventExist]
      simp [hevent]

theorem event_iff (fl : Flow) (flags : BitVec 16) :
    (∃ t ∈ transitions, t.event fl flags = true) ↔
      syn flags = true ∨ ack flags = true ∨ fin flags = true := by
  simp only [transitions, sttdat, List.map_cons, List.map_nil, List.mem_cons, List.not_mem_nil,
    or_false, exists_eq_or_imp, exists_eq_left, event_syn, event_ack, event_fin]
  tauto

/-- In every run of the firewall an entry stays in the states of the role it was
installed for, none of them 0, and a packet with an entry finds an action: it is
dropped exactly if it carries one of the three flags and no transition is for it. -/
theorem roles_and_actions :
    ∃ g₀ : GApps hash, created = .ok g₀ ∧ ∀ events, ∃ g, run g₀ events = .ok g ∧
      (∀ past o future, events = past ++ .install o :: future →
        ∃ g₁ g₂, run g₀ past = .ok g₁ ∧ install o g₁ = .ok g₂ ∧
          ∀ key status, statusOf g₁ key = none → statusOf g₂ key = some status →
            ∃ now, statusOf g key = some now ∧
              (status = 1 ∧ now ∈ [1, 3, 7] ∨ status = 2 ∧ now ∈ [2, 8])) ∧
      (∀ key, statusOf g key ≠ some 0) ∧
      ∀ fl flags status, statusOf g (keyOf fl) = some status →
        (∃ app, g.find appId = some app ∧ ∃ a ∈ app.pat.atEntrys.entries, a.data = keyOf fl ∧
          a.lastStatus = nextState fl flags status transitions false) ∧
        ∃ r dropped, (packet fl flags).run g = .ok r ∧ r.drop = .ok dropped ∧
          (dropped = true ↔ (syn flags ∨ ack flags ∨ fin flags) ∧
            ∀ t ∈ transitions, t.event fl flags = true → t.lastStatus ≠ status) := by
  refine ⟨_, created_eq, fun events => ?_⟩
  have hfind₀ : (GApps.start.append createdApp rfl : GApps hash).find appId = some createdApp := rfl
  obtain ⟨g, app, hrun, hfind, h, -⟩ := run_invariant createdApp_invariant hfind₀ events
  refine ⟨g, hrun, ?_, ?_, ?_⟩
  · rintro past o future rfl
    obtain ⟨g₁, app₁, hrun₁, hfind₁, h₁, -⟩ := run_invariant createdApp_invariant hfind₀ past
    obtain ⟨g₂, hrun₂, hfind₂⟩ := install_eq o hfind₁
    refine ⟨g₁, g₂, hrun₁, hrun₂, fun key status hnone hsome => ?_⟩
    have hmem := (statusOf_eq_some_iff hfind₂ h₁.install).mp hsome
    have hnew : ∃ role : Role, status ∈ role.statuses ∧
        (role = .requester ∧ status = 1 ∨ role = .responser ∧ status = 2) := by
      rcases mem_installed_st hmem with hold | heq | heq
      · rw [(statusOf_eq_some_iff hfind₁ h₁).mpr hold] at hnone
        cases hnone
      · obtain ⟨-, rfl⟩ := StMatchEntry.mk.inj heq
        exact ⟨.requester, List.mem_cons_self, .inl ⟨rfl, rfl⟩⟩
      · obtain ⟨-, rfl⟩ := StMatchEntry.mk.inj heq
        exact ⟨.responser, List.mem_cons_self, .inr ⟨rfl, rfl⟩⟩
    obtain ⟨role, hstatus, hcase⟩ := hnew
    obtain ⟨g₃, app₃, hrun₃, hfind₃, h₃, hroles⟩ := run_invariant h₁.install hfind₂ future
    have hsame : g₃ = g := by
      rw [run_append_cons hrun₁ (show Event.step g₁ (.install o) = .ok g₂ from hrun₂)] at hrun
      exact Except.ok.inj (hrun₃.symm.trans hrun)
    subst hsame
    obtain ⟨e, he, rfl, hnow⟩ := hroles key role ⟨_, hmem, rfl, hstatus⟩
    refine ⟨e.lastStatus, (statusOf_eq_some_iff hfind₃ h₃).mpr he, ?_⟩
    rcases hcase with ⟨rfl, rfl⟩ | ⟨rfl, rfl⟩
    · exact .inl ⟨rfl, hnow⟩
    · exact .inr ⟨rfl, hnow⟩
  · intro key hzero
    have hmem := (statusOf_eq_some_iff hfind h).mp hzero
    obtain ⟨role, hrole, -⟩ := h.roles _ hmem
    exact zero_not_mem_statuses role hrole
  · intro fl flags status hsome
    have hmem := (statusOf_eq_some_iff hfind h).mp hsome
    obtain ⟨role, hrole, hcover⟩ := h.roles _ hmem
    have hne : status ≠ 0 := fun hzero => zero_not_mem_statuses role (hzero ▸ hrole)
    have hfirst : app.pst.stEntrys.first (keyOf fl) = some ⟨keyOf fl, status⟩ :=
      first_of_mem h.distinct hmem
    refine ⟨⟨app, hfind, ?_⟩, _, _, run_packet hfind h fl flags hfirst, rfl, ?_⟩
    · rw [nextState_eq_next]
      exact hcover _ (List.mem_cons.mpr (next_mem hrole flags))
    · rw [beq_iff_eq, ← event_iff fl flags, ← nextState_eq_next fl,
        nextState_eq_zero_iff fl flags hne transitions (by decide)]
      simp

end Sdpa.Protocol.Firewall
