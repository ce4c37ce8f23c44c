import Sdpa.Lib.Histories
import Sdpa.Protocol.Install
import Sdpa.Switch.Hash

/-!
# The defence against DNS reflection

For each DNS request the controller installs a state that should let one reply
pass. It files the request under the addresses alone, while the switch looks the reply
up with the source port as well, and compares that port with another number than the
transition waits for. Replies are therefore left without a verdict, unless a collision
of hashes gives them the state of the request, in which none of them is stopped.
-/
namespace Sdpa.Protocol.Dns

open Sdpa.Lib.Decimal
open Sdpa.Lib.Histories
open Sdpa.Controller
open Sdpa.Switch
open Sdpa.Controller.Ddnsra (appId bitMap sttdat stCalls atCalls)

variable {hash : Key → BitVec 32}

/-! ## Requests and replies -/

structure Hosts where
  client : BitVec 32
  resolver : BitVec 32

/-- A DNS request of the client that reaches the controller. -/
structure Request where
  clientPort : BitVec 16
  srcMAC : BitVec 48
  dstMAC : BitVec 48
  inPort : BitVec 32

/-- A UDP packet from port 53 of the resolver to the client. -/
structure Reply where
  clientPort : BitVec 16
  inPort : BitVec 16
  tcpFlags : BitVec 16
  /-- The other fields. -/
  base : Flow

namespace Hosts

variable (h : Hosts)

def eth (q : Request) : Ethernet :=
  TransportPacket.toEthernet
    { nwSrc := h.client, nwDst := h.resolver, isTcp := false, tpSrc := q.clientPort, tpDst := 53 }
    q.srcMAC q.dstMAC

def datagram (a : Reply) : TransportPacket where
  nwSrc := h.resolver
  nwDst := h.client
  isTcp := false
  tpSrc := 53
  tpDst := a.clientPort

def flow (a : Reply) : Flow := (h.datagram a).toFlow .normal a.base a.inPort

def packet (a : Reply) : FpPacket := ⟨3, h.flow a, a.tcpFlags⟩

/-- The key that the controller has for requests. -/
def requestKey : Key := addressKey h.client h.resolver

/-- The key that the controller has for replies. -/
def answerKey : Key := addressKey h.resolver h.client

/-- The key that the switch has for replies. The port is printed as its bytes lie. -/
def replyKey : Key := addressKey h.resolver h.client ++ decimal 13568

end Hosts

inductive Event
  | request (q : Request)
  | reply (a : Reply)

inductive Outcome
  | requested
  | replied (drop : Except NoValue Bool)

/-- A switch that has just started, after the create message. -/
def created : Except Fault (GApps hash) := deliverCreate Ddnsra.doSendSfaInitMsg GApps.start

def Event.step (h : Hosts) (g : GApps hash) : Event → Except Fault (GApps hash × Outcome)
  | .request q =>
    match (Ddnsra.processPacketInMessage 17 53 q.inPort (h.eth q)).mods with
    | none => return (g, .requested)
    | some m => do
      let g ← deliverMods m g
      return (g, .requested)
  | .reply a => do
    let r ← (h.packet a).run g
    return (r.apps, .replied r.drop)

def run (h : Hosts) (g : GApps hash) (events : List Event) :
    Except Fault (GApps hash × List Outcome) :=
  events.foldlM (fun acc e => do
    let (g, out) ← e.step h acc.1
    return (g, acc.2 ++ [out])) (g, [])

theorem run_snoc {h : Hosts} {g g' g'' : GApps hash} {events : List Event} {trace : List Outcome}
    (hrun : run h g events = .ok (g', trace)) {e : Event} {out : Outcome}
    (hstep : e.step h g' = .ok (g'', out)) :
    run h g (events ++ [e]) = .ok (g'', trace ++ [out]) := by
  have hfirst : events.foldlM (fun (acc : GApps hash × List Outcome) e => do
      let (g, out) ← e.step h acc.1
      return (g, acc.2 ++ [out])) (g, []) = .ok (g', trace) := hrun
  rw [run, List.foldlM_append, hfirst]
  simp only [bind, Except.bind, List.foldlM_cons, List.foldlM_nil, hstep]
  rfl

/-! ## The property -/

def Outcome.isRequest : Outcome → Bool
  | .requested => true
  | .replied _ => false

/-- The reply is not dropped for certain. -/
def Outcome.mayPass : Outcome → Bool
  | .requested => false
  | .replied drop => drop ≠ .ok true

/-- At no point have more replies passed than there were requests, and the first reply
after a request passes. A return without a value may be taken either way. -/
structure Defended (trace : List Outcome) : Prop where
  bounded : ∀ past, past <+: trace →
    past.countP Outcome.mayPass ≤ past.countP Outcome.isRequest
  answered : AtEach (fun past x => ∀ drop, x = .replied drop →
    (∃ before between, past = before ++ .requested :: between ∧ ∀ y ∈ between, y = .requested) →
      drop = .ok false) trace

def Event.isRequest : Event → Bool
  | .request _ => true
  | .reply _ => false

/-- Every reply shares its hash with the requests, and follows more requests than replies. -/
def Covered (hash : Key → BitVec 32) (h : Hosts) (events : List Event) : Prop :=
  AtEach (fun past x => x.isRequest = false → hash h.replyKey = hash h.requestKey ∧
    past.countP (!·.isRequest) < past.countP Event.isRequest) events

/-! ## The messages at the switch -/

/-- The transition as the switch stores it. -/
def transitions : List SttMatchEntry := sttdat.map sttEntryOf

def createdApp : ControllApp hash := ⟨appId, ⟨bitMap, .init⟩, transitions, ⟨bitMap, .init⟩⟩

set_option maxRecDepth 10000 in
theorem created_eq : (created : Except Fault (GApps hash)) =
    .ok (GApps.start.append createdApp rfl) := rfl

theorem overBothSides_bitMap : OverBothSides bitMap := overBothSides_of_forall (by decide)

theorem mods_request (h : Hosts) (q : Request) :
    (Ddnsra.processPacketInMessage 17 53 q.inPort (h.eth q)).mods =
      some (.ofCalls {} appId (stCalls h.requestKey h.answerKey),
        .ofCalls {} appId (atCalls h.requestKey h.answerKey)) := by
  have hf : getFDirectionDataFromPktIn bitMap q.inPort (h.eth q) = h.requestKey := by
    rw [Hosts.eth, forwardKey_eq overBothSides_bitMap]
    exact congrArg (fromIPv4Address h.client ++ ·) (List.append_nil _)
  have hb : getBDirectionDataFromPktIn bitMap q.inPort (h.eth q) = h.answerKey := by
    rw [Hosts.eth, backwardKey_eq overBothSides_bitMap]
    exact congrArg (fromIPv4Address h.resolver ++ ·) (List.append_nil _)
  have hmods : (Ddnsra.processPacketInMessage 17 53 q.inPort (h.eth q)).mods =
      some (Ddnsra.mods q.inPort (h.eth q)) := rfl
  rw [hmods, Ddnsra.mods, hf, hb]

theorem deliver_request {h : Hosts} {g : GApps hash} {app : ControllApp hash}
    (hfind : g.find appId = some app) :
    ∃ g', deliverMods (.ofCalls {} appId (stCalls h.requestKey h.answerKey),
        .ofCalls {} appId (atCalls h.requestKey h.answerKey)) g = .ok g' ∧
      g'.find appId = some (withAdded (stCalls h.requestKey h.answerKey)
        (atCalls h.requestKey h.answerKey) app) := by
  apply deliverMods_addresses hfind (List.cons_ne_nil _ _) (List.cons_ne_nil _ _) (by simp)
  · intro call hcall
    simp only [List.mem_cons, List.not_mem_nil, or_false] at hcall
    rcases hcall with rfl | rfl
    · exact .inl rfl
    · exact .inr rfl
  · intro call hcall
    simp only [List.mem_cons, List.not_mem_nil, or_false] at hcall
    rcases hcall with rfl | rfl | rfl | rfl
    · exact .inl rfl
    · exact .inr rfl
    · exact .inl rfl
    · exact .inr rfl
  · exact (by decide : 2 ≤ 8)
  · exact (by decide : 4 ≤ 8)

theorem parseMatch_reply (h : Hosts) (a : Reply) :
    parseMatch (h.flow a) bitMap = .ok (some h.replyKey) := by
  have hsel : selected bitMap = [15, 16, 25] := by decide
  rw [parseMatch_eq_some overBothSides_bitMap.wellDefined]
  refine ⟨by rw [hsel]; exact List.cons_ne_nil _ _, ?_⟩
  have hport : portText ((h.datagram a).hasPorts .normal) (h.datagram a).tpSrc = decimal 13568 :=
    congrArg decimal (by decide : (htons 53).toNat = 13568)
  rw [Hosts.flow, switchKey_eq overBothSides_bitMap, hport, Hosts.replyKey, addressKey,
    List.append_assoc]
  rfl

/-- The switch compares 53 with the port as its bytes lie: nothing happens. -/
theorem nextState_reply (h : Hosts) (a : Reply) (status : BitVec 32) :
    nextState (h.flow a) a.tcpFlags status transitions false = status := by
  have hevent : (sttEntryOf ⟨.tpSrc, 1, .const, 53, .isequal, 2, 1⟩).event (h.flow a) a.tcpFlags =
      ((htons 53).setWidth 64 == (53 : BitVec 64)) := rfl
  have hnone : ((htons 53).setWidth 64 == (53 : BitVec 64)) = false := by decide
  have hlist : transitions = [sttEntryOf ⟨.tpSrc, 1, .const, 53, .isequal, 2, 1⟩] := rfl
  rw [hlist, nextState, hevent, hnone, nextState]
  rfl

/-! ## What the tables hold -/

/-- What a key finds. The second entry is skipped if its hash is taken. -/
def stored (hash : Key → BitVec 32) (h : Hosts) (asked : Bool) (key : Key) : Option StMatchEntry :=
  if asked then
    (if hash h.requestKey = hash key then some ⟨h.requestKey, 1⟩ else none).or
      (if hash h.answerKey = hash key then some ⟨h.answerKey, 2⟩ else none)
  else none

def actionOf (status : BitVec 32) : SfaAction := if status = 0 then ⟨2, 0⟩ else ⟨1, 0⟩

structure Invariant (h : Hosts) (asked : Bool) (app : ControllApp hash) : Prop where
  matchBitmap : app.pst.matchBitmap = bitMap
  bitmap : app.pat.bitmap = bitMap
  pstt : app.pstt = transitions
  distinct : DistinctHashes app.pst.stEntrys
  states : ∀ key, app.pst.stEntrys.first key = stored hash h asked key
  actions : ∀ a ∈ app.pat.atEntrys.entries,
    a.lastStatus ≠ 2 ∧ a.act = actionOf a.lastStatus
  start : asked = true → ∃ a ∈ app.pat.atEntrys.entries, a.data = h.requestKey ∧ a.lastStatus = 1

theorem createdApp_invariant (h : Hosts) : Invariant h false (createdApp : ControllApp hash) where
  matchBitmap := rfl
  bitmap := rfl
  pstt := rfl
  distinct := distinct_init
  states := first_init
  actions := fun _ ha => absurd ha Entries.not_mem_init
  start := Bool.noConfusion

section

variable {h : Hosts} {asked : Bool} {app : ControllApp hash}

/-- A further request adds no state. -/
theorem stored_again (h : Hosts) (asked : Bool) (key : Key) :
    ((stored hash h asked key).or
      (if hash h.requestKey = hash key then some ⟨h.requestKey, 1⟩ else none)).or
        (if hash h.answerKey = hash key then some ⟨h.answerKey, 2⟩ else none) =
      stored hash h true key := by
  unfold stored
  cases asked with
  | false => rfl
  | true =>
    by_cases hr : hash h.requestKey = hash key
    · simp [hr]
    · by_cases ha : hash h.answerKey = hash key
      · simp [hr, ha]
      · simp [hr, ha]

theorem Invariant.install (hinv : Invariant h asked app) :
    Invariant h true (withAdded (stCalls h.requestKey h.answerKey)
      (atCalls h.requestKey h.answerKey) app) where
  matchBitmap := hinv.matchBitmap
  bitmap := hinv.bitmap
  pstt := hinv.pstt
  distinct := distinct_add (distinct_add hinv.distinct _) _
  states := by
    intro key
    change (applyStItem (applyStItem app.pst.stEntrys (.add, STDATA.new 1 h.requestKey))
      (.add, STDATA.new 2 h.answerKey)).first key = _
    rw [first_add (distinct_add hinv.distinct _), first_add hinv.distinct, hinv.states]
    exact stored_again h asked key
  actions := by
    intro a ha
    rcases mem_foldl_insert.mp ha with hold | ⟨call, hcall, rfl⟩
    · exact hinv.actions a hold
    · have hone : (1 : BitVec 32) ≠ 2 := by decide
      have hzero : (0 : BitVec 32) ≠ 2 := by decide
      simp only [atCalls, List.mem_cons, List.not_mem_nil, or_false] at hcall
      rcases hcall with rfl | rfl | rfl | rfl
      · exact ⟨hone, rfl⟩
      · exact ⟨hone, rfl⟩
      · exact ⟨hzero, rfl⟩
      · exact ⟨hzero, rfl⟩
  start := fun _ => ⟨atEntryOf (ATDATA.new 1 h.requestKey ⟨.output, 0⟩),
    mem_foldl_insert.mpr (.inr ⟨_, List.mem_cons_self, rfl⟩), rfl, rfl⟩

/-- A state that is written again changes nothing. -/
theorem Invariant.rewrite (hinv : Invariant h asked app) {key : Key} {e : StMatchEntry}
    (hfirst : app.pst.stEntrys.first key = some e) :
    Invariant h asked (app.writeStatus key e.lastStatus) where
  matchBitmap := hinv.matchBitmap
  bitmap := hinv.bitmap
  pstt := hinv.pstt
  distinct := distinct_write hinv.distinct key e.lastStatus
  states := by
    intro k
    change (app.pst.stEntrys.write _ _ (StMatchEntry.setStatus_data _)).first k = _
    rw [first_write, ← hinv.states]
    split
    case isTrue hk =>
      rw [first_congr _ hk, hfirst]
      rfl
    case isFalse => rfl
  actions := hinv.actions
  start := hinv.start

/-! ## Replies -/

def verdict (hash : Key → BitVec 32) (h : Hosts) (asked : Bool) : Except NoValue Bool :=
  if asked = false then .error .noStEntry
  else if hash h.requestKey = hash h.replyKey then .ok false
  else if hash h.answerKey = hash h.replyKey then .error .noAtEntry
  else .error .noStEntry

theorem Invariant.atLookup_request (hinv : Invariant h asked app) (hasked : asked = true)
    (hhash : hash h.requestKey = hash h.replyKey) :
    atLookup app.pat.atEntrys h.replyKey 1 = some ⟨1, 0⟩ := by
  obtain ⟨a, ha, hdata, hstatus⟩ := hinv.start hasked
  have hkey : hash a.data = hash h.replyKey := by rw [hdata, hhash]
  have hact : ∀ e ∈ app.pat.atEntrys.entries, e.act = actionOf e.lastStatus :=
    fun e he => (hinv.actions e he).2
  have hlookup := atLookup_of_mem hact ha hkey
  rw [hstatus] at hlookup
  exact hlookup

theorem Invariant.atLookup_answer (hinv : Invariant h asked app) :
    atLookup app.pat.atEntrys h.replyKey 2 = none := by
  rw [atLookup, Option.map_eq_none_iff, List.find?_eq_none]
  intro e he hstatus
  exact (hinv.actions e (Entries.mem_withHash.mp he).1).1 (eq_of_beq hstatus)

theorem Invariant.fpDecide_reply (hinv : Invariant h asked app) {e : StMatchEntry}
    (hfirst : app.pst.stEntrys.first h.replyKey = some e) (a : Reply) :
    fpDecide (h.flow a) a.tcpFlags
        (⟨h.replyKey, e.lastStatus, app.pstt, app.pat⟩ : FpFound hash) =
      .ok ⟨e.lastStatus, h.flow a, verdict hash h asked⟩ := by
  have hparse : parseMatch (h.flow a) app.pat.bitmap = .ok (some h.replyKey) := by
    rw [hinv.bitmap]
    exact parseMatch_reply h a
  rw [hinv.states, stored] at hfirst
  cases hasked : asked with
  | false =>
    rw [hasked] at hfirst
    cases hfirst
  | true =>
    rw [hasked, if_pos rfl] at hfirst
    simp only [fpDecide, hparse, hinv.pstt, nextState_reply, bind, Except.bind, verdict]
    by_cases hr : hash h.requestKey = hash h.replyKey
    · rw [if_pos hr, Option.some_or] at hfirst
      obtain rfl := Option.some.inj hfirst
      rw [hinv.atLookup_request hasked hr, if_pos hr]
      rfl
    · rw [if_neg hr, Option.none_or] at hfirst
      split at hfirst
      case isTrue ha =>
        obtain rfl := Option.some.inj hfirst
        rw [hinv.atLookup_answer, if_neg hr, if_pos ha]
        rfl
      case isFalse => cases hfirst

theorem Invariant.reply {g : GApps hash} (hinv : Invariant h asked app)
    (hfind : g.find appId = some app) (a : Reply) :
    ∃ g' app', Event.step h g (.reply a) = .ok (g', .replied (verdict hash h asked)) ∧
      g'.find appId = some app' ∧ Invariant h asked app' := by
  have happ : g.find (h.packet a).aid = some app := hfind
  have hparse : parseMatch (h.packet a).flow app.pst.matchBitmap = .ok (some h.replyKey) := by
    rw [hinv.matchBitmap]
    exact parseMatch_reply h a
  cases hfirst : app.pst.stEntrys.first h.replyKey with
  | none =>
    have hnone : verdict hash h asked = .error .noStEntry := by
      rw [hinv.states, stored] at hfirst
      unfold verdict
      cases asked with
      | false => rfl
      | true =>
        rw [if_pos rfl, Option.or_eq_none_iff] at hfirst
        have hr : ¬ hash h.requestKey = hash h.replyKey := fun heq => by simp [heq] at hfirst
        have ha : ¬ hash h.answerKey = hash h.replyKey := fun heq => by simp [heq] at hfirst
        rw [if_neg Bool.noConfusion, if_neg hr, if_neg ha]
    refine ⟨g, app, ?_, hfind, hinv⟩
    rw [Event.step, FpPacket.run_of_unknown happ hparse hfirst, hnone]
    rfl
  | some e =>
    have hrun := FpPacket.run_of_found happ hparse hfirst (hinv.fpDecide_reply hfirst a)
    have hne : e.lastStatus ≠ 0 := by
      rw [hinv.states, stored] at hfirst
      split at hfirst
      · rcases Option.or_eq_some_iff.mp hfirst with hsome | ⟨-, hsome⟩
        · split at hsome
          · rw [← Option.some.inj hsome]
            exact (by decide : (1 : BitVec 32) ≠ 0)
          · cases hsome
        · split at hsome
          · rw [← Option.some.inj hsome]
            exact (by decide : (2 : BitVec 32) ≠ 0)
          · cases hsome
      · cases hfirst
    refine ⟨updateState g appId h.replyKey e.lastStatus, _, ?_, ?_, hinv.rewrite hfirst⟩
    · rw [Event.step, hrun]
      rfl
    · rw [updateState, if_neg hne, GApps.writeStatus, GApps.find_modify, if_pos rfl, hfind]
      rfl

theorem Invariant.request {g : GApps hash} (hinv : Invariant h asked app)
    (hfind : g.find appId = some app) (q : Request) :
    ∃ g' app', Event.step h g (.request q) = .ok (g', .requested) ∧
      g'.find appId = some app' ∧ Invariant h true app' := by
  obtain ⟨g', hdeliver, hfind'⟩ := deliver_request hfind
  refine ⟨g', _, ?_, hfind', hinv.install⟩
  simp only [Event.step, mods_request, hdeliver, bind, Except.bind]
  rfl

end

/-! ## Runs -/

theorem verdict_ne (h : Hosts) (asked : Bool) : verdict hash h asked ≠ .ok true := by
  unfold verdict
  split
  · exact nofun
  split
  · exact nofun
  split
  · exact nofun
  · exact nofun

theorem verdict_eq_iff (h : Hosts) (asked : Bool) :
    verdict hash h asked = .ok false ↔ asked = true ∧ hash h.requestKey = hash h.replyKey := by
  unfold verdict
  cases asked with
  | false => simp
  | true =>
    by_cases hr : hash h.requestKey = hash h.replyKey
    · simp [hr]
    · by_cases ha : hash h.answerKey = hash h.replyKey <;> simp [hr, ha]

theorem defended_snoc {trace : List Outcome} {x : Outcome} :
    Defended (trace ++ [x]) ↔ Defended trace ∧
      (trace ++ [x]).countP Outcome.mayPass ≤ (trace ++ [x]).countP Outcome.isRequest ∧
      ∀ drop, x = .replied drop → (∃ before between, trace = before ++ .requested :: between ∧
        ∀ y ∈ between, y = .requested) → drop = .ok false := by
  constructor
  · rintro ⟨hbound, hanswer⟩
    obtain ⟨hpast, hx⟩ := atEach_snoc.mp hanswer
    refine ⟨⟨fun past hle => ?_, hpast⟩, hbound _ List.prefix_rfl, hx⟩
    exact hbound past (hle.trans (List.prefix_append _ _))
  · rintro ⟨⟨hbound, hpast⟩, hcount, hx⟩
    refine ⟨fun past hle => ?_, atEach_snoc.mpr ⟨hpast, hx⟩⟩
    rcases List.prefix_concat_iff.mp hle with rfl | hle
    · exact hcount
    · exact hbound past hle

/-- Some request has been made. -/
def asked (events : List Event) : Bool := events.any Event.isRequest

theorem asked_iff {events : List Event} :
    asked events = true ↔ 0 < events.countP Event.isRequest := by
  rw [asked, List.any_eq_true, List.countP_pos_iff]

/-- How the outcomes of a run depend on its events. -/
structure Followed (hash : Key → BitVec 32) (h : Hosts) (events : List Event)
    (trace : List Outcome) : Prop where
  requests : trace.countP Outcome.isRequest = events.countP Event.isRequest
  replies : trace.countP Outcome.mayPass = events.countP (!·.isRequest)
  quiet : (∀ e ∈ events, e.isRequest = true) → ∀ y ∈ trace, y = .requested
  defended : Defended trace ↔ Covered hash h events

theorem Followed.nil (hash : Key → BitVec 32) (h : Hosts) : Followed hash h [] [] where
  requests := rfl
  replies := rfl
  quiet := fun _ _ hy => (List.not_mem_nil hy).elim
  defended := by
    refine ⟨fun _ => atEach_nil, fun _ => ⟨fun past hle => ?_, atEach_nil⟩⟩
    rw [List.prefix_nil.mp hle]
    exact Nat.le_refl _

section

variable {h : Hosts} {events : List Event} {trace : List Outcome}

theorem Followed.request (ih : Followed hash h events trace) (q : Request) :
    Followed hash h (events ++ [.request q]) (trace ++ [.requested]) where
  requests := by simp [ih.requests, Event.isRequest, Outcome.isRequest]
  replies := by simp [ih.replies, Event.isRequest, Outcome.mayPass]
  quiet := by
    intro hall y hy
    rcases List.mem_append.mp hy with hy | hy
    · exact ih.quiet (fun e he => hall e (List.mem_append_left _ he)) y hy
    · exact List.mem_singleton.mp hy
  defended := by
    rw [defended_snoc, Covered, atEach_snoc, ← Covered, ← ih.defended]
    constructor
    · rintro ⟨hd, -⟩
      exact ⟨hd, Bool.noConfusion⟩
    · rintro ⟨hd, -⟩
      refine ⟨hd, ?_, fun _ => Outcome.noConfusion⟩
      have hbound := hd.bounded trace List.prefix_rfl
      rw [List.countP_append, List.countP_append]
      exact Nat.add_le_add hbound (Nat.zero_le _)

/-- A reply that is not the first one shows that replies share the hash. -/
theorem Covered.collides (hcov : Covered hash h events) {e : Event} (he : e ∈ events)
    (hreply : e.isRequest = false) : hash h.replyKey = hash h.requestKey := by
  obtain ⟨past, future, rfl⟩ := List.append_of_mem he
  exact (hcov past e future rfl hreply).1

theorem Followed.reply (ih : Followed hash h events trace) (a : Reply) :
    Followed hash h (events ++ [.reply a]) (trace ++ [.replied (verdict hash h (asked events))]) where
  requests := by simp [ih.requests, Event.isRequest, Outcome.isRequest]
  replies := by simp [ih.replies, Event.isRequest, Outcome.mayPass, verdict_ne]
  quiet := fun hall => absurd (hall (.reply a) (by simp)) Bool.noConfusion
  defended := by
    have hcount : (trace ++ [Outcome.replied (verdict hash h (asked events))]).countP
        Outcome.mayPass ≤ (trace ++ [Outcome.replied (verdict hash h (asked events))]).countP
          Outcome.isRequest ↔ events.countP (!·.isRequest) < events.countP Event.isRequest := by
      have hpass : Outcome.mayPass (.replied (verdict hash h (asked events))) = true :=
        decide_eq_true (verdict_ne h _)
      have hrequest : Outcome.isRequest (.replied (verdict hash h (asked events))) = false := rfl
      rw [List.countP_append, List.countP_append, List.countP_singleton, List.countP_singleton,
        hpass, hrequest, ih.requests, ih.replies]
      exact Iff.rfl
    rw [defended_snoc, hcount, Covered, atEach_snoc, ← Covered, ih.defended]
    constructor
    · rintro ⟨hcov, hlt, hanswer⟩
      refine ⟨hcov, fun _ => ⟨?_, hlt⟩⟩
      by_cases hreply : ∃ e ∈ events, e.isRequest = false
      · obtain ⟨e, he, hfalse⟩ := hreply
        exact hcov.collides he hfalse
      · -- only requests so far, and at least one
        have hall : ∀ e ∈ events, e.isRequest = true := by
          intro e he
          cases hr : e.isRequest with
          | true => rfl
          | false => exact absurd ⟨e, he, hr⟩ hreply
        have hquiet := ih.quiet hall
        have hrequests := ih.requests
        cases htrace : trace with
        | nil =>
          rw [htrace, List.countP_nil] at hrequests
          omega
        | cons y rest =>
          rw [htrace] at hquiet
          have hfirst := hquiet y List.mem_cons_self
          have hpass := hanswer _ rfl ⟨[], rest, by rw [htrace, hfirst]; rfl,
            fun z hz => hquiet z (List.mem_cons_of_mem y hz)⟩
          exact ((verdict_eq_iff h _).mp hpass).2.symm
    · rintro ⟨hcov, hx⟩
      obtain ⟨hhash, hlt⟩ := hx rfl
      refine ⟨hcov, hlt, fun drop heq _ => ?_⟩
      obtain rfl := Outcome.replied.inj heq
      exact (verdict_eq_iff h _).mpr ⟨asked_iff.mpr (by omega), hhash.symm⟩

end

theorem run_followed (h : Hosts) {g : GApps hash} {app : ControllApp hash}
    (hfind : g.find appId = some app) (hinv : Invariant h false app) (events : List Event) :
    ∃ g' app' trace, run h g events = .ok (g', trace) ∧ g'.find appId = some app' ∧
      Invariant h (asked events) app' ∧ Followed hash h events trace := by
  induction events using List.reverseRecOn with
  | nil => exact ⟨g, app, [], rfl, hfind, hinv, .nil hash h⟩
  | append_singleton events e ih =>
    obtain ⟨g', app', trace, hrun, hfind', hinv', hfollowed⟩ := ih
    have hasked : asked (events ++ [e]) = (asked events || e.isRequest) := by
      simp [asked]
    cases e with
    | request q =>
      obtain ⟨g'', app'', hstep, hfind'', hinv''⟩ := hinv'.request hfind' q
      refine ⟨g'', app'', _, run_snoc hrun hstep, hfind'', ?_, hfollowed.request q⟩
      rw [hasked, Event.isRequest, Bool.or_true]
      exact hinv''
    | reply a =>
      obtain ⟨g'', app'', hstep, hfind'', hinv''⟩ := hinv'.reply hfind' a
      refine ⟨g'', app'', _, run_snoc hrun hstep, hfind'', ?_, hfollowed.reply a⟩
      rw [hasked, Event.isRequest, Bool.or_false]
      exact hinv''

/-- Whatever the order of requests and replies is, the defence works exactly if there
is no reply, or the key of replies shares its hash with that of requests and there
are never more replies than requests. -/
theorem defended_iff_covered (h : Hosts) :
    ∃ g : GApps hash, created = .ok g ∧ ∀ events, ∃ g' trace,
      run h g events = .ok (g', trace) ∧ (Defended trace ↔ Covered hash h events) := by
  refine ⟨_, created_eq, fun events => ?_⟩
  have hfind : (GApps.start.append createdApp rfl : GApps hash).find appId = some createdApp := rfl
  obtain ⟨g', -, trace, hrun, -, -, hfollowed⟩ :=
    run_followed h hfind (createdApp_invariant h) events
  exact ⟨g', trace, hrun, hfollowed.defended⟩

/-! ## A reply without a verdict -/

def home : Hosts := ⟨0x0a000001, 0x08080808⟩

def query : Event := .request ⟨5353, 0xaa, 0xbb, 1⟩

def answer : Event := .reply ⟨5353, 2, 0, fun _ => 0⟩

/-- The value that a return without one is taken for. -/
def Outcome.taken (drop : Bool) : Outcome → Outcome
  | .replied (.error _) => .replied (.ok drop)
  | out => out

theorem not_defended_unanswered {drop : Except NoValue Bool} (hdrop : drop ≠ .ok false) :
    ¬ Defended [.requested, .replied drop] := by
  intro hd
  exact hdrop (hd.answered [.requested] (.replied drop) [] rfl drop rfl ⟨[], [], rfl, nofun⟩)

theorem not_defended_unasked {drop : Except NoValue Bool} (hdrop : drop ≠ .ok true) :
    ¬ Defended [.replied drop] := by
  intro hd
  have hbound := hd.bounded _ List.prefix_rfl
  have hpass : Outcome.mayPass (.replied drop) = true := decide_eq_true hdrop
  have hrequest : Outcome.isRequest (.replied drop) = false := rfl
  rw [List.countP_singleton, List.countP_singleton, hpass, hrequest] at hbound
  exact absurd hbound (by decide)

/-- A reply finds no state, with or without a request. Whatever the missing value is
taken for, either the answer to a request is lost or a reply passes that nobody asked for. -/
theorem reply_without_verdict :
    ∃ g : GApps hashString, created = .ok g ∧ ∀ drop, ∃ events g' trace,
      run home g events = .ok (g', trace) ∧ ¬ Defended trace ∧
        ¬ Defended (trace.map (Outcome.taken drop)) := by
  refine ⟨_, created_eq, fun drop => ?_⟩
  have hfind : (GApps.start.append createdApp rfl : GApps hashString).find appId =
      some createdApp := rfl
  have hinv : Invariant home false (createdApp : ControllApp hashString) := createdApp_invariant home
  have hverdict : ∀ asked, verdict hashString home asked = .error .noStEntry := by decide +kernel
  cases drop with
  | false =>
    obtain ⟨g₁, app₁, hanswer, -⟩ := hinv.reply hfind ⟨5353, 2, 0, fun _ => 0⟩
    have hnil := (rfl : run home (GApps.start.append createdApp rfl : GApps hashString) [] = _)
    have hrun := run_snoc hnil hanswer
    rw [hverdict] at hrun
    refine ⟨[answer], g₁, _, hrun, ?_, ?_⟩
    · exact not_defended_unasked nofun
    · exact not_defended_unasked nofun
  | true =>
    obtain ⟨g₁, app₁, hquery, hfind₁, hinv₁⟩ := hinv.request hfind ⟨5353, 0xaa, 0xbb, 1⟩
    obtain ⟨g₂, app₂, hanswer, -⟩ := hinv₁.reply hfind₁ ⟨5353, 2, 0, fun _ => 0⟩
    have hnil := (rfl : run home (GApps.start.append createdApp rfl : GApps hashString) [] = _)
    have hrun := run_snoc (run_snoc hnil hquery) hanswer
    rw [hverdict] at hrun
    refine ⟨[query, answer], g₂, _, hrun, ?_, ?_⟩
    · exact not_defended_unanswered nofun
    · exact not_defended_unanswered nofun

end Sdpa.Protocol.Dns
