import Sdpa.Lib.Histories
import Sdpa.Protocol.Firewall
import Sdpa.Switch.Hash

/-!
# Packets between a client and a server at the firewall

Packets of one connection meet two cells of the state table, one a direction, or a
single one if the keys of the two directions have the same hash. Seen through the
cells, `xlate_fp` is a small automaton on the flags.
-/
namespace Sdpa.Protocol.Firewall

open Sdpa.Lib.Endian
open Sdpa.Lib.Histories
open Sdpa.Controller
open Sdpa.Switch
open Sdpa.Controller.StateFirewall (appId bitMap stCalls atCalls)

variable {hash : Key → BitVec 32}

/-! ## Segments -/

/-- A packet between the client and the server. -/
structure Segment where
  fromClient : Bool
  flags : BitVec 16
  /-- All fields but the addresses. -/
  rest : Flow

namespace Opening

variable (o : Opening)

def src (fromClient : Bool) : BitVec 32 := if fromClient then o.client else o.server

def dst (fromClient : Bool) : BitVec 32 := if fromClient then o.server else o.client

/-- The key of a direction. -/
def key (fromClient : Bool) : Key := addressKey (o.src fromClient) (o.dst fromClient)

def flow (seg : Segment) : Flow :=
  (seg.rest.set .nwSrc (htonl (o.src seg.fromClient))).set .nwDst (htonl (o.dst seg.fromClient))

def packet (seg : Segment) : FpPacket := Firewall.packet (o.flow seg) seg.flags

theorem keyOf_flow (seg : Segment) : keyOf (o.flow seg) = o.key seg.fromClient := by
  have hsrc : o.flow seg .nwSrc = htonl (o.src seg.fromClient) := by
    rw [flow, Flow.set_of_ne _ _ (by decide), Flow.set_self]
  have hdst : o.flow seg .nwDst = htonl (o.dst seg.fromClient) := by
    rw [flow, Flow.set_self]
  rw [keyOf, hsrc, hdst, addressText, addressText]
  rfl

end Opening

/-- `xlate_fp` on one packet after the other. -/
def fpRun (g : GApps hash) (packets : List FpPacket) :
    Except Fault (GApps hash × List (Except NoValue Bool)) :=
  packets.foldlM (fun acc p => do
    let r ← p.run acc.1
    return (r.apps, acc.2 ++ [r.drop])) (g, [])

theorem fpRun_snoc {g g' : GApps hash} {packets : List FpPacket} {vs : List (Except NoValue Bool)}
    (h : fpRun g packets = .ok (g', vs)) {p : FpPacket} {r : FpResult hash}
    (hr : p.run g' = .ok r) : fpRun g (packets ++ [p]) = .ok (r.apps, vs ++ [r.drop]) := by
  rw [fpRun, List.foldlM_append]
  have hfirst : packets.foldlM (fun (acc : GApps hash × List (Except NoValue Bool)) p => do
      let r ← p.run acc.1
      return (r.apps, acc.2 ++ [r.drop])) (g, []) = .ok (g', vs) := h
  rw [hfirst]
  simp only [bind, Except.bind, List.foldlM_cons, List.foldlM_nil, hr]
  rfl

/-! ## The cells -/

/-- The state that packets of each direction find. -/
abbrev Cells := Bool → BitVec 32

/-- A direction whose key has the hash of the client's finds the client's entry. -/
def initial (hash : Key → BitVec 32) (o : Opening) : Cells := fun d =>
  if hash (o.key d) = hash (o.key true) then 1 else 2

def dropped (st : Cells) (seg : Segment) : Bool := next seg.flags (st seg.fromClient) == 0

def after (hash : Key → BitVec 32) (o : Opening) (st : Cells) (seg : Segment) : Cells := fun d =>
  if next seg.flags (st seg.fromClient) ≠ 0 ∧ hash (o.key d) = hash (o.key seg.fromClient) then
    next seg.flags (st seg.fromClient)
  else st d

def cells (hash : Key → BitVec 32) (o : Opening) (segs : List Segment) : Cells :=
  segs.foldl (after hash o) (initial hash o)

theorem cells_snoc (o : Opening) (segs : List Segment) (seg : Segment) :
    cells hash o (segs ++ [seg]) = after hash o (cells hash o segs) seg := by
  rw [cells, List.foldl_append]
  rfl

/-- The packets that are dropped. -/
def verdicts (hash : Key → BitVec 32) (o : Opening) (st : Cells) : List Segment → List Bool
  | [] => []
  | seg :: segs => dropped st seg :: verdicts hash o (after hash o st seg) segs

theorem verdicts_append (o : Opening) (st : Cells) (segs segs' : List Segment) :
    verdicts hash o st (segs ++ segs') =
      verdicts hash o st segs ++ verdicts hash o (segs.foldl (after hash o) st) segs' := by
  induction segs generalizing st with
  | nil => rfl
  | cons seg segs ih =>
    rw [List.cons_append, verdicts, verdicts, ih]
    rfl

theorem verdicts_length (o : Opening) (st : Cells) (segs : List Segment) :
    (verdicts hash o st segs).length = segs.length := by
  induction segs generalizing st with
  | nil => rfl
  | cons seg segs ih => rw [verdicts, List.length_cons, List.length_cons, ih]

/-- The tables hold what the cells say. -/
structure Tracks (o : Opening) (g : GApps hash) (st : Cells) : Prop where
  found : ∃ app, g.find appId = some app ∧ Invariant app ∧
    ∀ d, ∃ e, app.pst.stEntrys.first (o.key d) = some e ∧ e.lastStatus = st d

theorem Tracks.packet {o : Opening} {g : GApps hash} {st : Cells} (h : Tracks o g st)
    (seg : Segment) : ∃ r, (o.packet seg).run g = .ok r ∧ r.drop = .ok (dropped st seg) ∧
      Tracks o r.apps (after hash o st seg) := by
  obtain ⟨app, hfind, hinv, hcells⟩ := h.found
  obtain ⟨e, hfirst, hstatus⟩ := hcells seg.fromClient
  have hkey : app.pst.stEntrys.first (keyOf (o.flow seg)) = some e := by
    rw [o.keyOf_flow]
    exact hfirst
  have hrun := run_packet hfind hinv (o.flow seg) seg.flags hkey
  rw [hstatus] at hrun
  refine ⟨_, hrun, rfl, ?_⟩
  by_cases hzero : next seg.flags (st seg.fromClient) = 0
  · have hsame : after hash o st seg = st := by
      funext d
      exact if_neg (fun hd => hd.1 hzero)
    rw [hsame]
    change Tracks o (updateState _ _ _ _) st
    rw [updateState, if_pos hzero]
    exact h
  · change Tracks o (updateState _ _ _ _) _
    rw [updateState, if_neg hzero, o.keyOf_flow]
    have hne : next seg.flags e.lastStatus ≠ 0 := by
      rw [hstatus]
      exact hzero
    have hinv' := hinv.writeStatus hfirst hne
    rw [hstatus] at hinv'
    refine ⟨⟨_, ?_, hinv', fun d => ?_⟩⟩
    · rw [GApps.writeStatus, GApps.find_modify, if_pos rfl, hfind]
      rfl
    · obtain ⟨e', hfirst', hstatus'⟩ := hcells d
      change ∃ e'', (app.pst.stEntrys.write _ _ (StMatchEntry.setStatus_data _)).first (o.key d) =
        some e'' ∧ _
      rw [first_write, after]
      by_cases hhash : hash (o.key d) = hash (o.key seg.fromClient)
      · rw [if_pos hhash, if_pos ⟨hzero, hhash⟩, hfirst']
        exact ⟨_, rfl, rfl⟩
      · rw [if_neg hhash, if_neg (fun hd => hhash hd.2)]
        exact ⟨e', hfirst', hstatus'⟩

/-- What the packets of a run meet, and what becomes of them. -/
theorem Tracks.run {o : Opening} {g : GApps hash} {st : Cells} (h : Tracks o g st)
    (segs : List Segment) :
    ∃ g', fpRun g (segs.map o.packet) = .ok (g', (verdicts hash o st segs).map .ok) ∧
      Tracks o g' (segs.foldl (after hash o) st) := by
  induction segs using List.reverseRecOn with
  | nil => exact ⟨g, rfl, h⟩
  | append_singleton segs seg ih =>
    obtain ⟨g', hrun, htracks⟩ := ih
    obtain ⟨r, hr, hdrop, hnext⟩ := htracks.packet seg
    refine ⟨r.apps, ?_, ?_⟩
    · rw [List.map_append, List.map_singleton, fpRun_snoc hrun hr, verdicts_append, List.map_append,
        hdrop]
      rfl
    · rw [List.foldl_append]
      exact hnext

/-! ## Installation -/

/-- The switch right after the installation for a packet-in. -/
def installed (o : Opening) : Except Fault (GApps hash) := do
  let g ← created
  install o g

/-- The state table after the first installation. -/
theorem first_installed (hash : Key → BitVec 32) (fwd bwd : Key) :
    ((stCalls fwd bwd).foldl applyStItem (Entries.init : Entries hash _)).first fwd =
        some ⟨fwd, 1⟩ ∧
      ((stCalls fwd bwd).foldl applyStItem (Entries.init : Entries hash _)).first bwd =
        some (if hash bwd = hash fwd then ⟨fwd, 1⟩ else ⟨bwd, 2⟩) := by
  have hinit : DistinctHashes (Entries.init : Entries hash StMatchEntry.data) := distinct_init
  have hd := distinct_add hinit (STDATA.new 1 fwd)
  have hfirst : ∀ key, ((stCalls fwd bwd).foldl applyStItem (Entries.init : Entries hash _)).first key =
      (if hash fwd = hash key then some ⟨fwd, 1⟩ else none).or
        (if hash bwd = hash key then some ⟨bwd, 2⟩ else none) := by
    intro key
    change (applyStItem (applyStItem _ (.add, STDATA.new 1 fwd)) (.add, STDATA.new 2 bwd)).first key = _
    rw [first_add hd, first_add hinit, first_init]
    rfl
  refine ⟨?_, ?_⟩
  · rw [hfirst, if_pos rfl, Option.some_or]
  · rw [hfirst, if_pos rfl]
    by_cases hhash : hash bwd = hash fwd
    · rw [if_pos hhash.symm, if_pos hhash, Option.some_or]
    · rw [if_neg (Ne.symm hhash), if_neg hhash, Option.none_or]

theorem installed_tracks (o : Opening) :
    ∃ g : GApps hash, installed o = .ok g ∧ Tracks o g (initial hash o) := by
  have hcreated : (GApps.start.append createdApp rfl : GApps hash).find appId = some createdApp := rfl
  obtain ⟨g, hinstall, hfind⟩ := install_eq o hcreated
  refine ⟨g, ?_, ⟨_, hfind, createdApp_invariant.install, fun d => ?_⟩⟩
  · simp only [installed, created_eq, bind, Except.bind]
    exact hinstall
  · obtain ⟨hfwd, hbwd⟩ := first_installed hash (o.key true) (o.key false)
    cases d with
    | true => exact ⟨_, hfwd, (if_pos rfl).symm⟩
    | false =>
      refine ⟨_, hbwd, ?_⟩
      rw [initial]
      split <;> rfl

/-! ## Server packets that nobody asked for -/

/-- Every packet of the server that may pass follows a SYN of the client that has passed. -/
def Solicited (trace : List (Segment × Except NoValue Bool)) : Prop :=
  AtEach (fun past x => x.1.fromClient = false → x.2 ≠ .ok true →
    ∃ y ∈ past, y.1.fromClient = true ∧ syn y.1.flags = true ∧ y.2 = .ok false) trace

/-- Before the client's first SYN the server sends ACK or FIN only, without SYN. -/
def ServerWaits (segs : List Segment) : Prop :=
  AtEach (fun past x => x.fromClient = false →
    (∀ y ∈ past, y.fromClient = true → syn y.flags = false) →
      syn x.flags = false ∧ (ack x.flags = true ∨ fin x.flags = true)) segs

theorem dropped_initial (o : Opening) (seg : Segment) :
    dropped (initial hash o) seg = (!syn seg.flags && (ack seg.flags || fin seg.flags)) := by
  have hall : ∀ s a f, (walk s a f 1 == 0) = (!s && (a || f)) ∧
      (walk s a f 2 == 0) = (!s && (a || f)) := by decide
  rw [dropped, initial, next_eq_walk]
  split
  · exact (hall _ _ _).1
  · exact (hall _ _ _).2

theorem after_of_dropped (o : Opening) {st : Cells} {seg : Segment} (h : dropped st seg = true) :
    after hash o st seg = st := by
  funext d
  exact if_neg (fun hd => hd.1 (eq_of_beq h))

/-- A client packet without SYN changes nothing at the start. -/
theorem after_initial_client (o : Opening) {seg : Segment} (hc : seg.fromClient = true)
    (hs : syn seg.flags = false) : after hash o (initial hash o) seg = initial hash o := by
  by_cases hd : dropped (initial hash o) seg = true
  · exact after_of_dropped o hd
  · rw [dropped_initial, hs] at hd
    have hone : initial hash o seg.fromClient = 1 := by
      rw [initial, hc, if_pos rfl]
    have hall : ∀ a f, ¬ (!false && (a || f)) = true → walk false a f 1 = 1 := by decide
    have hnext : next seg.flags 1 = 1 := by
      rw [next_eq_walk, hs]
      exact hall _ _ hd
    funext d
    rw [after, hone, hnext, hc, initial]
    by_cases hhash : hash (o.key d) = hash (o.key true)
    · rw [if_pos ⟨by decide, hhash⟩, if_pos hhash]
    · rw [if_neg (fun h => hhash h.2)]

/-- What a run looks like while the server waits. -/
structure Waiting (hash : Key → BitVec 32) (o : Opening) (segs : List Segment)
    (trace : List (Segment × Except NoValue Bool)) : Prop where
  solicited : Solicited trace ↔ ServerWaits segs
  asked : ServerWaits segs → (∃ y ∈ segs, y.fromClient = true ∧ syn y.flags = true) →
    ∃ y ∈ trace, y.1.fromClient = true ∧ syn y.1.flags = true ∧ y.2 = .ok false
  unasked : ServerWaits segs → (∀ y ∈ segs, y.fromClient = true → syn y.flags = false) →
    cells hash o segs = initial hash o

section

variable {o : Opening} {segs : List Segment} {trace : List (Segment × Except NoValue Bool)}
  {x : Segment}

/-- Once the client has asked, nothing more is to be shown. -/
theorem Waiting.snoc_asked {verdict : Except NoValue Bool} (h : Waiting hash o segs trace)
    (hasked : ∃ y ∈ segs, y.fromClient = true ∧ syn y.flags = true) :
    Waiting hash o (segs ++ [x]) (trace ++ [(x, verdict)]) where
  solicited := by
    rw [Solicited, ServerWaits, atEach_snoc, atEach_snoc]
    constructor
    · rintro ⟨hs, -⟩
      refine ⟨h.solicited.mp hs, fun _ hno => ?_⟩
      obtain ⟨y, hy, hc, hsyn⟩ := hasked
      exact absurd hsyn (by rw [hno y hy hc]; decide)
    · rintro ⟨hw, -⟩
      exact ⟨h.solicited.mpr hw, fun _ _ => h.asked hw hasked⟩
  asked := by
    intro hw _
    obtain ⟨y, hy, hrest⟩ := h.asked (atEach_snoc.mp hw).1 hasked
    exact ⟨y, List.mem_append_left _ hy, hrest⟩
  unasked := by
    intro _ hno
    obtain ⟨y, hy, hc, hsyn⟩ := hasked
    exact absurd hsyn (by rw [hno y (List.mem_append_left _ hy) hc]; decide)

/-- Before that, the cells are those of the start as long as the server waits. -/
theorem Waiting.snoc_unasked (h : Waiting hash o segs trace) (hfst : ∀ y ∈ trace, y.1 ∈ segs)
    (hno : ∀ y ∈ segs, y.fromClient = true → syn y.flags = false) :
    Waiting hash o (segs ++ [x]) (trace ++ [(x, .ok (dropped (cells hash o segs) x))]) where
  solicited := by
    rw [Solicited, ServerWaits, atEach_snoc, atEach_snoc]
    constructor
    · rintro ⟨hs, hx⟩
      have hw := h.solicited.mp hs
      refine ⟨hw, fun hserver _ => ?_⟩
      rw [h.unasked hw hno, dropped_initial] at hx
      have hdrop : (!syn x.flags && (ack x.flags || fin x.flags)) = true := by
        by_contra hpass
        obtain ⟨y, hy, hc, hs, -⟩ := hx hserver (fun heq => hpass (Except.ok.inj heq))
        exact absurd hs (by rw [hno y.1 (hfst y hy) hc]; decide)
      simpa using hdrop
    · rintro ⟨hw, hx⟩
      refine ⟨h.solicited.mpr hw, fun hserver hpass => ?_⟩
      rw [h.unasked hw hno, dropped_initial] at hpass
      obtain ⟨hsyn, hflags⟩ := hx hserver hno
      exact absurd (by simp [hsyn, hflags]) hpass
  asked := by
    rintro hw ⟨y, hy, hc, hs⟩
    have hw₀ : ServerWaits segs := (atEach_snoc.mp hw).1
    rcases List.mem_append.mp hy with hold | hnew
    · exact absurd hs (by rw [hno y hold hc]; decide)
    · obtain rfl := List.mem_singleton.mp hnew
      refine ⟨_, List.mem_append_right _ (List.mem_singleton.mpr rfl), hc, hs, ?_⟩
      rw [h.unasked hw₀ hno, dropped_initial, hs]
      rfl
  unasked := by
    intro hw hno'
    obtain ⟨hw, hx⟩ := atEach_snoc.mp hw
    rw [cells_snoc, h.unasked hw hno]
    cases hc : x.fromClient with
    | true => exact after_initial_client o hc (hno' x (by simp) hc)
    | false =>
      obtain ⟨hsyn, hflags⟩ := hx hc hno
      apply after_of_dropped
      rw [dropped_initial]
      simp [hsyn, hflags]

end

theorem waiting_run (o : Opening) (segs : List Segment) :
    Waiting hash o segs (segs.zip ((verdicts hash o (initial hash o) segs).map .ok)) := by
  induction segs using List.reverseRecOn with
  | nil =>
    refine ⟨⟨fun _ => atEach_nil, fun _ => atEach_nil⟩, ?_, fun _ _ => rfl⟩
    rintro _ ⟨y, hy, -⟩
    exact (List.not_mem_nil hy).elim
  | append_singleton segs x ih =>
    have hzip : (segs ++ [x]).zip ((verdicts hash o (initial hash o) (segs ++ [x])).map .ok) =
        segs.zip ((verdicts hash o (initial hash o) segs).map .ok) ++
          [(x, (.ok (dropped (cells hash o segs) x) : Except NoValue Bool))] := by
      rw [verdicts_append, List.map_append, List.zip_append (by
        rw [List.length_map, verdicts_length])]
      rfl
    rw [hzip]
    by_cases hasked : ∃ y ∈ segs, y.fromClient = true ∧ syn y.flags = true
    · exact ih.snoc_asked hasked
    · refine ih.snoc_unasked (fun y hy => (List.of_mem_zip hy).1) ?_
      intro y hy hc
      cases hs : syn y.flags with
      | false => rfl
      | true => exact absurd ⟨y, hy, hc, hs⟩ hasked

/-- Right after installation, packets of the server pass unasked exactly if one of
them carries SYN, or none of SYN, ACK and FIN, before the client's first SYN. -/
theorem solicited_iff (o : Opening) :
    ∃ g : GApps hash, installed o = .ok g ∧ ∀ segs : List Segment, ∃ g' vs,
      fpRun g (segs.map o.packet) = .ok (g', vs) ∧
        (Solicited (segs.zip vs) ↔ ServerWaits segs) := by
  obtain ⟨g, hinstalled, htracks⟩ := installed_tracks o
  refine ⟨g, hinstalled, fun segs => ?_⟩
  obtain ⟨g', hrun, -⟩ := htracks.run segs
  exact ⟨g', _, hrun, (waiting_run o segs).solicited⟩

theorem web_unicast : (0xbb : BitVec 48) ≠ BitVec.allOnes 48 := by decide

/-- A web client and its server. -/
def web : Opening where
  client := 0x0a000001
  server := 0x0a000002
  clientPort := 1024
  serverPort := 80
  srcMAC := 0xaa
  dstMAC := 0xbb
  inPort := 1
  unicast := web_unicast

/-- The server opens a connection to the client, and its SYN passes. -/
theorem server_syn_passes :
    ∃ g : GApps hashString, installed web = .ok g ∧ ∃ g' vs,
      fpRun g ([⟨false, 2, fun _ => 0⟩].map web.packet) = .ok (g', vs) ∧ vs = [.ok false] ∧
        ¬ Solicited ([⟨false, 2, fun _ => 0⟩].zip vs) := by
  obtain ⟨g, hinstalled, htracks⟩ := installed_tracks (web : Opening)
  obtain ⟨g', hrun, -⟩ := htracks.run [⟨false, 2, fun _ => 0⟩]
  have hpass : verdicts hashString web (initial hashString web) [⟨false, 2, fun _ => 0⟩] =
      [false] := by decide +kernel
  rw [hpass] at hrun
  refine ⟨g, hinstalled, g', _, hrun, rfl, fun h => ?_⟩
  obtain ⟨y, hy, -⟩ := h [] (⟨false, 2, fun _ => 0⟩, .ok false) [] rfl rfl (by decide)
  exact List.not_mem_nil hy

end Sdpa.Protocol.Firewall
