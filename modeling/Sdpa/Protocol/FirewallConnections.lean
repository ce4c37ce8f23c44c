import Sdpa.Protocol.FirewallRuns

/-!
# Two connections between the same hosts at the firewall

The bitmap of the firewall has the addresses and no ports, so that packets of two
connections between the same hosts meet the same cells. A packet is judged as if
its connection were alone exactly as long as no earlier packet of the other
connection has met its cell.
-/
namespace Sdpa.Protocol.Firewall

open Sdpa.Lib.Histories
open Sdpa.Controller
open Sdpa.Switch
open Sdpa.Controller.StateFirewall (appId stCalls atCalls)

variable {hash : Key → BitVec 32}

/-! ## Connections -/

structure Connections where
  first : Opening
  second : Opening
  client_eq : second.client = first.client
  server_eq : second.server = first.server
  ports_ne : (second.clientPort, second.serverPort) ≠ (first.clientPort, first.serverPort)

/-- A packet of one of two connections. -/
structure ConnPacket where
  ofSecond : Bool
  seg : Segment

/-- Which connection a packet is of, and whether the client sends it. -/
def ConnPacket.slot (x : ConnPacket) : Bool × Bool := (x.ofSecond, x.seg.fromClient)

/-- The ports of the connection are those of the packet-in that opened it. -/
def Opening.withPorts (o : Opening) (seg : Segment) : Segment :=
  { seg with
    rest := (seg.rest.set .tpSrc (htons (if seg.fromClient then o.clientPort else o.serverPort))).set
      .tpDst (htons (if seg.fromClient then o.serverPort else o.clientPort)) }

namespace Connections

variable (c : Connections)

def opening (ofSecond : Bool) : Opening := if ofSecond then c.second else c.first

def packet (x : ConnPacket) : FpPacket :=
  (c.opening x.ofSecond).packet ((c.opening x.ofSecond).withPorts x.seg)

/-- The switch right after the packets that open the connections have been to the controller. -/
def installed : Except Fault (GApps hash) := do
  let g ← Firewall.installed c.first
  install c.second g

end Connections

/-- What becomes of a packet after others. -/
def verdictAfter (g : GApps hash) (past : List FpPacket) (p : FpPacket) :
    Except Fault (Except NoValue Bool) := do
  let (g', _) ← fpRun g past
  let r ← p.run g'
  return r.drop

/-- Each packet is treated as if the packets of the other connection had not come. -/
def Connections.Independent (c : Connections) (g : GApps hash) (run : List ConnPacket) : Prop :=
  AtEach (fun past x => verdictAfter g (past.map c.packet) (c.packet x) =
    verdictAfter g ((past.filter (·.ofSecond == x.ofSecond)).map c.packet) (c.packet x)) run

/-- No packet meets the cell of an earlier packet of the other connection. -/
def Separate (hash : Key → BitVec 32) (o : Opening) (pattern : List (Bool × Bool)) : Prop :=
  AtEach (fun past x => ∀ y ∈ past, hash (o.key y.2) = hash (o.key x.2) → y.1 = x.1) pattern

/-! ## Both connections meet the same cells -/

def Connections.segment (c : Connections) (x : ConnPacket) : Segment :=
  (c.opening x.ofSecond).withPorts x.seg

theorem Connections.packet_eq (c : Connections) (x : ConnPacket) :
    c.packet x = c.first.packet (c.segment x) := by
  have hflow : ∀ seg, c.second.flow seg = c.first.flow seg := by
    intro seg
    simp only [Opening.flow, Opening.src, Opening.dst, c.client_eq, c.server_eq]
  rw [packet, Opening.packet, Opening.packet]
  cases hx : x.ofSecond with
  | false =>
    have hopening : c.opening false = c.first := rfl
    rw [segment, hx, hopening]
  | true =>
    have hopening : c.opening true = c.second := rfl
    rw [segment, hx, hopening, hflow]

/-- A further packet-in leaves the entries that are there. -/
theorem Tracks.install {o : Opening} {g : GApps hash} {st : Cells} (h : Tracks o g st)
    (o' : Opening) : ∃ g', Firewall.install o' g = .ok g' ∧ Tracks o g' st := by
  obtain ⟨app, hfind, hinv, hcells⟩ := h.found
  obtain ⟨g', hinstall, hfind'⟩ := install_eq o' hfind
  refine ⟨g', hinstall, ⟨_, hfind', hinv.install, fun d => ?_⟩⟩
  obtain ⟨e, hfirst, hstatus⟩ := hcells d
  obtain ⟨hmem, hhash⟩ := mem_of_first hfirst
  refine ⟨e, ?_, hstatus⟩
  rw [first_congr _ hhash.symm]
  exact first_of_mem hinv.install.distinct (mem_add.mpr (.inl (mem_add.mpr (.inl hmem))))

theorem Connections.installed_tracks (c : Connections) :
    ∃ g : GApps hash, c.installed = .ok g ∧ Tracks c.first g (initial hash c.first) := by
  obtain ⟨g, hfirst, htracks⟩ : ∃ g : GApps hash, _ := Firewall.installed_tracks c.first
  obtain ⟨g', hsecond, htracks'⟩ := htracks.install c.second
  refine ⟨g', ?_, htracks'⟩
  rw [installed, hfirst]
  exact hsecond

theorem Tracks.verdictAfter {o : Opening} {g : GApps hash} (h : Tracks o g (initial hash o))
    (past : List Segment) (seg : Segment) :
    verdictAfter g (past.map o.packet) (o.packet seg) =
      .ok (.ok (dropped (cells hash o past) seg)) := by
  obtain ⟨g', hrun, htracks⟩ := h.run past
  obtain ⟨r, hr, hdrop, -⟩ := htracks.packet seg
  rw [Firewall.verdictAfter, hrun]
  simp only [bind, Except.bind, hr, hdrop, pure, Except.pure]
  rfl

theorem Connections.independent_iff_cells (c : Connections) {g : GApps hash}
    (h : Tracks c.first g (initial hash c.first)) (run : List ConnPacket) :
    c.Independent g run ↔ AtEach (fun past x =>
      dropped (cells hash c.first (past.map c.segment)) (c.segment x) =
        dropped (cells hash c.first ((past.filter (·.ofSecond == x.ofSecond)).map c.segment))
          (c.segment x)) run := by
  have hmap : ∀ l : List ConnPacket, l.map c.packet = (l.map c.segment).map c.first.packet := by
    intro l
    rw [List.map_map]
    exact List.map_congr_left fun x _ => c.packet_eq x
  refine forall₄_congr fun past x future _ => ?_
  simp only [hmap, c.packet_eq, h.verdictAfter, Except.ok.injEq]

/-! ## Cells that only one connection meets -/

theorem after_of_ne (o : Opening) (st : Cells) (seg : Segment) {d : Bool}
    (h : hash (o.key seg.fromClient) ≠ hash (o.key d)) : after hash o st seg d = st d :=
  if_neg fun hd => h hd.2.symm

/-- A cell is left alone by packets that do not meet it. -/
theorem cells_filter (c : Connections) (ofSecond : Bool) (run : List ConnPacket) (d : Bool)
    (h : ∀ y ∈ run, hash (c.first.key y.seg.fromClient) = hash (c.first.key d) →
      y.ofSecond = ofSecond) :
    cells hash c.first (run.map c.segment) d =
      cells hash c.first ((run.filter (·.ofSecond == ofSecond)).map c.segment) d := by
  induction run using List.reverseRecOn generalizing d with
  | nil => rfl
  | append_singleton run y ih =>
    have hrun : ∀ d', hash (c.first.key d') = hash (c.first.key d) →
        cells hash c.first (run.map c.segment) d' =
          cells hash c.first ((run.filter (·.ofSecond == ofSecond)).map c.segment) d' := by
      intro d' hd'
      refine ih d' fun z hz hhash => ?_
      exact h z (List.mem_append_left _ hz) (hhash.trans hd')
    rw [List.map_append, List.map_singleton, cells_snoc, List.filter_append]
    by_cases hhash : hash (c.first.key y.seg.fromClient) = hash (c.first.key d)
    · -- the packet is of the connection, and finds the same state in both runs
      have hown : (y.ofSecond == ofSecond) = true :=
        beq_iff_eq.mpr (h y (List.mem_append_right _ (List.mem_singleton.mpr rfl)) hhash)
      rw [List.filter_singleton, hown, cond_true, List.map_append, List.map_singleton, cells_snoc,
        after, after]
      have hfound := hrun (c.segment y).fromClient hhash
      rw [hfound, hrun d rfl]
    · rw [after_of_ne _ _ (c.segment y) hhash, hrun d rfl, List.filter_singleton]
      cases hown : y.ofSecond == ofSecond with
      | false => rw [cond_false, List.append_nil]
      | true =>
        rw [cond_true, List.map_append, List.map_singleton, cells_snoc]
        exact (after_of_ne _ _ (c.segment y) hhash).symm

theorem Connections.independent_of_separate (c : Connections) {g : GApps hash}
    (h : Tracks c.first g (initial hash c.first)) {run : List ConnPacket}
    (hsep : Separate hash c.first (run.map ConnPacket.slot)) : c.Independent g run := by
  rw [c.independent_iff_cells h]
  rintro past x future rfl
  rw [List.map_append, List.map_cons] at hsep
  have hpast := hsep _ _ _ rfl
  rw [dropped, dropped, cells_filter c x.ofSecond past]
  intro y hy hhash
  exact hpast y.slot (List.mem_map_of_mem hy) hhash

/-! ## Cells that both connections meet -/

/-- Directions that share a cell find the same state. -/
def Respects (hash : Key → BitVec 32) (o : Opening) (st : Cells) : Prop :=
  ∀ d d', hash (o.key d) = hash (o.key d') → st d = st d'

theorem respects_initial (hash : Key → BitVec 32) (o : Opening) :
    Respects hash o (initial hash o) := by
  intro d d' h
  rw [initial, initial, h]

theorem Respects.after {o : Opening} {st : Cells} (h : Respects hash o st) (seg : Segment) :
    Respects hash o (after hash o st seg) := by
  intro d d' hhash
  rw [Firewall.after, Firewall.after, hhash, h d d' hhash]

/-- Packets without any of the three flags change nothing. -/
theorem Respects.quiet {c : Connections} {st : Cells} (h : Respects hash c.first st)
    {l : List ConnPacket} (hquiet : ∀ z ∈ l, z.seg.flags = 0) :
    (l.map c.segment).foldl (Firewall.after hash c.first) st = st := by
  induction l with
  | nil => rfl
  | cons z l ih =>
    have hzero : (c.segment z).flags = 0 := hquiet z List.mem_cons_self
    have hnext : ∀ status, next (c.segment z).flags status = status := by
      intro status
      rw [hzero, next_eq_walk]
      simp [walk, syn, ack, fin]
    have hsame : Firewall.after hash c.first st (c.segment z) = st := by
      funext d
      rw [Firewall.after, hnext]
      split
      case isTrue hd => exact (h d _ hd.2).symm
      case isFalse => rfl
    rw [List.map_cons, List.foldl_cons, hsame]
    exact ih fun z' h' => hquiet z' (List.mem_cons_of_mem z h')

/-- An ACK is dropped at the start, and passes after a SYN at the same cell. -/
theorem dropped_ack (o : Opening) (synSeg ackSeg : Segment) (hsyn : synSeg.flags = 2)
    (hack : ackSeg.flags = 16)
    (h : hash (o.key synSeg.fromClient) = hash (o.key ackSeg.fromClient)) :
    dropped (initial hash o) ackSeg = true ∧
      dropped (after hash o (initial hash o) synSeg) ackSeg = false := by
  have hflags : ∀ s : BitVec 32, s = 1 ∨ s = 2 → next 16 s = 0 ∧ next 2 s ≠ 0 ∧
      next 16 (next 2 s) ≠ 0 := by
    rintro s (rfl | rfl) <;> decide +kernel
  have hcell : initial hash o ackSeg.fromClient = 1 ∨ initial hash o ackSeg.fromClient = 2 := by
    rw [initial]
    split
    · exact .inl rfl
    · exact .inr rfl
  obtain ⟨hzero, hnext, hpass⟩ := hflags _ hcell
  refine ⟨?_, ?_⟩
  · rw [dropped, hack, hzero]
    rfl
  · rw [dropped, hack, after, hsyn, respects_initial hash o _ _ h, if_pos ⟨hnext, h.symm⟩]
    exact beq_eq_false_iff_ne.mpr hpass

/-- A packet at a slot. -/
def ConnPacket.at (flags : BitVec 16) (slot : Bool × Bool) : ConnPacket :=
  ⟨slot.1, slot.2, flags, fun _ => 0⟩

theorem Connections.separate_of_independent (c : Connections) {g : GApps hash}
    (h : Tracks c.first g (initial hash c.first)) {pattern : List (Bool × Bool)}
    (hall : ∀ run, run.map ConnPacket.slot = pattern → c.Independent g run) :
    Separate hash c.first pattern := by
  rintro past x future rfl y hy hhash
  obtain ⟨before, between, rfl⟩ := List.append_of_mem hy
  by_contra hother
  -- the earlier packet carries SYN, the later one ACK, and all others no flag
  have hslots : ∀ l : List (Bool × Bool), (l.map (ConnPacket.at 0)).map ConnPacket.slot = l := by
    intro l
    rw [List.map_map]
    exact List.map_id l
  have hzero : ∀ l : List (Bool × Bool), ∀ z ∈ l.map (ConnPacket.at 0), z.seg.flags = 0 := by
    intro l z hz
    obtain ⟨slot, -, rfl⟩ := List.mem_map.mp hz
    rfl
  have hpre := hzero before
  have hmid := hzero between
  have hrun := hall (before.map (ConnPacket.at 0) ++ ConnPacket.at 2 y ::
    between.map (ConnPacket.at 0) ++ ConnPacket.at 16 x :: future.map (ConnPacket.at 0)) (by
      simp only [List.map_append, List.map_cons, hslots]
      rfl)
  generalize before.map (ConnPacket.at 0) = pre at hpre hrun
  generalize between.map (ConnPacket.at 0) = mid at hmid hrun
  have hsame := (c.independent_iff_cells h _).mp hrun _ _ _ rfl
  have hinit := respects_initial hash c.first
  have hmerged : cells hash c.first ((pre ++ ConnPacket.at 2 y :: mid).map c.segment) =
      after hash c.first (initial hash c.first) (c.segment (.at 2 y)) := by
    rw [cells, List.map_append, List.foldl_append, hinit.quiet hpre, List.map_cons,
      List.foldl_cons, (hinit.after _).quiet hmid]
  have halone : cells hash c.first (((pre ++ ConnPacket.at 2 y :: mid).filter
      (·.ofSecond == (ConnPacket.at 16 x).ofSecond)).map c.segment) = initial hash c.first := by
    refine hinit.quiet fun z hz => ?_
    obtain ⟨hmem, hsecond⟩ := List.mem_filter.mp hz
    rcases List.mem_append.mp hmem with hz | hz
    · exact hpre z hz
    · rcases List.mem_cons.mp hz with rfl | hz
      · exact absurd (beq_iff_eq.mp hsecond) hother
      · exact hmid z hz
  obtain ⟨hdrop, hpass⟩ := dropped_ack c.first (c.segment (.at 2 y)) (c.segment (.at 16 x))
    rfl rfl hhash
  beta_reduce at hsame
  rw [hmerged, halone, hdrop, hpass] at hsame
  cases hsame

/-- Whatever their flags are, the packets of the two connections are treated
independently exactly if no packet meets a cell that an earlier packet of the other
connection has met. -/
theorem independent_iff_separate (c : Connections) :
    ∃ g : GApps hash, c.installed = .ok g ∧ ∀ pattern : List (Bool × Bool),
      (∀ run, run.map ConnPacket.slot = pattern → c.Independent g run) ↔
        Separate hash c.first pattern := by
  obtain ⟨g, hinstalled, htracks⟩ := c.installed_tracks
  refine ⟨g, hinstalled, fun pattern => ⟨c.separate_of_independent htracks, ?_⟩⟩
  rintro hsep run rfl
  exact c.independent_of_separate htracks hsep

/-- Two connections of a web client to its server. -/
def webTwice : Connections where
  first := web
  second := { web with clientPort := 1025 }
  client_eq := rfl
  server_eq := rfl
  ports_ne := by decide

/-- An ACK of a connection that nobody has opened passes after the SYN of another. -/
theorem ack_passes_after_other_syn :
    ∃ g : GApps hashString, webTwice.installed = .ok g ∧
      ¬ webTwice.Independent g [.at 2 (false, true), .at 16 (true, true)] ∧
      verdictAfter g [webTwice.packet (.at 2 (false, true))]
        (webTwice.packet (.at 16 (true, true))) = .ok (.ok false) ∧
      verdictAfter g [] (webTwice.packet (.at 16 (true, true))) = .ok (.ok true) := by
  obtain ⟨g, hinstalled, htracks⟩ : ∃ g : GApps hashString, _ := webTwice.installed_tracks
  have hkey : hashString (web.key true) = hashString (web.key true) := rfl
  obtain ⟨hdrop, hpass⟩ := dropped_ack webTwice.first (webTwice.segment (.at 2 (false, true)))
    (webTwice.segment (.at 16 (true, true))) rfl rfl hkey
  have hboth := htracks.verdictAfter [webTwice.segment (.at 2 (false, true))]
    (webTwice.segment (.at 16 (true, true)))
  have hown := htracks.verdictAfter [] (webTwice.segment (.at 16 (true, true)))
  rw [List.map_singleton, ← webTwice.packet_eq, ← webTwice.packet_eq, cells, List.foldl_cons,
    List.foldl_nil, hpass] at hboth
  rw [← webTwice.packet_eq, cells, List.foldl_nil, hdrop] at hown
  refine ⟨g, hinstalled, fun h => ?_, hboth, hown⟩
  have hsame := h [.at 2 (false, true)] (.at 16 (true, true)) [] rfl
  have heq := hboth.symm.trans (hsame.trans hown)
  cases heq

end Sdpa.Protocol.Firewall
