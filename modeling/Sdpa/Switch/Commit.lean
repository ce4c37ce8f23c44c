import Sdpa.Switch.Ofpact

/-!
# `commit_odp_actions` of `lib/odp-util.c`

The translation changes its copy of the flow and leaves it to a commit to emit the
datapath actions that change the packet in the same way. A commit compares the
flow with the flow as of the last commit, field by field, and un-wildcards what it
writes.
-/
namespace Sdpa.Switch

/-- Datapath actions. -/
inductive OdpAction
  | output (port : BitVec 32)
  | setEthernet (src dst : BitVec 48)
  | popVlan
  | pushVlan (tci : BitVec 16)
  | setIpv4 (src dst : BitVec 32) (tos ttl proto frag : BitVec 8)
  | setIpv6 (src dst : BitVec 128) (label : BitVec 32) (tclass hlimit proto frag : BitVec 8)
  | setArp (sip tip : BitVec 32) (op : BitVec 8) (sha tha : BitVec 48)
  | setTcp (src dst : BitVec 16)
  | setUdp (src dst : BitVec 16)
  | setSctp (src dst : BitVec 16)
  | popMpls (ethertype : BitVec 16)
  | pushMpls (ethertype : BitVec 16) (lse : BitVec 32)
  | setMpls (lse : BitVec 32)
  | setPriority (priority : BitVec 32)
  | setPktMark (mark : BitVec 32)
  | sample (operand : Nat)
  deriving DecidableEq

/-- The bytes of an action as a Netlink attribute. The sample action is that of a
flow sample, with its nested cookie. -/
def OdpAction.size : OdpAction → Nat
  | .output _ => 8
  | .setEthernet _ _ => 20
  | .popVlan => 4
  | .pushVlan _ => 8
  | .setIpv4 .. => 20
  | .setIpv6 .. => 48
  | .setArp .. => 32
  | .setTcp .. | .setUdp .. | .setSctp .. => 12
  | .popMpls _ => 8
  | .pushMpls .. => 12
  | .setMpls _ => 12
  | .setPriority _ | .setPktMark _ => 12
  | .sample _ => 48

/-- `mpls_depth_delta`: one label popped, none changed, or one pushed. -/
inductive MplsDelta
  | popped | unchanged | pushed
  deriving DecidableEq

/-- `enum slow_path_reason`, as far as the translation sets it. -/
structure SlowReasons where
  controller : Bool
  action : Bool
  deriving DecidableEq

def SlowReasons.none : SlowReasons := ⟨false, false⟩

def SlowReasons.any (slow : SlowReasons) : Bool := slow.controller || slow.action

/-- `struct xlate_ctx` with the parts of `xlate_in` and `xlate_out` that change. -/
structure XlateCtx where
  xbridge : Nat
  flow : Flow
  /-- The flow at the last commit. -/
  base : Flow
  /-- The bits that are not wildcarded. -/
  wc : Flow
  odp : List OdpAction
  slow : SlowReasons
  mplsDepthDelta : MplsDelta
  prePushMplsLse : BitVec 32
  stack : List (BitVec 128)
  resubmits : Nat
  tableId : BitVec 8
  exit : Bool
  actionSet : List Act
  /-- The flow modifications that learn actions have made. -/
  flowMods : List (Nat × Flow)

namespace XlateCtx

def put (c : XlateCtx) (f : FlowField) (v : BitVec f.width) : XlateCtx :=
  { c with flow := c.flow.set f v }

/-- `wc->masks.f |= m`. -/
def observe (c : XlateCtx) (f : FlowField) (m : BitVec f.width) : XlateCtx :=
  { c with wc := c.wc.set f (c.wc f ||| m) }

/-- `memset(&wc->masks.f, 0xff, sizeof wc->masks.f)`. -/
def unwildcard (c : XlateCtx) (f : FlowField) : XlateCtx :=
  { c with wc := c.wc.set f (BitVec.allOnes f.width) }

def unwildcards (c : XlateCtx) (fs : List FlowField) : XlateCtx := fs.foldl unwildcard c

def putOdp (c : XlateCtx) (act : OdpAction) : XlateCtx := { c with odp := c.odp ++ [act] }

/-- `base->f = flow->f`. -/
def rebase (c : XlateCtx) (f : FlowField) : XlateCtx := { c with base := c.base.set f (c.flow f) }

def rebases (c : XlateCtx) (fs : List FlowField) : XlateCtx := fs.foldl rebase c

def odpSize (c : XlateCtx) : Nat := (c.odp.map OdpAction.size).sum

end XlateCtx

/-! ## Commits -/

/-- The common form: nothing if the compared fields are as at the last commit, else
the new values of the written ones in one action. -/
def commitSet (compared written observed : List FlowField) (act : Flow → OdpAction)
    (c : XlateCtx) : XlateCtx :=
  if ∀ f ∈ compared, c.base f = c.flow f then c
  else
    let c := (c.unwildcards observed).rebases written
    c.putOdp (act c.base)

def commitSetEtherAddrAction : XlateCtx → XlateCtx :=
  commitSet [.dlSrc, .dlDst] [.dlSrc, .dlDst] [.dlSrc, .dlDst]
    fun base => .setEthernet (base .dlSrc) (base .dlDst)

def commitVlanAction (c : XlateCtx) : XlateCtx :=
  if c.base .vlanTci = c.flow .vlanTci then c
  else
    let c := c.unwildcard .vlanTci
    let c := if c.base .vlanTci &&& vlanCfi ≠ 0 then c.putOdp .popVlan else c
    let c := if c.flow .vlanTci &&& vlanCfi ≠ 0 then c.putOdp (.pushVlan (c.flow .vlanTci)) else c
    c.rebase .vlanTci

def ovsToOdpFrag (nwFrag : BitVec 8) : BitVec 8 :=
  if nwFrag = 0 then 0 else if nwFrag = flowNwFragAny then 1 else 2

def commitSetIpv4Action : XlateCtx → XlateCtx :=
  commitSet [.nwSrc, .nwDst, .nwTos, .nwTtl, .nwFrag] [.nwSrc, .nwDst, .nwTos, .nwTtl]
    [.nwSrc, .nwDst, .nwTos, .nwTtl, .nwProto, .nwFrag]
    fun base => .setIpv4 (base .nwSrc) (base .nwDst) (base .nwTos) (base .nwTtl) (base .nwProto)
      (ovsToOdpFrag (base .nwFrag))

def commitSetIpv6Action : XlateCtx → XlateCtx :=
  commitSet [.ipv6Src, .ipv6Dst, .ipv6Label, .nwTos, .nwTtl, .nwFrag]
    [.ipv6Src, .ipv6Dst, .ipv6Label, .nwTos, .nwTtl]
    [.ipv6Src, .ipv6Dst, .ipv6Label, .nwTos, .nwTtl, .nwProto, .nwFrag]
    fun base => .setIpv6 (base .ipv6Src) (base .ipv6Dst) (base .ipv6Label) (base .nwTos)
      (base .nwTtl) (base .nwProto) (ovsToOdpFrag (base .nwFrag))

def arpFields : List FlowField := [.nwSrc, .nwDst, .nwProto, .arpSha, .arpTha]

/-- The datapath cannot set ARP fields, so the packet takes the slow path. -/
def commitSetArpAction (c : XlateCtx) : XlateCtx :=
  if ∀ f ∈ arpFields, c.base f = c.flow f then c
  else
    let c := commitSet arpFields arpFields arpFields (fun base => .setArp (base .nwSrc)
      (base .nwDst) (base .nwProto) (base .arpSha) (base .arpTha)) c
    { c with slow := { c.slow with action := true } }

def commitSetNwAction (c : XlateCtx) : XlateCtx :=
  if c.flow .nwProto = 0 then c
  else if c.base .dlType = ethTypeIp then commitSetIpv4Action c
  else if c.base .dlType = ethTypeIpv6 then commitSetIpv6Action c
  else if c.base .dlType = ethTypeArp then commitSetArpAction c
  else c

/-- The end of `commit_set_port_action`, for ports that have changed. -/
def writePorts (c : XlateCtx) : XlateCtx :=
  let c := c.unwildcards [.tpSrc, .tpDst]
  let written := c.rebases [.tpSrc, .tpDst]
  if c.flow .nwProto = ipprotoTcp then
    written.putOdp (.setTcp (c.flow .tpSrc) (c.flow .tpDst))
  else if c.flow .nwProto = ipprotoUdp then
    written.putOdp (.setUdp (c.flow .tpSrc) (c.flow .tpDst))
  else if c.flow .nwProto = ipprotoSctp then
    written.putOdp (.setSctp (c.flow .tpSrc) (c.flow .tpDst))
  else c

/-- Ports are taken for absent if both are zero. -/
def commitSetPortAction (c : XlateCtx) : XlateCtx :=
  if !isIpAny c.base || (c.base .tpSrc == 0 && c.base .tpDst == 0) then c
  else if c.base .tpSrc = c.flow .tpSrc ∧ c.base .tpDst = c.flow .tpDst then c
  else writePorts c

def commitMplsAction (c : XlateCtx) : XlateCtx :=
  if c.flow .mplsLse = c.base .mplsLse ∧ c.mplsDepthDelta = .unchanged then c
  else
    let c := c.unwildcard .mplsLse
    let c := match c.mplsDepthDelta with
      | .popped => c.putOdp (.popMpls (c.flow .dlType))
      | .pushed => c.putOdp (.pushMpls (c.flow .dlType) (c.flow .mplsLse))
      | .unchanged => c.putOdp (.setMpls (c.flow .mplsLse))
    { c.rebases [.dlType, .mplsLse] with mplsDepthDelta := .unchanged }

def commitSetPriorityAction : XlateCtx → XlateCtx :=
  commitSet [.skbPriority] [.skbPriority] [.skbPriority] fun base => .setPriority (base .skbPriority)

def commitSetPktMarkAction : XlateCtx → XlateCtx :=
  commitSet [.pktMark] [.pktMark] [.pktMark] fun base => .setPktMark (base .pktMark)

/-- `commit_odp_actions`. MPLS comes after what it might hide. -/
def commitOdpActions (c : XlateCtx) : XlateCtx :=
  let c := commitSetEtherAddrAction c
  let c := commitVlanAction c
  let c := commitSetNwAction c
  let c := commitSetPortAction c
  let c := commitMplsAction c
  let c := commitSetPriorityAction c
  commitSetPktMarkAction c

/-! ## What a commit leaves alone -/

/-- Nothing changes but what commits are about, and actions are only added. -/
structure Commits (c c' : XlateCtx) : Prop where
  rest : c' = { c with
    base := c'.base, wc := c'.wc, odp := c'.odp, slow := c'.slow, mplsDepthDelta := c'.mplsDepthDelta }
  appends : ∃ acts, c'.odp = c.odp ++ acts

namespace Commits

variable {c c' c'' : XlateCtx}

/-- Without an action. -/
theorem quiet (hrest : c' = { c with
      base := c'.base, wc := c'.wc, odp := c'.odp, slow := c'.slow,
      mplsDepthDelta := c'.mplsDepthDelta })
    (hodp : c'.odp = c.odp) : Commits c c' :=
  ⟨hrest, [], hodp.trans (List.append_nil _).symm⟩

theorem refl (c : XlateCtx) : Commits c c := quiet rfl rfl

theorem trans (h : Commits c c') (h' : Commits c' c'') : Commits c c'' := by
  obtain ⟨acts, hodp⟩ := h.appends
  obtain ⟨acts', hodp'⟩ := h'.appends
  refine ⟨?_, acts ++ acts', by rw [hodp', hodp, List.append_assoc]⟩
  have hrest := h'.rest
  rw [h.rest] at hrest
  exact hrest

theorem xbridge (h : Commits c c') : c'.xbridge = c.xbridge := by rw [h.rest]

theorem flow (h : Commits c c') : c'.flow = c.flow := by rw [h.rest]

theorem exit (h : Commits c c') : c'.exit = c.exit := by rw [h.rest]

theorem unwildcards (c : XlateCtx) (fs : List FlowField) : Commits c (c.unwildcards fs) := by
  induction fs generalizing c with
  | nil => exact refl c
  | cons f fs ih => exact (quiet rfl rfl : Commits c (c.unwildcard f)).trans (ih (c.unwildcard f))

theorem rebases (c : XlateCtx) (fs : List FlowField) : Commits c (c.rebases fs) := by
  induction fs generalizing c with
  | nil => exact refl c
  | cons f fs ih => exact (quiet rfl rfl : Commits c (c.rebase f)).trans (ih (c.rebase f))

theorem putOdp (c : XlateCtx) (act : OdpAction) : Commits c (c.putOdp act) := ⟨rfl, [act], rfl⟩

theorem ite {p : Prop} [Decidable p] (h : Commits c c') (h' : Commits c c'') :
    Commits c (if p then c' else c'') := by
  split
  · exact h
  · exact h'

end Commits

theorem commitSet_commits (compared written observed : List FlowField) (act : Flow → OdpAction)
    (c : XlateCtx) : Commits c (commitSet compared written observed act c) :=
  .ite (.refl c) <| (Commits.unwildcards c observed).trans <|
    (Commits.rebases _ written).trans (.putOdp _ _)

theorem commitVlanAction_commits (c : XlateCtx) : Commits c (commitVlanAction c) := by
  have hpop (c : XlateCtx) : Commits c
      (if c.base .vlanTci &&& vlanCfi ≠ 0 then c.putOdp .popVlan else c) :=
    .ite (.putOdp c _) (.refl c)
  have hpush (c : XlateCtx) : Commits c
      (if c.flow .vlanTci &&& vlanCfi ≠ 0 then c.putOdp (.pushVlan (c.flow .vlanTci)) else c) :=
    .ite (.putOdp c _) (.refl c)
  exact .ite (.refl c) <| (Commits.unwildcards c [.vlanTci]).trans <| (hpop _).trans <|
    (hpush _).trans (.rebases _ [.vlanTci])

theorem commitSetNwAction_commits (c : XlateCtx) : Commits c (commitSetNwAction c) := by
  refine .ite (.refl c) (.ite (commitSet_commits ..) (.ite (commitSet_commits ..) (.ite ?_ (.refl c))))
  exact .ite (.refl c) ((commitSet_commits arpFields arpFields arpFields _ c).trans (.quiet rfl rfl))

theorem commitSetPortAction_commits (c : XlateCtx) : Commits c (commitSetPortAction c) := by
  refine .ite (.refl c) (.ite (.refl c) ?_)
  refine (Commits.unwildcards c [.tpSrc, .tpDst]).trans ?_
  have hw := Commits.rebases (c.unwildcards [.tpSrc, .tpDst]) [.tpSrc, .tpDst]
  exact .ite (hw.trans (.putOdp _ _)) (.ite (hw.trans (.putOdp _ _))
    (.ite (hw.trans (.putOdp _ _)) (.refl _)))

theorem commitMplsAction_commits (c : XlateCtx) : Commits c (commitMplsAction c) := by
  refine .ite (.refl c) ?_
  dsimp only
  split <;> exact ⟨rfl, [_], rfl⟩

theorem commitOdpActions_commits (c : XlateCtx) : Commits c (commitOdpActions c) := by
  have ether (c) : Commits c (commitSetEtherAddrAction c) := commitSet_commits ..
  have priority (c) : Commits c (commitSetPriorityAction c) := commitSet_commits ..
  have mark (c) : Commits c (commitSetPktMarkAction c) := commitSet_commits ..
  exact (ether c).trans <| (commitVlanAction_commits _).trans <|
    (commitSetNwAction_commits _).trans <| (commitSetPortAction_commits _).trans <|
    (commitMplsAction_commits _).trans <| (priority _).trans (mark _)

end Sdpa.Switch
