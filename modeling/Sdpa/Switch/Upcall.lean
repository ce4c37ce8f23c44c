import Sdpa.Switch.FlowCache

/-!
# `handle_upcalls` of `ofproto/ofproto-dpif-upcall.c`

A batch of packets that the datapath had no flow for. The packets are gathered into
misses, one for each flow; each miss is translated once, in the order of the hash map;
packets of a miss that takes the slow path are then translated once more, one by one.
-/
namespace Sdpa.Switch

open Sdpa.Lib.Bins

/-! ## The batch -/

/-- A packet, with the bridge it has arrived on. -/
structure Upcall where
  xbridge : Nat
  flow : Flow

/-- `packet_get_tcp_flags`. -/
def packetGetTcpFlags (fl : Flow) : BitVec 16 := htons (fl .tcpFlags)

/-- `struct flow_miss`. -/
structure FlowMiss where
  upcall : Upcall
  tcpFlags : BitVec 16

def flowEqual (a b : Flow) : Bool := allFields.all fun f => a f == b f

theorem flowEqual_iff {a b : Flow} : flowEqual a b = true ↔ a = b := by
  rw [flowEqual, List.all_eq_true]
  constructor
  · intro h
    funext f
    exact eq_of_beq (h f (mem_allFields f))
  · rintro rfl f _
    exact beq_self_eq_true _

/-- `miss_buf` with the hash map whose nodes lie in it, and the miss of each upcall. -/
structure Misses where
  buf : List FlowMiss
  map : Hmap Nat
  owner : List Nat

variable {hash : Key → BitVec 32}

section gather

variable (flowHash : Flow → BitVec 32)

def FlowMiss.same (upcall : Upcall) (miss : FlowMiss) : Bool :=
  miss.upcall.xbridge == upcall.xbridge && flowEqual miss.upcall.flow upcall.flow

/-- `flow_miss_find`. -/
def flowMissFind (s : Misses) (upcall : Upcall) : Option Nat :=
  (chain s.map (flowHash upcall.flow)).find? fun i => (s.buf[i]?).any (FlowMiss.same upcall)

def FlowMiss.orFlags (upcall : Upcall) (miss : FlowMiss) : FlowMiss :=
  { miss with tcpFlags := miss.tcpFlags ||| packetGetTcpFlags upcall.flow }

/-- A round of the first loop. -/
def gatherUpcall (s : Misses) (upcall : Upcall) : Misses :=
  match flowMissFind flowHash s upcall with
  | some i => { s with buf := s.buf.modify i (FlowMiss.orFlags upcall), owner := s.owner ++ [i] }
  | none =>
    { buf := s.buf ++ [FlowMiss.orFlags upcall ⟨upcall, 0⟩]
      map := hmapInsert s.map (flowHash upcall.flow) s.buf.length
      owner := s.owner ++ [s.buf.length] }

def gather (batch : List Upcall) : Misses := batch.foldl (gatherUpcall flowHash) ⟨[], hmapInit, []⟩

end gather

section translate

variable (undetermined : NoValue → Bool) (env : Env)

def FlowMiss.xlateIn (miss : FlowMiss) : XlateIn :=
  { missIn miss.upcall.xbridge miss.upcall.flow with tcpFlags := miss.tcpFlags }

/-- A packet of the slow path is translated with the packet and without TCP flags. -/
def slowIn (upcall : Upcall) : XlateIn :=
  { missIn upcall.xbridge upcall.flow with tcpFlags := 0, packet := true }

/-- The second loop, over indices into `miss_buf`. -/
def translateMisses (buf : List FlowMiss) (g : Shared hash) :
    List Nat → Except Fault (List (Nat × FlowMiss × XlateOut) × Shared hash)
  | [] => .ok ([], g)
  | i :: rest =>
    match buf[i]? with
    | none => .error .readOutside
    | some miss => do
      let r ← xlate undetermined env miss.xlateIn g
      let r' ← translateMisses buf r.1 rest
      return ((i, miss, r.2) :: r'.1, r'.2)

/-- The translation that only has side effects. -/
def translateSlow (miss : FlowMiss) (out : XlateOut) (g : Shared hash) : Except Fault (Shared hash) :=
  if out.slow.any then (xlate undetermined env (slowIn miss.upcall) g).map Prod.fst else .ok g

/-- The third loop: what is executed for each packet. -/
def executeUpcalls (outs : List (Nat × FlowMiss × XlateOut)) (g : Shared hash) :
    List Nat → Except Fault (List (List OdpAction) × Shared hash)
  | [] => .ok ([], g)
  | i :: rest =>
    match outs.lookup i with
    | none => .error .indeterminate
    | some (miss, out) => do
      let g ← translateSlow undetermined env miss out g
      let r ← executeUpcalls outs g rest
      return (out.odp :: r.1, r.2)

def handleUpcalls (flowHash : Flow → BitVec 32) (g : Shared hash) (batch : List Upcall) :
    Except Fault (List (List OdpAction) × Shared hash) := do
  let s := gather flowHash batch
  let r ← translateMisses undetermined env s.buf g (values s.map)
  executeUpcalls undetermined env r.1 r.2 s.owner

/-- Every packet is translated once, in the order of arrival. -/
def translateEach (g : Shared hash) : List Upcall → Except Fault (List XlateOut × Shared hash)
  | [] => .ok ([], g)
  | upcall :: rest => do
    let r ← xlate undetermined env (missIn upcall.xbridge upcall.flow) g
    let r' ← translateEach r.1 rest
    return (r.2 :: r'.1, r'.2)

end translate

/-! ## What is gathered -/

section gathered

variable {flowHash : Flow → BitVec 32}

theorem same_iff {upcall : Upcall} {miss : FlowMiss} :
    miss.same upcall = true ↔ miss.upcall = upcall := by
  rw [FlowMiss.same, Bool.and_eq_true, beq_iff_eq, flowEqual_iff]
  constructor
  · rintro ⟨hbridge, hflow⟩
    exact congrArg₂ Upcall.mk hbridge hflow
  · rintro rfl
    exact ⟨rfl, rfl⟩

/-- The upcalls of the misses, by their place in `miss_buf`. -/
def Misses.keys (s : Misses) : List Upcall := s.buf.map FlowMiss.upcall

/-- Every flow of the batch has one miss, which its packets point to. -/
structure Gathered (flowHash : Flow → BitVec 32) (batch : List Upcall) (s : Misses) : Prop where
  flags : ∀ miss ∈ s.buf, miss.tcpFlags = packetGetTcpFlags miss.upcall.flow
  distinct : s.keys.Nodup
  hashed : ∀ nd ∈ nodes s.map, ∃ upcall, s.keys[nd.entry]? = some upcall ∧
    nd.hash = flowHash upcall.flow
  indices : (values s.map).Perm (List.range s.buf.length)
  owners : s.owner.map (s.keys[·]?) = batch.map some
  known : ∀ upcall ∈ s.keys, upcall ∈ batch

theorem Misses.keys_getElem? (s : Misses) (i : Nat) :
    s.keys[i]? = (s.buf[i]?).map FlowMiss.upcall := List.getElem?_map

theorem keys_modify (buf : List FlowMiss) (i : Nat) (upcall : Upcall) :
    (buf.modify i (FlowMiss.orFlags upcall)).map FlowMiss.upcall = buf.map FlowMiss.upcall := by
  apply List.ext_getElem?
  intro j
  rw [List.getElem?_map, List.getElem?_map, List.getElem?_modify]
  cases buf[j]? with
  | none => rfl
  | some miss =>
    show some (if i = j then FlowMiss.orFlags upcall miss else miss).upcall = some miss.upcall
    split <;> rfl

/-- What is found is the miss of the packet's flow. -/
theorem flowMissFind_some {s : Misses} {upcall : Upcall} {i : Nat}
    (h : flowMissFind flowHash s upcall = some i) : s.keys[i]? = some upcall := by
  have hany := List.find?_some h
  rw [Misses.keys_getElem?]
  cases hi : s.buf[i]? with
  | none =>
    rw [hi] at hany
    cases hany
  | some miss =>
    rw [hi] at hany
    rw [Option.map_some, same_iff.mp hany]

/-- What is not found has no miss yet. -/
theorem Gathered.not_mem {batch : List Upcall} {s : Misses} (hs : Gathered flowHash batch s)
    {upcall : Upcall} (h : flowMissFind flowHash s upcall = none) : upcall ∉ s.keys := by
  intro hmem
  obtain ⟨i, hi, hget⟩ := List.mem_iff_getElem.mp hmem
  have hkey : s.keys[i]? = some upcall := by rw [List.getElem?_eq_getElem hi, hget]
  -- the node of that miss lies on the walk over the hash of the flow
  have hlen : i < s.buf.length := by
    rw [Misses.keys, List.length_map] at hi
    exact hi
  obtain ⟨nd, hnd, rfl⟩ := List.mem_map.mp (hs.indices.mem_iff.mpr (List.mem_range.mpr hlen))
  obtain ⟨upcall', hkey', hhash⟩ := hs.hashed nd hnd
  obtain rfl : upcall = upcall' := Option.some.inj (hkey.symm.trans hkey')
  have hchain : nd.entry ∈ chain s.map (flowHash upcall.flow) := by
    rw [chain_eq_nodes]
    have hmem : nd ∈ (nodes s.map).filter fun nd => nd.hash == flowHash upcall.flow :=
      List.mem_filter.mpr ⟨hnd, by rw [hhash]; exact beq_self_eq_true _⟩
    exact List.mem_map.mpr ⟨nd, hmem, rfl⟩
  have hnone := List.find?_eq_none.mp h nd.entry hchain
  rw [Misses.keys_getElem?] at hkey
  obtain ⟨miss, hmiss, rfl⟩ := Option.map_eq_some_iff.mp hkey
  rw [hmiss] at hnone
  exact hnone (same_iff.mpr rfl)

theorem gathered_start : Gathered flowHash [] ⟨[], hmapInit, []⟩ where
  flags := by simp
  distinct := List.nodup_nil
  hashed := by simp [nodes, hmapInit, emptyTable, readOut]
  indices := by simp [values, nodes, hmapInit, emptyTable, readOut]
  owners := rfl
  known := fun _ h => by cases h

/-- A packet whose flow has a miss goes to that miss. -/
theorem Gathered.found {batch : List Upcall} {s : Misses} (hs : Gathered flowHash batch s)
    {upcall : Upcall} {i : Nat} (hkey : s.keys[i]? = some upcall) :
    Gathered flowHash (batch ++ [upcall])
      { s with buf := s.buf.modify i (FlowMiss.orFlags upcall), owner := s.owner ++ [i] } := by
  have hkeys : (s.buf.modify i (FlowMiss.orFlags upcall)).map FlowMiss.upcall = s.keys :=
    keys_modify s.buf i upcall
  refine ⟨?_, ?_, ?_, ?_, ?_, ?_⟩
  · intro miss hmem
    obtain ⟨j, hj⟩ := List.mem_iff_getElem?.mp hmem
    rw [List.getElem?_modify] at hj
    obtain ⟨old, hold, rfl⟩ := Option.map_eq_some_iff.mp hj
    have hflags := hs.flags old (List.mem_of_getElem? hold)
    by_cases hij : i = j
    · subst hij
      rw [Misses.keys_getElem?, hold] at hkey
      obtain rfl : old.upcall = upcall := Option.some.inj hkey
      rw [if_pos rfl]
      change old.tcpFlags ||| packetGetTcpFlags old.upcall.flow = packetGetTcpFlags old.upcall.flow
      rw [hflags, BitVec.or_self]
    · rw [if_neg hij]
      exact hflags
  · change (List.map _ _).Nodup
    rw [hkeys]
    exact hs.distinct
  · intro nd hnd
    obtain ⟨upcall', hkey', hhash⟩ := hs.hashed nd hnd
    refine ⟨upcall', ?_, hhash⟩
    change (List.map _ _)[nd.entry]? = _
    rw [hkeys]
    exact hkey'
  · change (values s.map).Perm (List.range (s.buf.modify i _).length)
    rw [List.length_modify]
    exact hs.indices
  · change (s.owner ++ [i]).map ((List.map _ _)[·]?) = _
    rw [hkeys, List.map_append, hs.owners, List.map_append]
    exact congrArg (batch.map some ++ [·]) hkey
  · intro key hmem
    change key ∈ List.map _ _ at hmem
    rw [hkeys] at hmem
    exact List.mem_append_left _ (hs.known key hmem)

/-- A packet of another flow makes a miss of its own. -/
theorem Gathered.added {batch : List Upcall} {s : Misses} (hs : Gathered flowHash batch s)
    {upcall : Upcall} (hnew : upcall ∉ s.keys) :
    Gathered flowHash (batch ++ [upcall])
      { buf := s.buf ++ [FlowMiss.orFlags upcall ⟨upcall, 0⟩]
        map := hmapInsert s.map (flowHash upcall.flow) s.buf.length
        owner := s.owner ++ [s.buf.length] } := by
  have hlen : s.keys.length = s.buf.length := List.length_map _
  have hkeys : (s.buf ++ [FlowMiss.orFlags upcall ⟨upcall, 0⟩]).map FlowMiss.upcall =
      s.keys ++ [upcall] := List.map_append
  have hold {i : Nat} {key : Upcall} (h : s.keys[i]? = some key) :
      (s.keys ++ [upcall])[i]? = some key := by
    have hi := (List.getElem?_eq_some_iff.mp h).1
    rw [List.getElem?_append_left hi]
    exact h
  have hlast : (s.keys ++ [upcall])[s.buf.length]? = some upcall := by
    rw [← hlen]
    exact List.getElem?_concat_length
  refine ⟨?_, ?_, ?_, ?_, ?_, ?_⟩
  · intro miss hmem
    rcases List.mem_append.mp hmem with hmem | hmem
    · exact hs.flags miss hmem
    · obtain rfl := List.mem_singleton.mp hmem
      exact BitVec.zero_or
  · change (List.map _ _).Nodup
    rw [hkeys]
    exact List.nodup_append.mpr ⟨hs.distinct, List.nodup_singleton _, fun a ha b hb hab => by
      obtain rfl := List.mem_singleton.mp hb
      exact hnew (hab ▸ ha)⟩
  · intro nd hnd
    change ∃ key, (List.map _ _)[nd.entry]? = some key ∧ _
    rw [hkeys]
    rcases mem_nodes_insert.mp hnd with rfl | hnd
    · exact ⟨upcall, hlast, rfl⟩
    · obtain ⟨key, hkey, hhash⟩ := hs.hashed nd hnd
      exact ⟨key, hold hkey, hhash⟩
  · have hvalues := values_insert s.map (flowHash upcall.flow) s.buf.length
    have hperm : (values (hmapInsert s.map (flowHash upcall.flow) s.buf.length)).Perm
        (s.buf.length :: values s.map) := Multiset.coe_eq_coe.mp hvalues
    refine hperm.trans ?_
    change (s.buf.length :: values s.map).Perm (List.range (s.buf ++ [_]).length)
    rw [List.length_append, List.length_singleton, List.range_succ]
    exact (hs.indices.cons _).trans (List.perm_append_singleton _ _).symm
  · change (s.owner ++ [s.buf.length]).map ((List.map _ _)[·]?) = _
    rw [hkeys, List.map_append, List.map_append]
    have howners : s.owner.map ((s.keys ++ [upcall])[·]?) = s.owner.map (s.keys[·]?) := by
      apply List.map_congr_left
      intro i hi
      have hsome : s.keys[i]? ∈ batch.map some := hs.owners ▸ List.mem_map_of_mem hi
      obtain ⟨key, _, hkey⟩ := List.mem_map.mp hsome
      rw [← hkey]
      exact hold hkey.symm
    rw [howners, hs.owners]
    exact congrArg (batch.map some ++ [·]) hlast
  · intro key hmem
    change key ∈ List.map _ _ at hmem
    rw [hkeys] at hmem
    rcases List.mem_append.mp hmem with hmem | hmem
    · exact List.mem_append_left _ (hs.known key hmem)
    · exact List.mem_append_right _ hmem

theorem Gathered.upcall {batch : List Upcall} {s : Misses} (hs : Gathered flowHash batch s)
    (upcall : Upcall) : Gathered flowHash (batch ++ [upcall]) (gatherUpcall flowHash s upcall) := by
  unfold gatherUpcall
  cases hfind : flowMissFind flowHash s upcall with
  | some i => exact hs.found (flowMissFind_some hfind)
  | none => exact hs.added (hs.not_mem hfind)

theorem owner_visited {batch : List Upcall} {s : Misses} (hs : Gathered flowHash batch s) :
    ∀ i ∈ s.owner, i ∈ values s.map := by
  intro i hi
  have hsome : s.keys[i]? ∈ batch.map some := hs.owners ▸ List.mem_map_of_mem hi
  obtain ⟨key, _, hkey⟩ := List.mem_map.mp hsome
  have hlt := (List.getElem?_eq_some_iff.mp hkey.symm).1
  rw [Misses.keys, List.length_map] at hlt
  exact hs.indices.mem_iff.mpr (List.mem_range.mpr hlt)

theorem gathered (flowHash : Flow → BitVec 32) (batch : List Upcall) :
    Gathered flowHash batch (gather flowHash batch) := by
  have hfold (rest done : List Upcall) (s : Misses) (hs : Gathered flowHash done s) :
      Gathered flowHash (done ++ rest) (rest.foldl (gatherUpcall flowHash) s) := by
    induction rest generalizing done s with
    | nil =>
      rw [List.append_nil]
      exact hs
    | cons upcall rest ih =>
      rw [List.append_cons]
      exact ih _ _ (hs.upcall upcall)
  exact hfold batch [] _ gathered_start

end gathered

/-! ## Translations in another order -/

section order

variable {undetermined : NoValue → Bool} {env : Env}

/-- Translation of the packet reaches a `goto_fp`, or a `normal` that learns or looks up
addresses. -/
def Upcall.isStateful (env : Env) (upcall : Upcall) : Bool :=
  !stateless env (missIn upcall.xbridge upcall.flow)

/-- The translation of a packet that is not stateful. -/
def Upcall.fixedOut (env : Env) (upcall : Upcall) : XlateOut :=
  match xlateActions env (missIn upcall.xbridge upcall.flow) noEffects ⟨⟩ with
  | .ok r => r.2
  | .error _ => finishDropped (initCtx (missIn upcall.xbridge upcall.flow))

theorem xlate_fixedOut {upcall : Upcall} (h : upcall.isStateful env = false) (g : Shared hash) :
    xlate undetermined env (missIn upcall.xbridge upcall.flow) g =
      .ok (g, upcall.fixedOut env) := by
  have hstateless : stateless env (missIn upcall.xbridge upcall.flow) = true := by
    simpa [Upcall.isStateful] using h
  obtain ⟨out, hout⟩ := stateless_ok hstateless
  unfold Upcall.fixedOut
  rw [hout]
  exact xlate_stateless hout undetermined g

theorem translateEach_cons_ok {upcall : Upcall} {rest : List Upcall} {g g₁ : Shared hash}
    {out : XlateOut}
    (h : xlate undetermined env (missIn upcall.xbridge upcall.flow) g = .ok (g₁, out)) :
    translateEach undetermined env g (upcall :: rest) =
      (translateEach undetermined env g₁ rest).map fun r => (out :: r.1, r.2) := by
  rw [translateEach, h]
  change (translateEach undetermined env g₁ rest >>= _) = _
  cases translateEach undetermined env g₁ rest <;> rfl

theorem translateEach_cons_error {upcall : Upcall} {rest : List Upcall} {g : Shared hash} {e : Fault}
    (h : xlate undetermined env (missIn upcall.xbridge upcall.flow) g = .error e) :
    translateEach undetermined env g (upcall :: rest) = .error e := by
  rw [translateEach, h]
  rfl

theorem translateEach_cons_eq_ok {upcall : Upcall} {rest : List Upcall} {g g' : Shared hash}
    {outs : List XlateOut}
    (h : translateEach undetermined env g (upcall :: rest) = .ok (outs, g')) :
    ∃ (g₁ : Shared hash) (out : XlateOut) (outs' : List XlateOut), outs = out :: outs' ∧
      xlate undetermined env (missIn upcall.xbridge upcall.flow) g = .ok (g₁, out) ∧
      translateEach undetermined env g₁ rest = .ok (outs', g') := by
  cases hx : xlate undetermined env (missIn upcall.xbridge upcall.flow) g with
  | error e =>
    rw [translateEach_cons_error hx] at h
    cases h
  | ok r =>
    rw [translateEach_cons_ok hx] at h
    obtain ⟨r', hr', hout⟩ := map_eq_ok h
    obtain ⟨rfl, rfl⟩ := Prod.mk.inj hout
    exact ⟨r.1, r.2, r'.1, rfl, rfl, hr'⟩

/-- Packets that are not stateful may be left out, or put in anywhere. -/
theorem translateEach_filter {upcalls : List Upcall} {σ : Upcall → XlateOut} {g g' : Shared hash}
    (hσ : ∀ upcall, upcall.isStateful env = false → σ upcall = upcall.fixedOut env)
    (h : translateEach undetermined env g (upcalls.filter (Upcall.isStateful env)) =
      .ok ((upcalls.filter (Upcall.isStateful env)).map σ, g')) :
    translateEach undetermined env g upcalls = .ok (upcalls.map σ, g') := by
  induction upcalls generalizing g with
  | nil => exact h
  | cons upcall rest ih =>
    cases hst : upcall.isStateful env with
    | false =>
      rw [List.filter_cons_of_neg (by rw [hst]; decide)] at h
      rw [translateEach_cons_ok (xlate_fixedOut hst g), ih h, List.map_cons, hσ upcall hst]
      rfl
    | true =>
      rw [List.filter_cons_of_pos hst] at h
      obtain ⟨g₁, out, outs, houts, hx, hrest⟩ := translateEach_cons_eq_ok h
      obtain ⟨rfl, rfl⟩ := List.cons.inj houts
      rw [translateEach_cons_ok hx, ih hrest, List.map_cons]
      rfl

theorem translateEach_filter_error {upcalls : List Upcall} {g : Shared hash} {e : Fault}
    (h : translateEach undetermined env g (upcalls.filter (Upcall.isStateful env)) = .error e) :
    translateEach undetermined env g upcalls = .error e := by
  induction upcalls generalizing g with
  | nil => cases h
  | cons upcall rest ih =>
    cases hst : upcall.isStateful env with
    | false =>
      rw [List.filter_cons_of_neg (by rw [hst]; decide)] at h
      rw [translateEach_cons_ok (xlate_fixedOut hst g), ih h]
      rfl
    | true =>
      rw [List.filter_cons_of_pos hst] at h
      cases hx : xlate undetermined env (missIn upcall.xbridge upcall.flow) g with
      | error e' =>
        rw [translateEach_cons_error hx] at h ⊢
        exact h
      | ok r =>
        rw [translateEach_cons_ok hx] at h ⊢
        cases hr : translateEach undetermined env r.1 (rest.filter (Upcall.isStateful env)) with
        | ok r' =>
          rw [hr] at h
          cases h
        | error e' =>
          rw [hr] at h
          obtain rfl : e' = e := Except.error.inj h
          rw [ih hr]
          rfl

theorem translateEach_length {upcalls : List Upcall} {outs : List XlateOut} {g g' : Shared hash}
    (h : translateEach undetermined env g upcalls = .ok (outs, g')) :
    outs.length = upcalls.length := by
  induction upcalls generalizing g outs with
  | nil =>
    obtain ⟨rfl, _⟩ := Prod.mk.inj (Except.ok.inj h)
    rfl
  | cons upcall rest ih =>
    obtain ⟨g₁, out, outs', rfl, -, hrest⟩ := translateEach_cons_eq_ok h
    exact congrArg Nat.succ (ih hrest)

/-- Values for distinct arguments, and given ones elsewhere. -/
theorem exists_map_eq {α β : Type} (f : α → β) {l : List α} (hl : l.Nodup) {vs : List β}
    (hlen : vs.length = l.length) : ∃ σ : α → β, l.map σ = vs ∧ ∀ a ∉ l, σ a = f a := by
  classical
  induction l generalizing vs with
  | nil =>
    obtain rfl := List.length_eq_zero_iff.mp hlen
    exact ⟨f, rfl, fun _ _ => rfl⟩
  | cons a l ih =>
    obtain ⟨v, vs, rfl⟩ := List.exists_cons_of_length_eq_add_one hlen
    obtain ⟨hnot, hl⟩ := List.nodup_cons.mp hl
    obtain ⟨σ, hmap, hσ⟩ := ih hl (Nat.succ.inj hlen)
    refine ⟨Function.update σ a v, ?_, fun b hb => ?_⟩
    · rw [List.map_cons, Function.update_self, ← hmap]
      congr 1
      exact List.map_congr_left fun b hb =>
        Function.update_of_ne (fun h : b = a => hnot (h ▸ hb)) v σ
    · rw [Function.update_of_ne (fun h : b = a => hb (h ▸ List.mem_cons_self))]
      exact hσ b fun h => hb (List.mem_cons_of_mem a h)

end order

/-! ## One transition for each packet -/

section batches

variable {undetermined : NoValue → Bool} {env : Env} {flowHash : Flow → BitVec 32}

/-- The misses of a batch as the second loop visits them. -/
def visited (flowHash : Flow → BitVec 32) (batch : List Upcall) : List Upcall :=
  (values (gather flowHash batch).map).filterMap ((gather flowHash batch).keys[·]?)

theorem visited_nodup (flowHash : Flow → BitVec 32) (batch : List Upcall) :
    (visited flowHash batch).Nodup := by
  have hs := gathered flowHash batch
  have hindices : (values (gather flowHash batch).map).Nodup :=
    hs.indices.nodup_iff.mpr List.nodup_range
  refine hindices.filterMap fun i j key hi hj => ?_
  obtain ⟨hi', hi⟩ := List.getElem?_eq_some_iff.mp hi
  obtain ⟨hj', hj⟩ := List.getElem?_eq_some_iff.mp hj
  exact (List.Nodup.getElem_inj_iff hs.distinct).mp (hi.trans hj.symm)

theorem mem_visited {batch : List Upcall} {upcall : Upcall} :
    upcall ∈ visited flowHash batch ↔ upcall ∈ batch := by
  have hs := gathered flowHash batch
  constructor
  · intro h
    obtain ⟨i, _, hi⟩ := List.mem_filterMap.mp h
    exact hs.known upcall (List.mem_of_getElem? hi)
  · intro h
    have hmem : some upcall ∈ (gather flowHash batch).owner.map ((gather flowHash batch).keys[·]?) :=
      hs.owners ▸ List.mem_map_of_mem h
    obtain ⟨i, hi, hkey⟩ := List.mem_map.mp hmem
    exact List.mem_filterMap.mpr ⟨i, owner_visited hs i hi, hkey⟩

/-- If one packet is stateful, there is no order to get wrong. -/
theorem visited_filter_of_single {batch : List Upcall} {p : Upcall → Bool} {upcall : Upcall}
    (h : batch.filter p = [upcall]) : (visited flowHash batch).filter p = [upcall] := by
  have hmem (u : Upcall) : u ∈ (visited flowHash batch).filter p ↔ u ∈ [upcall] := by
    rw [← h, List.mem_filter, List.mem_filter, mem_visited]
  have hperm := (List.perm_ext_iff_of_nodup ((visited_nodup flowHash batch).filter p)
    (List.nodup_singleton upcall)).mpr hmem
  exact List.perm_singleton.mp hperm

/-- What the second loop leaves in the misses. -/
def missOuts (σ : Upcall → XlateOut) (buf : List FlowMiss) (is : List Nat) :
    List (Nat × FlowMiss × XlateOut) :=
  is.filterMap fun i => (buf[i]?).map fun miss => (i, miss, σ miss.upcall)

theorem missOuts_cons (σ : Upcall → XlateOut) {buf : List FlowMiss} {i : Nat} {miss : FlowMiss}
    (hmiss : buf[i]? = some miss) (is : List Nat) :
    missOuts σ buf (i :: is) = (i, miss, σ miss.upcall) :: missOuts σ buf is :=
  List.filterMap_cons_some (by rw [hmiss]; rfl)

theorem lookup_missOuts (σ : Upcall → XlateOut) {buf : List FlowMiss} {is : List Nat} {i : Nat}
    (hi : i ∈ is) {miss : FlowMiss} (hmiss : buf[i]? = some miss) :
    (missOuts σ buf is).lookup i = some (miss, σ miss.upcall) := by
  induction is with
  | nil => cases hi
  | cons j is ih =>
    by_cases hij : i = j
    · subst hij
      rw [missOuts_cons σ hmiss]
      exact List.lookup_cons_self
    · have hi' : i ∈ is := (List.mem_cons.mp hi).resolve_left hij
      cases hj : buf[j]? with
      | none =>
        have hskip : missOuts σ buf (j :: is) = missOuts σ buf is :=
          List.filterMap_cons_none (by rw [hj]; rfl)
        rw [hskip]
        exact ih hi'
      | some miss' =>
        rw [missOuts_cons σ hj, List.lookup_cons, beq_false_of_ne hij]
        exact ih hi'

theorem xlateIn_eq {miss : FlowMiss} (h : miss.tcpFlags = packetGetTcpFlags miss.upcall.flow) :
    miss.xlateIn = missIn miss.upcall.xbridge miss.upcall.flow := by
  rw [FlowMiss.xlateIn, h]
  rfl

/-- The second loop translates the misses like single packets. -/
theorem translateMisses_eq (undetermined : NoValue → Bool) (env : Env) {s : Misses}
    (hflags : ∀ miss ∈ s.buf, miss.tcpFlags = packetGetTcpFlags miss.upcall.flow) {is : List Nat}
    (his : ∀ i ∈ is, i < s.buf.length) (g : Shared hash) :
    (∀ σ g', translateEach undetermined env g (is.filterMap (s.keys[·]?)) =
        .ok ((is.filterMap (s.keys[·]?)).map σ, g') →
      translateMisses undetermined env s.buf g is = .ok (missOuts σ s.buf is, g')) ∧
    ∀ e, translateEach undetermined env g (is.filterMap (s.keys[·]?)) = .error e →
      translateMisses undetermined env s.buf g is = .error e := by
  induction is generalizing g with
  | nil =>
    refine ⟨fun σ g' h => ?_, fun e h => by cases h⟩
    obtain ⟨_, rfl⟩ := Prod.mk.inj (Except.ok.inj h)
    rfl
  | cons i is ih =>
    obtain ⟨miss, hmiss⟩ : ∃ miss, s.buf[i]? = some miss :=
      ⟨_, List.getElem?_eq_getElem (his i List.mem_cons_self)⟩
    have hkey : s.keys[i]? = some miss.upcall := by rw [Misses.keys_getElem?, hmiss]; rfl
    have hin := xlateIn_eq (hflags miss (List.mem_of_getElem? hmiss))
    have ih' (g₁ : Shared hash) := ih (fun j hj => his j (List.mem_cons_of_mem i hj)) g₁
    rw [List.filterMap_cons_some hkey]
    unfold translateMisses
    simp only [hmiss, hin]
    cases hx : xlate undetermined env (missIn miss.upcall.xbridge miss.upcall.flow) g with
    | error e' =>
      rw [translateEach_cons_error hx]
      exact ⟨fun _ _ h => (by cases h), fun e h => congrArg Except.error (Except.error.inj h)⟩
    | ok r =>
      rw [translateEach_cons_ok hx]
      refine ⟨fun σ g' h => ?_, fun e h => ?_⟩
      · obtain ⟨r', hr', hout⟩ := map_eq_ok h
        obtain ⟨houts, rfl⟩ := Prod.mk.inj hout
        obtain ⟨hhead, htail⟩ := List.cons.inj houts
        have hrest := (ih' r.1).1 σ r'.2
          (hr'.trans (congrArg (fun outs => Except.ok (outs, r'.2)) htail))
        change (translateMisses undetermined env s.buf r.1 is >>= _) = _
        rw [hrest, missOuts_cons σ hmiss, ← hhead]
        rfl
      · cases hr : translateEach undetermined env r.1 (is.filterMap (s.keys[·]?)) with
        | ok r' =>
          rw [hr] at h
          cases h
        | error e' =>
          rw [hr] at h
          obtain rfl : e' = e := Except.error.inj h
          change (translateMisses undetermined env s.buf r.1 is >>= _) = _
          rw [(ih' r.1).2 _ hr]
          rfl

/-- The third loop changes nothing more if the packets of the slow path are not stateful. -/
theorem executeUpcalls_eq {s : Misses} {σ : Upcall → XlateOut} {is owner : List Nat}
    {batch : List Upcall} (howners : owner.map (s.keys[·]?) = batch.map some)
    (hvisited : ∀ i ∈ owner, i ∈ is)
    (hslow : ∀ upcall ∈ batch, (σ upcall).slow.any = true →
      stateless env (slowIn upcall) = true) (g : Shared hash) :
    executeUpcalls undetermined env (missOuts σ s.buf is) g owner =
      .ok (batch.map fun upcall => (σ upcall).odp, g) := by
  induction owner generalizing batch with
  | nil =>
    obtain rfl := List.map_eq_nil_iff.mp howners.symm
    rfl
  | cons i owner ih =>
    cases batch with
    | nil => cases howners
    | cons upcall batch =>
      obtain ⟨hkey, hrest⟩ := List.cons.inj howners
      change s.keys[i]? = some upcall at hkey
      rw [Misses.keys_getElem?] at hkey
      obtain ⟨miss, hmiss, rfl⟩ := Option.map_eq_some_iff.mp hkey
      have hrest := ih hrest (fun j hj => hvisited j (List.mem_cons_of_mem i hj))
        (fun u hu => hslow u (List.mem_cons_of_mem _ hu))
      have hg : translateSlow undetermined env miss (σ miss.upcall) g = .ok g := by
        unfold translateSlow
        split
        · rename_i hany
          obtain ⟨out, hout⟩ := stateless_ok (hslow _ List.mem_cons_self hany)
          rw [xlate_stateless hout undetermined g]
          rfl
        · rfl
      unfold executeUpcalls
      rw [lookup_missOuts σ (hvisited i List.mem_cons_self) hmiss]
      dsimp only
      rw [hg]
      change (executeUpcalls undetermined env (missOuts σ s.buf is) g owner >>= _) = _
      rw [hrest]
      rfl

/-- Packets that take the slow path when they are translated one after another are not
stateful the second time. -/
def slowStateless (undetermined : NoValue → Bool) (env : Env) (g : Shared hash)
    (batch : List Upcall) : Bool :=
  match translateEach undetermined env g batch with
  | .ok (outs, _) => (batch.zip outs).all fun x => !x.2.slow.any || stateless env (slowIn x.1)
  | .error _ => true

theorem slowStateless_iff {g g' : Shared hash} {batch : List Upcall} {σ : Upcall → XlateOut}
    (h : translateEach undetermined env g batch = .ok (batch.map σ, g')) :
    slowStateless undetermined env g batch = true ↔
      ∀ upcall ∈ batch, (σ upcall).slow.any = true → stateless env (slowIn upcall) = true := by
  unfold slowStateless
  rw [h]
  dsimp only
  rw [← List.map_prod_left_eq_zip, List.all_map, List.all_eq_true]
  refine forall₂_congr fun upcall _ => ?_
  dsimp only [Function.comp_apply]
  rw [Bool.or_eq_true, Bool.not_eq_true', ← Bool.not_eq_true, ← imp_iff_not_or]

/-- If the stateful packets are visited in the order of their arrival, each with a flow of its
own, and what takes the slow path is not stateful, then a batch is handled like its packets one
after another. -/
theorem handleUpcalls_eq_translateEach (undetermined : NoValue → Bool) (g : Shared hash)
    {batch : List Upcall}
    (horder : (visited flowHash batch).filter (Upcall.isStateful env) =
      batch.filter (Upcall.isStateful env))
    (hslow : slowStateless undetermined env g batch = true) :
    handleUpcalls undetermined env flowHash g batch =
      (translateEach undetermined env g batch).map fun r => (r.1.map XlateOut.odp, r.2) := by
  have hs := gathered flowHash batch
  have his : ∀ i ∈ values (gather flowHash batch).map, i < (gather flowHash batch).buf.length :=
    fun i hi => List.mem_range.mp (hs.indices.mem_iff.mp hi)
  obtain ⟨hok, herror⟩ := translateMisses_eq undetermined env hs.flags his g
  unfold handleUpcalls
  dsimp only
  cases hst : translateEach undetermined env g (batch.filter (Upcall.isStateful env)) with
  | error e =>
    rw [herror e (translateEach_filter_error (horder.symm ▸ hst)), translateEach_filter_error hst]
    rfl
  | ok r =>
    have hnodup : (batch.filter (Upcall.isStateful env)).Nodup := by
      rw [← horder]
      exact (visited_nodup flowHash batch).filter _
    obtain ⟨σ, hmap, hσ⟩ := exists_map_eq (Upcall.fixedOut env) hnodup (translateEach_length hst)
    have hfixed (upcall : Upcall) (h : upcall.isStateful env = false) :
        σ upcall = upcall.fixedOut env := hσ upcall fun hmem => by
      rw [(List.mem_filter.mp hmem).2] at h
      cases h
    have hst' : translateEach undetermined env g (batch.filter (Upcall.isStateful env)) =
        .ok ((batch.filter (Upcall.isStateful env)).map σ, r.2) := by
      rw [hst, hmap]
    have hbatch := translateEach_filter hfixed hst'
    have hvisits := translateEach_filter hfixed (horder.symm ▸ hst')
    rw [hok σ r.2 hvisits, hbatch]
    change executeUpcalls undetermined env _ r.2 _ = _
    rw [executeUpcalls_eq hs.owners (owner_visited hs) ((slowStateless_iff hbatch).mp hslow)]
    change _ = Except.ok ((batch.map σ).map XlateOut.odp, r.2)
    rw [List.map_map]
    rfl

/-- The app decides which packets of 10.0.0.2 the controller gets to see. -/
def reportingEnv : Env :=
  twoRulesEnv [.inPort, .dlType, .nwSrc] (udpFrom 0x0a000002) [.gotoFp 1, .action .controller]
    [.action (.output 2)]

/-- 10.0.0.2 is counted once, and not reported, whatever is in the batch beside its packet. -/
theorem handleUpcalls_eq_translateEach_dropped :
    (translateEach (fun _ => false) reportingEnv ⟨firstOnly, []⟩
      [⟨0, udpFrom 0x0a000001⟩, ⟨0, udpFrom 0x0a000002⟩, ⟨0, udpFrom 0x0a000001⟩]).map
        (fun r => (r.1.map XlateOut.odp, statuses r.2.apps 1 (inetNtoa (htonl 0x0a000002)))) =
      .ok ([[.output 2], [], [.output 2]], some [3]) ∧
    handleUpcalls (fun _ => false) reportingEnv (fun _ => 0) ⟨firstOnly, []⟩
      [⟨0, udpFrom 0x0a000001⟩, ⟨0, udpFrom 0x0a000002⟩, ⟨0, udpFrom 0x0a000001⟩] =
    (translateEach (fun _ => false) reportingEnv ⟨firstOnly, []⟩
      [⟨0, udpFrom 0x0a000001⟩, ⟨0, udpFrom 0x0a000002⟩, ⟨0, udpFrom 0x0a000001⟩]).map
        fun r => (r.1.map XlateOut.odp, r.2) := by
  have hfirst : Upcall.isStateful reportingEnv ⟨0, udpFrom 0x0a000001⟩ = false := by decide +kernel
  have hsecond : Upcall.isStateful reportingEnv ⟨0, udpFrom 0x0a000002⟩ = true := by decide +kernel
  have hfilter : [⟨0, udpFrom 0x0a000001⟩, ⟨0, udpFrom 0x0a000002⟩, ⟨0, udpFrom 0x0a000001⟩].filter
      (Upcall.isStateful reportingEnv) = [⟨0, udpFrom 0x0a000002⟩] := by
    simp only [List.filter_cons, hfirst, hsecond, List.filter_nil, if_true, Bool.false_eq_true,
      if_false]
  exact ⟨by decide +kernel, handleUpcalls_eq_translateEach _ _
    ((visited_filter_of_single hfilter).trans hfilter.symm) (by decide +kernel)⟩

/-- Two packets of 10.0.0.1 in a batch make one transition, and both get through. -/
theorem batch_counts_once :
    (handleUpcalls (fun _ => false) appEnv (fun _ => 0) ⟨firstOnly, []⟩
      [⟨0, udpFrom 0x0a000001⟩, ⟨0, udpFrom 0x0a000001⟩]).map (fun r => (r.1,
        statuses r.2.apps 1 (inetNtoa (htonl 0x0a000001)))) =
      .ok ([[.output 2], [.output 2]], some [2]) ∧
    (translateEach (fun _ => false) appEnv ⟨firstOnly, []⟩
      [⟨0, udpFrom 0x0a000001⟩, ⟨0, udpFrom 0x0a000001⟩]).map (fun r => (r.1.map XlateOut.odp,
        statuses r.2.apps 1 (inetNtoa (htonl 0x0a000001)))) =
      .ok ([[.output 2], []], some [3]) :=
  ⟨by decide +kernel, by decide +kernel⟩

end batches

end Sdpa.Switch
