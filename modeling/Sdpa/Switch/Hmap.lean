import Sdpa.Lib.Bins
import Mathlib.Data.Nat.Bitwise

/-!
# The chained hash map of `lib/hmap.h` and `lib/hmap.c`

Nodes with one hash always lie in one bucket, so what a search by hash sees is
the `chain` of that hash: its entries in bucket order. Every operation is
described by what it does to the chains. An insertion puts its entry in front,
and an expansion, which moves each bucket front to back and inserts at the
front again, reverses every chain.
-/
namespace Sdpa.Switch

open Sdpa.Lib.Bins

/-- `struct hmap_node`, together with the entry it is embedded in. -/
structure Node (α : Type) where
  hash : BitVec 32
  entry : α
  deriving DecidableEq

/-- `struct hmap`. A bucket index is `hash & mask`, and `n` counts the nodes. -/
structure Hmap (α : Type) where
  bucket : Nat → List (Node α)
  mask : Nat
  n : Nat
  placed : ∀ i, ∀ nd ∈ bucket i, nd.hash.toNat &&& mask = i
  counted : n = (readOut bucket (mask + 1)).length

variable {α : Type}

def slot (mask : Nat) (hash : BitVec 32) : Nat := hash.toNat &&& mask

theorem slot_lt (mask : Nat) (hash : BitVec 32) : slot mask hash < mask + 1 :=
  Nat.lt_succ_of_le Nat.and_le_right

/-- The nodes in the order `HMAP_FOR_EACH` visits them. -/
def nodes (m : Hmap α) : List (Node α) := readOut m.bucket (m.mask + 1)

def values (m : Hmap α) : List α := (nodes m).map Node.entry

theorem mem_nodes {m : Hmap α} {nd : Node α} :
    nd ∈ nodes m ↔ nd ∈ m.bucket (slot m.mask nd.hash) := by
  constructor
  · intro h
    obtain ⟨i, _, hi⟩ := mem_readOut.mp h
    have hp := m.placed i nd hi
    rw [slot, hp]
    exact hi
  · intro h
    exact mem_readOut.mpr ⟨_, slot_lt _ _, h⟩

/-- An empty table of `mask + 1` buckets, as `resize` prepares it. -/
def emptyTable (mask : Nat) : Hmap α where
  bucket := fun _ => []
  mask := mask
  n := 0
  placed := by simp
  counted := by simp [readOut]

def hmapInit : Hmap α := emptyTable 0

theorem placed_update {m : Hmap α} {i : Nat} {l : List (Node α)}
    (h : ∀ nd ∈ l, nd.hash.toNat &&& m.mask = i) :
    ∀ j, ∀ nd ∈ Function.update m.bucket i l j, nd.hash.toNat &&& m.mask = j := by
  intro j nd hnd
  by_cases hj : j = i
  · subst hj
    rw [Function.update_self] at hnd
    exact h nd hnd
  · rw [Function.update_of_ne hj] at hnd
    exact m.placed j nd hnd

theorem length_update (f : Nat → List (Node α)) {i k : Nat} (h : i < k) (l : List (Node α)) :
    (readOut (Function.update f i l) k).length + (f i).length = (readOut f k).length + l.length := by
  have hc := congrArg Multiset.card (readOut_update f h l)
  simpa only [Multiset.card_add, Multiset.coe_card] using hc

/-- `hmap_insert_fast`: the node becomes the head of its bucket. -/
def hmapInsertFast (m : Hmap α) (hash : BitVec 32) (e : α) : Hmap α where
  bucket := Function.update m.bucket (slot m.mask hash) (⟨hash, e⟩ :: m.bucket (slot m.mask hash))
  mask := m.mask
  n := m.n + 1
  placed := by
    apply placed_update
    intro nd hnd
    rcases List.mem_cons.mp hnd with rfl | hold
    · rfl
    · exact m.placed _ nd hold
  counted := by
    have h := length_update m.bucket (slot_lt m.mask hash) (⟨hash, e⟩ :: m.bucket (slot m.mask hash))
    have hn := m.counted
    simp only [List.length_cons] at h
    omega

/-- `resize`: every bucket is walked front to back and each node inserted into
the new table with its stored hash. -/
def resize (m : Hmap α) (newMask : Nat) : Hmap α :=
  (nodes m).foldl (fun tmp nd => hmapInsertFast tmp nd.hash nd.entry) (emptyTable newMask)

def calcMask (capacity : Nat) : Nat :=
  let mask := capacity / 2
  let mask := mask ||| mask >>> 1
  let mask := mask ||| mask >>> 2
  let mask := mask ||| mask >>> 4
  let mask := mask ||| mask >>> 8
  let mask := mask ||| mask >>> 16
  mask ||| (mask &&& 1) <<< 1

def hmapExpandAt (m : Hmap α) : Hmap α :=
  if calcMask m.n > m.mask then resize m (calcMask m.n) else m

/-- `hmap_insert`. -/
def hmapInsert (m : Hmap α) (hash : BitVec 32) (e : α) : Hmap α :=
  let m := hmapInsertFast m hash e
  if m.n / 2 > m.mask then hmapExpandAt m else m

/-- `hmap_first_with_hash`. -/
def hmapFirstWithHash (m : Hmap α) (hash : BitVec 32) : Option α :=
  ((m.bucket (slot m.mask hash)).find? (fun nd => nd.hash == hash)).map Node.entry

/-- The entries `HMAP_FOR_EACH_WITH_HASH` visits, in order. -/
def chain (m : Hmap α) (hash : BitVec 32) : List α :=
  ((m.bucket (slot m.mask hash)).filter (fun nd => nd.hash == hash)).map Node.entry

/-- `hmap_remove` of the node that `hmap_first_with_hash` returned. Callers hold
a node, so an absent hash is left alone. -/
def hmapRemove (m : Hmap α) (hash : BitVec 32) : Hmap α where
  bucket := Function.update m.bucket (slot m.mask hash)
    ((m.bucket (slot m.mask hash)).eraseP (fun nd => nd.hash == hash))
  mask := m.mask
  n := if (hmapFirstWithHash m hash).isSome then m.n - 1 else m.n
  placed := by
    apply placed_update
    intro nd hnd
    exact m.placed _ nd (List.mem_of_mem_eraseP hnd)
  counted := by
    have h := length_update m.bucket (slot_lt m.mask hash)
      ((m.bucket (slot m.mask hash)).eraseP (fun nd => nd.hash == hash))
    have hn := m.counted
    by_cases he : ∃ nd ∈ m.bucket (slot m.mask hash), (nd.hash == hash) = true
    · obtain ⟨nd, hnd, hhash⟩ := he
      have hsome : (hmapFirstWithHash m hash).isSome := by
        rw [hmapFirstWithHash, Option.isSome_map, List.find?_isSome]
        exact ⟨nd, hnd, hhash⟩
      have hlen := List.length_eraseP_of_mem (p := fun nd : Node α => nd.hash == hash) hnd hhash
      have hpos := List.length_pos_of_mem hnd
      rw [if_pos hsome]
      omega
    · have hnone : ¬ (hmapFirstWithHash m hash).isSome := by
        rw [hmapFirstWithHash, Option.isSome_map, List.find?_isSome]
        exact he
      have hsame := List.eraseP_of_forall_not (p := fun nd : Node α => nd.hash == hash)
        (l := m.bucket (slot m.mask hash)) (fun nd hnd hh => he ⟨nd, hnd, hh⟩)
      rw [hsame] at h ⊢
      rw [if_neg hnone]
      omega

def Node.mapEntry (f : α → α) (nd : Node α) : Node α := ⟨nd.hash, f nd.entry⟩

/-- A bucket after a store through its first node with the hash. -/
def writeBucket (hash : BitVec 32) (f : α → α) (l : List (Node α)) : List (Node α) :=
  modifyFirst (fun nd => nd.hash == hash) (Node.mapEntry f) l

theorem writeBucket_hashes (hash : BitVec 32) (f : α → α) (l : List (Node α)) :
    (writeBucket hash f l).map Node.hash = l.map Node.hash :=
  map_modifyFirst (f := Node.mapEntry f) Node.hash (fun _ => rfl) l

/-- A store through the node that `hmap_first_with_hash` returned. -/
def hmapWriteFirst (m : Hmap α) (hash : BitVec 32) (f : α → α) : Hmap α where
  bucket := Function.update m.bucket (slot m.mask hash)
    (writeBucket hash f (m.bucket (slot m.mask hash)))
  mask := m.mask
  n := m.n
  placed := by
    apply placed_update
    intro nd hnd
    have hmem := List.mem_map_of_mem (f := Node.hash) hnd
    rw [writeBucket_hashes] at hmem
    obtain ⟨old, hold, heq⟩ := List.mem_map.mp hmem
    rw [← heq]
    exact m.placed _ old hold
  counted := by
    have h := length_update m.bucket (slot_lt m.mask hash)
      (writeBucket hash f (m.bucket (slot m.mask hash)))
    have hlen := congrArg List.length (writeBucket_hashes hash f (m.bucket (slot m.mask hash)))
    have hn := m.counted
    simp only [List.length_map] at hlen
    omega

theorem hmapWriteFirst_eq_self {m : Hmap α} {hash : BitVec 32} {f : α → α}
    (h : ∀ e, hmapFirstWithHash m hash = some e → f e = e) : hmapWriteFirst m hash f = m := by
  have hbucket : writeBucket hash f (m.bucket (slot m.mask hash)) =
      m.bucket (slot m.mask hash) := by
    apply modifyFirst_eq_self
    intro nd hnd
    rw [Node.mapEntry, h nd.entry (by rw [hmapFirstWithHash, hnd]; rfl)]
  obtain ⟨bucket, mask, n, _, _⟩ := m
  simp only [hmapWriteFirst, hbucket, Function.update_eq_self]

/-! ## What the operations do to the chains -/

/-- A chain is the subsequence of `HMAP_FOR_EACH` that has the hash. -/
theorem chain_eq_nodes (m : Hmap α) (h : BitVec 32) :
    chain m h = ((nodes m).filter (fun nd => nd.hash == h)).map Node.entry := by
  have hlast : ∀ j, j ≠ slot m.mask h → ∀ nd ∈ m.bucket j, (nd.hash == h) = false := by
    intro j hj nd hnd
    have hp := m.placed j nd hnd
    apply beq_false_of_ne
    intro heq
    rw [heq] at hp
    exact hj hp.symm
  rw [chain, nodes, filter_readOut m.bucket _ (slot_lt m.mask h) hlast]

theorem hmapFirstWithHash_eq_head (m : Hmap α) (h : BitVec 32) :
    hmapFirstWithHash m h = (chain m h).head? := by
  rw [hmapFirstWithHash, chain, List.head?_map, List.head?_filter]

@[simp] theorem chain_emptyTable (mask : Nat) (h : BitVec 32) :
    chain (emptyTable mask : Hmap α) h = [] := rfl

/-- Only the chain that lies in the replaced bucket can change. -/
private theorem chain_of_update (m m' : Hmap α) {hash : BitVec 32} {l : List (Node α)}
    (hmask : m'.mask = m.mask) (hb : m'.bucket = Function.update m.bucket (slot m.mask hash) l)
    (hother : ∀ h, h ≠ hash → l.filter (fun nd => nd.hash == h) =
      (m.bucket (slot m.mask hash)).filter (fun nd => nd.hash == h)) (h : BitVec 32) :
    chain m' h = if h = hash then (l.filter (fun nd => nd.hash == hash)).map Node.entry
      else chain m h := by
  by_cases hh : h = hash
  · subst hh
    rw [if_pos rfl, chain, hb, hmask, Function.update_self]
  · rw [if_neg hh, chain, chain, hb, hmask]
    by_cases hs : slot m.mask h = slot m.mask hash
    · rw [hs, Function.update_self, hother h hh]
    · rw [Function.update_of_ne hs]

theorem chain_insertFast (m : Hmap α) (hash : BitVec 32) (e : α) (h : BitVec 32) :
    chain (hmapInsertFast m hash e) h = if h = hash then e :: chain m h else chain m h := by
  rw [chain_of_update m (hmapInsertFast m hash e) rfl rfl
    (fun h' hne => by
      rw [List.filter_cons_of_neg]
      simpa using Ne.symm hne)]
  by_cases hh : h = hash
  · subst hh
    rw [if_pos rfl, if_pos rfl, List.filter_cons_of_pos (by simp)]
    rfl
  · rw [if_neg hh, if_neg hh]

private theorem chain_foldl_insertFast (l : List (Node α)) (m : Hmap α) (h : BitVec 32) :
    chain (l.foldl (fun tmp nd => hmapInsertFast tmp nd.hash nd.entry) m) h =
      ((l.filter (fun nd => nd.hash == h)).map Node.entry).reverse ++ chain m h := by
  induction l generalizing m with
  | nil => rfl
  | cons nd l ih =>
    rw [List.foldl_cons, ih, chain_insertFast]
    by_cases hh : h = nd.hash
    · subst hh
      rw [if_pos rfl, List.filter_cons_of_pos (by simp)]
      simp
    · rw [if_neg hh, List.filter_cons_of_neg]
      simpa using Ne.symm hh

/-- Moving the nodes to a table of another size reverses every chain. -/
theorem chain_resize (m : Hmap α) (newMask : Nat) (h : BitVec 32) :
    chain (resize m newMask) h = (chain m h).reverse := by
  rw [resize, chain_foldl_insertFast, chain_emptyTable, List.append_nil, chain_eq_nodes]

theorem le_calcMask (n : Nat) : n / 2 ≤ calcMask n := by
  unfold calcMask
  iterate 5 refine Nat.le_trans ?_ Nat.left_le_or
  exact Nat.left_le_or

/-- The next insertion moves the map to a larger table. -/
def expands (m : Hmap α) : Bool := decide ((m.n + 1) / 2 > m.mask)

theorem hmapInsert_eq (m : Hmap α) (hash : BitVec 32) (e : α) :
    hmapInsert m hash e =
      if expands m then resize (hmapInsertFast m hash e) (calcMask (m.n + 1))
      else hmapInsertFast m hash e := by
  have hmask : (hmapInsertFast m hash e).mask = m.mask := rfl
  have hn : (hmapInsertFast m hash e).n = m.n + 1 := rfl
  simp only [hmapInsert, hmapExpandAt, expands, hmask, hn, decide_eq_true_eq]
  by_cases hgt : (m.n + 1) / 2 > m.mask
  · have hcalc : calcMask (m.n + 1) > m.mask := Nat.lt_of_lt_of_le hgt (le_calcMask _)
    rw [if_pos hgt, if_pos hgt, if_pos hcalc]
  · rw [if_neg hgt, if_neg hgt]

theorem chain_insert (m : Hmap α) (hash : BitVec 32) (e : α) (h : BitVec 32) :
    chain (hmapInsert m hash e) h =
      if expands m then (if h = hash then e :: chain m h else chain m h).reverse
      else if h = hash then e :: chain m h else chain m h := by
  rw [hmapInsert_eq]
  split
  · rw [chain_resize, chain_insertFast]
  · rw [chain_insertFast]

private theorem hash_classes_disjoint {h hash : BitVec 32} (hne : h ≠ hash) (nd : Node α) :
    (nd.hash == hash) = true → ¬ (nd.hash == h) = true := by
  intro hp hq
  exact hne ((eq_of_beq hq).symm.trans (eq_of_beq hp))

theorem chain_remove (m : Hmap α) (hash h : BitVec 32) :
    chain (hmapRemove m hash) h = if h = hash then (chain m h).tail else chain m h := by
  rw [chain_of_update m (hmapRemove m hash) rfl rfl
    (fun h' hne => filter_eraseP_disjoint (hash_classes_disjoint hne) _)]
  by_cases hh : h = hash
  · subst hh
    rw [if_pos rfl, if_pos rfl, filter_eraseP_self, List.map_tail]
    rfl
  · rw [if_neg hh, if_neg hh]

theorem chain_writeFirst (m : Hmap α) (hash : BitVec 32) (f : α → α) (h : BitVec 32) :
    chain (hmapWriteFirst m hash f) h =
      if h = hash then (chain m h).modifyHead f else chain m h := by
  rw [chain_of_update m (hmapWriteFirst m hash f) rfl rfl
    (fun h' hne => filter_modifyFirst_disjoint (f := Node.mapEntry f)
      (hash_classes_disjoint hne) (fun _ => rfl) _)]
  by_cases hh : h = hash
  · subst hh
    rw [if_pos rfl, if_pos rfl, writeBucket,
      filter_modifyFirst_self (f := Node.mapEntry f) (fun _ => rfl), chain]
    cases (m.bucket (slot m.mask h)).filter (fun nd => nd.hash == h) <;> rfl
  · rw [if_neg hh, if_neg hh]

/-! ## Which nodes the operations leave behind -/

theorem nodes_insertFast (m : Hmap α) (hash : BitVec 32) (e : α) :
    (nodes (hmapInsertFast m hash e) : Multiset (Node α)) = ⟨hash, e⟩ ::ₘ (nodes m) := by
  have h := readOut_update m.bucket (slot_lt m.mask hash)
    (⟨hash, e⟩ :: m.bucket (slot m.mask hash))
  rw [← Multiset.cons_coe, Multiset.add_cons, ← Multiset.cons_add] at h
  exact add_right_cancel h

private theorem nodes_foldl_insertFast (l : List (Node α)) (m : Hmap α) :
    (nodes (l.foldl (fun tmp nd => hmapInsertFast tmp nd.hash nd.entry) m) : Multiset (Node α)) =
      (l : Multiset (Node α)) + (nodes m) := by
  induction l generalizing m with
  | nil => simp
  | cons nd l ih =>
    rw [List.foldl_cons, ih, nodes_insertFast, Multiset.add_cons, ← Multiset.cons_coe,
      Multiset.cons_add]

theorem nodes_resize (m : Hmap α) (newMask : Nat) :
    (nodes (resize m newMask) : Multiset (Node α)) = (nodes m) := by
  have hempty : nodes (emptyTable newMask : Hmap α) = [] := by simp [nodes, emptyTable, readOut]
  rw [resize, nodes_foldl_insertFast, hempty]
  simp

/-- An insertion adds its node and keeps the others, whether or not it expands. -/
theorem nodes_insert (m : Hmap α) (hash : BitVec 32) (e : α) :
    (nodes (hmapInsert m hash e) : Multiset (Node α)) = ⟨hash, e⟩ ::ₘ (nodes m) := by
  rw [hmapInsert_eq]
  split
  · rw [nodes_resize, nodes_insertFast]
  · rw [nodes_insertFast]

theorem values_insert (m : Hmap α) (hash : BitVec 32) (e : α) :
    (values (hmapInsert m hash e) : Multiset α) = e ::ₘ (values m) := by
  have h := congrArg (Multiset.map Node.entry) (nodes_insert m hash e)
  simpa only [values, Multiset.map_coe, Multiset.map_cons] using h

theorem mem_nodes_insert {m : Hmap α} {hash : BitVec 32} {e : α} {nd : Node α} :
    nd ∈ nodes (hmapInsert m hash e) ↔ nd = ⟨hash, e⟩ ∨ nd ∈ nodes m := by
  rw [← Multiset.mem_coe, nodes_insert, Multiset.mem_cons, Multiset.mem_coe]

/-- A node of a map with one bucket replaced was there before or is in that bucket. -/
private theorem mem_nodes_update (m m' : Hmap α) {i : Nat} {l : List (Node α)}
    (hmask : m'.mask = m.mask) (hb : m'.bucket = Function.update m.bucket i l)
    {nd : Node α} (h : nd ∈ nodes m') : nd ∈ nodes m ∨ nd ∈ l := by
  rw [mem_nodes, hb, hmask] at h
  by_cases hs : slot m.mask nd.hash = i
  · rw [hs, Function.update_self] at h
    exact .inr h
  · rw [Function.update_of_ne hs] at h
    exact .inl (mem_nodes.mpr h)

theorem mem_nodes_of_mem_bucket {m : Hmap α} {i : Nat} {nd : Node α} (h : nd ∈ m.bucket i) :
    nd ∈ nodes m := by
  rw [mem_nodes, slot, m.placed i nd h]
  exact h

theorem mem_nodes_remove {m : Hmap α} {hash : BitVec 32} {nd : Node α}
    (h : nd ∈ nodes (hmapRemove m hash)) : nd ∈ nodes m := by
  rcases mem_nodes_update m (hmapRemove m hash) rfl rfl h with hold | hl
  · exact hold
  · exact mem_nodes_of_mem_bucket (List.mem_of_mem_eraseP hl)

theorem mem_nodes_writeFirst {m : Hmap α} {hash : BitVec 32} {f : α → α} {nd : Node α}
    (h : nd ∈ nodes (hmapWriteFirst m hash f)) :
    nd ∈ nodes m ∨ ∃ old ∈ nodes m, old.hash = hash ∧ nd = old.mapEntry f := by
  rcases mem_nodes_update m (hmapWriteFirst m hash f) rfl rfl h with hold | hl
  · exact .inl hold
  · rcases mem_modifyFirst hl with hold | ⟨old, hmem, hp, rfl⟩
    · exact .inl (mem_nodes_of_mem_bucket hold)
    · exact .inr ⟨old, mem_nodes_of_mem_bucket hmem, eq_of_beq hp, rfl⟩

/-- A store through the first node with a hash replaces the first such node of the walk. -/
theorem nodes_writeFirst (m : Hmap α) (hash : BitVec 32) (f : α → α) :
    nodes (hmapWriteFirst m hash f) =
      modifyFirst (fun nd => nd.hash == hash) (Node.mapEntry f) (nodes m) := by
  have hother : ∀ j, j ≠ slot m.mask hash → ∀ nd ∈ m.bucket j, (nd.hash == hash) = false := by
    intro j hj nd hnd
    have hp := m.placed j nd hnd
    apply beq_false_of_ne
    rintro rfl
    exact hj hp.symm
  exact readOut_modifyFirst m.bucket (slot_lt m.mask hash) hother

/-- Stores through nodes with different hashes commute. -/
theorem hmapWriteFirst_comm (m : Hmap α) {h₁ h₂ : BitVec 32} (hne : h₁ ≠ h₂) (f g : α → α) :
    hmapWriteFirst (hmapWriteFirst m h₁ f) h₂ g = hmapWriteFirst (hmapWriteFirst m h₂ g) h₁ f := by
  have hb : (hmapWriteFirst (hmapWriteFirst m h₁ f) h₂ g).bucket =
      (hmapWriteFirst (hmapWriteFirst m h₂ g) h₁ f).bucket := by
    simp only [hmapWriteFirst]
    by_cases hs : slot m.mask h₁ = slot m.mask h₂
    · -- Both nodes lie in one bucket, in different classes of it.
      rw [hs, Function.update_self, Function.update_self, Function.update_idem,
        Function.update_idem]
      congr 1
      apply modifyFirst_comm
      · intro nd h2 h1
        exact hne ((eq_of_beq h1).symm.trans (eq_of_beq h2))
      · exact fun _ => rfl
      · exact fun _ => rfl
    · rw [Function.update_of_ne (Ne.symm hs), Function.update_of_ne hs, Function.update_comm hs]
  obtain ⟨b, mask, n, _, _⟩ := m
  simp only [hmapWriteFirst] at hb ⊢
  congr 1

end Sdpa.Switch
